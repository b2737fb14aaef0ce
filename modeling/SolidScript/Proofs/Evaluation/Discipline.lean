import SolidScript.Proofs.Evaluation.Safety

/-!
# Invariants of programs that are run

A block of statements is run in a context. A discipline is something that is true of every context
in which a block is run: it has to survive what a statement does, and to be true of every block that
a statement starts. What it says where a statement is run is then true all along.
-/

namespace SolidScript

open List Statement Option

open Scopes (Kept)
open Eval (SteadyIn)

/-! ## Contexts -/

/-- Where statements can be run: the frame is alive, so are those of the invocations whose bodies
may be asked for, and the modules that were invoked are still there to keep what these yield. -/
structure Context.LiveIn (ctx : Context) (s : Scopes) (blocks : List FrameId) : Prop where
  sound : s.Sound blocks
  frame_mem : ctx.frame ∈ blocks
  caller_mem (offer : Offer) (hoffer : offer ∈ ctx.offers) : offer.caller ∈ blocks
  offered (offer : Offer) (hoffer : offer ∈ ctx.offers) :
    ∃ f, Arena.get? s offer.frame = some f ∧ f.children.isSome

namespace Context.LiveIn

variable {ctx : Context} {s s' : Scopes} {blocks : List FrameId}

lemma keep (h : ctx.LiveIn s blocks) (hkept : Kept none s s') (hs : s'.Sound blocks) :
    ctx.LiveIn s' blocks where
  sound := hs
  frame_mem := h.frame_mem
  caller_mem := h.caller_mem
  offered offer hoffer := by
    obtain ⟨f, hf, hchildren⟩ := h.offered offer hoffer
    obtain ⟨f', hf', hsame⟩ := hkept.same hf
    exact ⟨f', hf', hsame.children.trans hchildren⟩

/-- To bind something in a frame takes nothing away. -/
lemma write (h : ctx.LiveIn s blocks) (frame : FrameId) (c : Change) :
    ctx.LiveIn (s.write frame c) blocks where
  sound := h.sound.write c
  frame_mem := h.frame_mem
  caller_mem := h.caller_mem
  offered offer hoffer := by
    obtain ⟨f, hf, hchildren⟩ := h.offered offer hoffer
    rw [Scopes.get?_write]
    by_cases hoffer : offer.frame = frame
    · refine ⟨c.apply frame f, by rw [if_pos hoffer, ← hoffer, hf]; rfl, ?_⟩
      cases c <;> first | exact hchildren | rfl
    · exact ⟨f, by rw [if_neg hoffer]; exact hf, hchildren⟩

lemma inside (h : ctx.LiveIn s blocks) {parent : FrameId} (hparent : parent ∈ blocks) :
    Context.LiveIn ⟨(s.enter (some parent)).1, ctx.offers⟩ (s.enter (some parent)).2
      ((s.enter (some parent)).1 :: blocks) where
  sound := h.sound.enter fun p hp => some.inj hp ▸ hparent
  frame_mem := mem_cons_self
  caller_mem offer hoffer := mem_cons_of_mem _ (h.caller_mem offer hoffer)
  offered offer hoffer := by
    obtain ⟨f, hf, hchildren⟩ := h.offered offer hoffer
    obtain ⟨f', hf', hsame⟩ :=
      (Kept.block h.sound.wellFormed (.refl _ (s.enter (some parent)).2)).same hf
    exact ⟨f', hf', hsame.children.trans hchildren⟩

/-- A module makes an offer of the body that it was invoked with. -/
lemma offer {frame caller : FrameId} {offers : List Offer}
    (h : Context.LiveIn ⟨frame, offers⟩ s blocks) (hcaller : caller ∈ blocks) (site : CallSite)
    (body : Program) (state : Offspring) :
    Context.LiveIn ⟨frame, ⟨site, body, caller, frame⟩ :: offers⟩ (s.write frame (.children state))
      blocks := by
  have hwrite := h.write frame (.children state)
  refine ⟨hwrite.sound, h.frame_mem, fun o ho => ?_, fun o ho => ?_⟩
  · rcases mem_cons.mp ho with rfl | ho
    · exact hcaller
    · exact h.caller_mem o ho
  · rcases mem_cons.mp ho with rfl | ho
    · obtain ⟨f, hf⟩ := h.sound.exists_frame h.frame_mem
      exact ⟨_, Scopes.get?_write_self (.children state) hf, rfl⟩
    · exact hwrite.offered o ho

/-- The context in which an offer is taken up: where the invocation stands, with the offers further
out. -/
lemma outside {frame : FrameId} {offer : Offer} {outer : List Offer}
    (h : Context.LiveIn ⟨frame, offer :: outer⟩ s blocks) :
    Context.LiveIn ⟨offer.caller, outer⟩ s blocks where
  sound := h.sound
  frame_mem := h.caller_mem offer mem_cons_self
  caller_mem o ho := h.caller_mem o (mem_cons_of_mem offer ho)
  offered o ho := h.offered o (mem_cons_of_mem offer ho)

/-- To note how far an offer has been taken up changes no name at all. -/
lemma kept_children (h : ctx.LiveIn s blocks) {offer : Offer} (hoffer : offer ∈ ctx.offers)
    (state : Offspring) : Kept none s (s.write offer.frame (.children state)) := by
  obtain ⟨f, hf, hchildren⟩ := h.offered offer hoffer
  refine Kept.write_children state fun g hg => ?_
  rw [hf] at hg
  exact some.inj hg ▸ hchildren

lemma offer_mem (h : ctx.LiveIn s blocks) {offer : Offer} (hoffer : offer ∈ ctx.offers) :
    offer.frame ∈ blocks := by
  obtain ⟨f, hf, -⟩ := h.offered offer hoffer
  exact h.sound.mem_of_get? hf

end Context.LiveIn

/-! ## Statements -/

namespace Statement

/-- What a statement binds in its own frame. -/
def Binds : Statement → Change → Prop
  | .assign _ name _, c => ∃ v, c = .values [(name, v)]
  | .defineModule _ m, c => c = .module m
  | .defineFunction _ f, c => c = .function f
  | _, _ => False

/-- What a statement does to the scopes: it makes the one binding that it stands for, if it stands
for one, and nothing else. -/
def Effect (stmt : Statement) (frame : FrameId) (s s' : Scopes) : Prop :=
  (∃ c, stmt.Binds c ∧ Kept none (s.write frame c) s') ∨ (∀ c, ¬stmt.Binds c) ∧ Kept none s s'

lemma Effect.kept {stmt : Statement} {frame : FrameId} {s s' : Scopes}
    (h : stmt.Effect frame s s') : Kept (some frame) s s' := by
  rcases h with ⟨c, -, h⟩ | ⟨-, h⟩
  · exact (Kept.write c).trans h.mono
  · exact h.mono

end Statement

/-- How a block begins: where its frame is put, what is bound there at first, and the offers to the
modules around, which may depend on the frame. -/
structure Beginning where
  parent : FrameId
  changes : List Change := []
  offers : FrameId → List Offer
  block : Program

namespace Beginning

/-- The frame of the block. -/
def frame (b : Beginning) (s : Scopes) : FrameId := (s.enter (some b.parent)).1

def context (b : Beginning) (s : Scopes) : Context := ⟨b.frame s, b.offers (b.frame s)⟩

/-- The scopes when the first statement of the block is run. -/
def scopes (b : Beginning) (s : Scopes) : Scopes :=
  b.changes.foldl (fun s' c => s'.write (b.frame s) c) (s.enter (some b.parent)).2

end Beginning

/-- The blocks that a statement may start when it is run in a context. -/
inductive Statement.Starts (ctx : Context) (s : Scopes) : Statement → Beginning → Prop where
  | yes {pos : Position} {condition : Expr} {yes no : Program} :
    Starts ctx s (.branch pos condition yes no) ⟨ctx.frame, [], fun _ => ctx.offers, yes⟩
  | no {pos : Position} {condition : Expr} {yes no : Program} :
    Starts ctx s (.branch pos condition yes no) ⟨ctx.frame, [], fun _ => ctx.offers, no⟩
  /-- A round of a loop. -/
  | round {pos : Position} {bindings : List Binding} {body : Program} (vs : List (String × Value)) :
    Starts ctx s (.loop pos bindings body) ⟨ctx.frame, [.values vs], fun _ => ctx.offers, body⟩
  /-- The children of a built-in operator. -/
  | operator {pos : Position} {name : String} {args : List Argument} {body : Program} :
    Starts ctx s (.invoke pos name args body) ⟨ctx.frame, [], fun _ => ctx.offers, body⟩
  /-- The body of a module, inside the frame that the module was defined in. -/
  | body {pos : Position} {name : String} {args : List Argument} {body : Program}
    {closure : ModuleClosure}
    (hfound : s.module? ctx.frame name = some closure) (bound : List (String × Value)) :
    Starts ctx s (.invoke pos name args body)
      ⟨closure.frame, [.values bound, .children .pending],
        fun id => ⟨⟨name, pos⟩, body, ctx.frame, id⟩ :: ctx.offers, closure.definition.body⟩
  /-- What the nearest module was invoked with, inside the frame of that invocation. -/
  | children {pos : Position} {name : String} {args : List Argument} {body : Program}
    {offer : Offer}
    {outer : List Offer} (hoffers : ctx.offers = offer :: outer) :
    Starts ctx s (.invoke pos name args body) ⟨offer.caller, [], fun _ => outer, offer.body⟩

/-- Something that may be said of a block that is run in a context, of the scopes then, and of the
blocks in progress. -/
abbrev Condition : Type := Context → Program → Scopes → List FrameId → Prop

/-- A condition that is true wherever a block is run, together with what it says of the uses of
frames. -/
structure Discipline (G : Visit → Prop) (C : Condition) : Prop where
  undemanding : Undemanding G
  live {ctx block s blocks} (h : C ctx block s blocks) : ctx.LiveIn s blocks
  keep {ctx block s s' blocks} (h : C ctx block s blocks) (hkept : Kept none s s')
    (hs : s'.Sound blocks) :
    C ctx block s' blocks
  /-- It says something of every statement that is run. -/
  run {ctx stmt rest s blocks} (h : C ctx (stmt :: rest) s blocks) : G ⟨s, ctx.frame, .run stmt⟩
  bind {ctx stmt rest s blocks} (h : C ctx (stmt :: rest) s blocks) {c : Change}
    (hc : stmt.Binds c) :
    C ctx rest (s.write ctx.frame c) blocks
  skip {ctx stmt rest s blocks} (h : C ctx (stmt :: rest) s blocks) (hstmt : ∀ c, ¬stmt.Binds c) :
    C ctx rest s blocks
  start {ctx stmt rest s blocks} (h : C ctx (stmt :: rest) s blocks) {b : Beginning}
    (hb : stmt.Starts ctx s b) :
    C (b.context s) b.block (b.scopes s) (b.frame s :: blocks)

variable {G : Visit → Prop} {C : Condition}

variable {ctx : Context} {stmt : Statement} {rest block : Program} {s : Scopes}
  {blocks : List FrameId} {w : World}

/-- The statements behind one that has been run. -/
lemma Discipline.next (hC : Discipline G C) {s' : Scopes} (h : C ctx (stmt :: rest) s blocks)
    (heffect : stmt.Effect ctx.frame s s') (hs : s'.Sound blocks) : C ctx rest s' blocks := by
  rcases heffect with ⟨c, hc, hkept⟩ | ⟨hstmt, hkept⟩
  · exact hC.keep (hC.bind h hc) hkept hs
  · exact hC.keep (hC.skip h hstmt) hkept hs

/-- What a condition says of a state. -/
abbrev Holding (C : Condition) (ctx : Context) (block : Program) (w : World) : Prop :=
  C ctx block w.scopes w.blocks

namespace Discipline

variable {α : Type} {ctx : Context} {block : Program} {w w' : World}

lemma keep_ends (hC : Discipline G C) (h : Holding C ctx block w) (hw : Ends G (Kept none) w w') :
    Holding C ctx block w' := by
  unfold Holding
  rw [hw.blocks_eq]
  exact hC.keep h hw.scopes hw.sound'

/-- A computation is over with what the discipline says. -/
lemma compute (hC : Discipline G C) {x : Eval α} {f : α → Building} (hx : SteadyIn ctx.frame α x)
    (h : Holding C ctx block w)
    (hf : ∀ a w', Ends G (Kept none) w w' → Holding C ctx block w' →
      (f a).Safe G none (Kept none) w') : (Eval.build x f).Safe G none (Kept none) w :=
  .compute hC.undemanding (hC.live h).sound (hC.live h).frame_mem hx fun a w' hw =>
    hf a w' hw (hC.keep_ends h hw)

end Discipline

lemma Statement.Starts.parent_mem {b : Beginning} (hb : stmt.Starts ctx s b)
    (h : ctx.LiveIn s blocks) : b.parent ∈ blocks := by
  cases hb with
  | yes | no | round | operator => exact h.frame_mem
  | body hfound => exact (h.sound.exists_of_module? h.frame_mem hfound).1
  | children hoffers => exact h.caller_mem _ (hoffers ▸ mem_cons_self)

/-- Every block that a statement starts in a live context has a live context. -/
lemma Context.LiveIn.start (h : ctx.LiveIn s blocks) {b : Beginning}
    (hb : stmt.Starts ctx s b) : (b.context s).LiveIn (b.scopes s) (b.frame s :: blocks) := by
  have hparent := hb.parent_mem h
  cases hb with
  | yes | no | operator => exact h.inside hparent
  | round vs => exact (h.inside hparent).write _ (.values vs)
  | body hfound bound =>
    exact ((h.inside hparent).write _ (.values bound)).offer
      (mem_cons_of_mem _ h.frame_mem) _ _ .pending
  | children hoffers =>
    obtain ⟨frame, offers⟩ := ctx
    subst hoffers
    exact h.outside.inside hparent

lemma Discipline.inside (hC : Discipline G C) (h : Holding C ctx (stmt :: rest) w)
    {parent : FrameId} {offers : FrameId → List Offer}
    (hb : stmt.Starts ctx w.scopes ⟨parent, [], offers, block⟩) {body : FrameId → Building}
    (hbody : ∀ id w, Holding C ⟨id, offers id⟩ block w →
      (body id).Safe G (some id) (Kept (some id)) w) :
    (inBody parent block body).Safe G none (Kept none) w :=
  .inBody hC.undemanding (hC.live h).sound (hb.parent_mem (hC.live h)) (hbody _ _ (hC.start h hb))

lemma Discipline.round (hC : Discipline G C) {pos : Position} {bindings : List Binding}
    (h : Holding C ctx (.loop pos bindings block :: rest) w) {body : FrameId → Building}
    (hbody : ∀ id w, Holding C ⟨id, ctx.offers⟩ block w →
      (body id).Safe G (some id) (Kept (some id)) w) (vs : List (String × Value)) :
    (inBlock ctx.frame fun id => Eval.build (Eval.write id (.values vs)) fun _ => body id).Safe G
      none (Kept none) w := by
  have hlive := hC.live h
  have hopened := hlive.inside hlive.frame_mem
  refine .inBlock hC.undemanding hlive.sound hlive.frame_mem ?_
  refine .write (Ends.write hC.undemanding hopened.sound hopened.frame_mem (.write _)) ?_
  exact hbody _ _ (hC.start h (.round vs))

/-! ## Programs -/

/-- To enter a module from wherever it is invoked keeps to the discipline. -/
def Enters (G : Visit → Prop) (C : Condition) (enter : EnterModule) : Prop :=
  ∀ (ctx : Context) (site : CallSite) (args : List Argument) (body rest : Program)
    (closure : ModuleClosure) (values : Arguments) (w : World),
    Holding C ctx (.invoke site.pos site.name args body :: rest) w →
    w.scopes.module? ctx.frame site.name = some closure →
    (enter ctx closure site values body).Safe G none (Kept none) w

/-- Ways to call functions, to enter modules and to ask for children that keep to the discipline. -/
structure Scoped (G : Visit → Prop) (C : Condition) (call : CallFunction) (enter : EnterModule)
    (ask : AskChildren) (offers : List Offer) : Prop where
  call (frame : FrameId) (site : CallSite) (args : Arguments) :
    SteadyIn frame Value (call frame site args)
  enter : Enters G C enter
  ask (frame : FrameId) (site : CallSite) (args : List Argument) (body rest : Program)
    (values : Arguments)
    (w : World) (hw : Holding C ⟨frame, offers⟩ (.invoke site.pos site.name args body :: rest) w) :
    (ask frame site values).Safe G none (Kept none) w

namespace Scoped

variable {env : Environment} {call : CallFunction} {enter : EnterModule} {ask : AskChildren}
  {offers : List Offer}
  {w : World}

lemma planOf (h : Scoped G C call enter ask offers) (frame : FrameId) (site : CallSite)
    (args : List Argument) (operator : Builtin.Operator) :
    SteadyIn frame Plan (planOf env call frame site args operator) :=
  .bind ((SteadyIn.closedIn h.call frame).arguments args) fun _ => .checking _

/-- Statements that bind nothing. -/
lemma effect {frame : FrameId} {x : Building} (hstmt : ∀ c, ¬stmt.Binds c)
    (h : x.Safe G none (Kept none) w) : x.Safe G none (stmt.Effect frame) w :=
  Run.Holds.mono (fun _ hw => hw) (fun _ hw => hw.mono fun hkept => .inr ⟨hstmt, hkept⟩)
    (fun _ _ hw => hw) h

/-- To bind what a statement stands for is its effect. -/
lemma bound (hG : Undemanding G) {frame : FrameId} {w' : World} (hframe : frame ∈ w.blocks)
    (hw : Steady none w.blocks w w') {c : Change} (hc : stmt.Binds c) :
    Ends G (stmt.Effect frame) w (w'.write frame c) := by
  have hends := hw.ends hG
  refine hends.trans (Ends.write (R := fun s s' => s' = s.write frame c) hG hends.sound ?_ rfl)
    fun _ heq => ?_
  · rw [hends.blocks_eq]
    exact hframe
  · refine .inl ⟨c, hc, Kept.of_get?_eq (fun id _ => ?_) fun id _ hid =>
      absurd hid (some_ne_none id).symm⟩
    rw [heq, Scopes.get?_write, Scopes.get?_write,
      hw.get?_eq frame (some_ne_none frame).symm,
      hw.get?_eq id (some_ne_none id).symm]

mutual

/-- A statement makes its binding and changes no other name, whatever blocks it starts. -/
theorem statement (h : Scoped G C call enter ask offers) (hC : Discipline G C) (frame : FrameId) :
    ∀ (stmt : Statement) (rest : Program) (w : World), Holding C ⟨frame, offers⟩ (stmt :: rest) w →
      (stmt.build env call enter ask offers frame).Safe G none (stmt.Effect frame) w
  | .assign _ name value, rest, w, hw => by
    have hlive := hC.live hw
    rw [build, Eval.build_bind]
    have hvalue :=
      (SteadyIn.closedIn h.call frame).expr value w w.blocks hlive.sound hlive.frame_mem
    refine (hvalue.mono (fun _ _ h => h) fun _ _ h => h.ends hC.undemanding).build
      fun v w' hw' => ?_
    exact bound hC.undemanding hlive.frame_mem hw' ⟨v, rfl⟩
  | .defineModule _ m, rest, w, hw =>
    bound hC.undemanding (hC.live hw).frame_mem (.refl (hC.live hw).sound) rfl
  | .defineFunction _ f, rest, w, hw =>
    bound hC.undemanding (hC.live hw).frame_mem (.refl (hC.live hw).sound) rfl
  | .evaluate _ value, rest, w, hw => by
    refine effect (fun _ => id) (hC.compute ((SteadyIn.closedIn h.call frame).expr value) hw ?_)
    exact fun _ w' hw' _ => .empty hw'.sound (.refl none _)
  | .branch _ condition yes no, rest, w, hw => by
    refine effect (fun _ => id) (hC.compute ((SteadyIn.closedIn h.call frame).expr condition) hw ?_)
    intro c w' _ hw'
    split
    · exact hC.inside hw' .yes fun id w => statements h hC id yes w
    · exact hC.inside hw' .no fun id w => statements h hC id no w
  | .loop _ bindings body, rest, w, hw => by
    rw [build_loop]
    refine effect (fun _ => id)
      (hC.compute ((SteadyIn.closedIn h.call frame).bindings bindings) hw ?_)
    intro vars w₀ _ hw₀
    -- every round begins where the rounds before it are over, with the names as they were before
    -- the loop
    refine .loop ⟨(hC.live hw₀).sound, .refl none _, rfl, fun _ hv => .inl hv⟩
      (fun i w₁ hw₁ => ?_) _ _
    exact hC.round (hC.keep_ends hw₀ hw₁) (fun id w => statements h hC id body w) (vars.bindings i)
  | .invoke pos name args body, rest, w, hw => by
    have hlive := hC.live hw
    rw [build]
    have hlookUp := SteadyIn.lookUp_holds (·.module? · name) hlive.sound hlive.frame_mem fun _ =>
      Ends G (Kept none) w
    refine effect (fun _ => id)
      (.build (hlookUp.mono (fun _ _ h => ⟨h.2.ends hC.undemanding, h.1⟩) fun _ _ h => h) ?_)
    rintro found w₁ hends₁ hfound
    have hw₁ := hC.keep_ends hw hends₁
    have hargs := (SteadyIn.closedIn h.call frame).arguments args
    cases found with
    | some closure =>
      refine hC.compute hargs hw₁ fun values w₂ hends₂ hw₂ => ?_
      -- the arguments were evaluated after the module was found, and that changed no definition
      refine h.enter _ ⟨name, pos⟩ args body rest closure values w₂ hw₂ ?_
      rw [(hC.live hw₁).sound.module?_eq (hC.live hw₁).frame_mem hends₂.scopes,
        hlive.sound.module?_eq hlive.frame_mem hends₁.scopes]
      exact hfound.symm
    | none =>
      dsimp only
      split
      · refine hC.compute hargs hw₁ fun values w₂ _ hw₂ => ?_
        exact h.ask frame ⟨name, pos⟩ args body rest values w₂ hw₂
      · split
        · exact .fail (hC.live hw₁).sound _
        · refine hC.compute (h.planOf frame _ args _) hw₁ fun p w₂ _ hw₂ => ?_
          exact .plan _ (hC.live hw₂).sound (hC.inside hw₂ .operator
            fun id w => statements h hC id body w) p

/-- A block that is run changes the names of no frame but its own. -/
theorem statements (h : Scoped G C call enter ask offers) (hC : Discipline G C) (frame : FrameId) :
    ∀ (block : Program) (w : World), Holding C ⟨frame, offers⟩ block w →
      (buildAll env call enter ask offers frame block).Safe G (some frame)
      (Kept (some frame)) w
  | [], w, hw => .empty (hC.live hw).sound (.refl _ _)
  | stmt :: rest, w, hw => by
    rw [buildAll_cons]
    have hvisit : Ends G (Kept none) w (w.visit frame (.run stmt)) :=
      ⟨(hC.live hw).sound, .refl none _, rfl,
        fun v hv => hv.elim (fun heq => .inr (heq ▸ hC.run hw)) .inl⟩
    have hvisit' : Ends G (Kept (some frame)) w (w.visit frame (.run stmt)) := hvisit.mono .mono
    -- the statement itself changes no name but in the end, so it may be suspended at any point
    -- before
    have hw₁ := hC.keep_ends hw hvisit
    have hstmt := statement h hC frame stmt rest _ hw₁
    refine Run.Holds.andThen (hstmt.mono (fun w' hw' => ?_) (fun _ hw' => hw') fun _ w' hw' => ?_)
      fun w' hw' => ?_
    · exact hvisit'.reaches ⟨hw'.sound, hw'.kept.mono, hw'.stack, hw'.visits⟩
    · exact hvisit'.trans hw' fun h h' => h.trans h'.mono
    · have hkept : Ends G (Kept (some frame)) w w' := hvisit'.trans hw' fun h h' => h.trans h'.kept
      have hrest : Holding C ⟨frame, offers⟩ rest w' := by
        unfold Holding
        rw [hw'.blocks_eq]
        exact hC.next hw₁ hw'.scopes hw'.sound'
      exact (statements h hC frame rest w' hrest).after hkept

end

end Scoped

lemma safe_select (hC : Discipline G C) (hw : Holding C ctx block w) (gs : List (Geometry Float))
    (site : CallSite) (args : Arguments) : (yieldSelected gs site args).Safe G none (Kept none) w :=
  hC.compute (SteadyIn.reporting ctx.frame _) hw fun selected _ hw' _ => .ofItems hw'.sound selected

lemma safe_nothing (hC : Discipline G C) (hw : Holding C ctx block w)
    (site : CallSite) : (nothingOffered site).Safe G none (Kept none) w :=
  hC.compute ((SteadyIn.closed ctx.frame).warn _ _) hw fun _ _ hw' _ =>
    .empty hw'.sound (.refl none _)

/-- To note how far an offer has been taken up. -/
lemma ends_children (hC : Discipline G C) (hw : Holding C ctx block w) {offer : Offer}
    (hoffer : offer ∈ ctx.offers) (state : Offspring) :
    Ends G (Kept none) w (w.write offer.frame (.children state)) :=
  .write hC.undemanding (hC.live hw).sound ((hC.live hw).offer_mem hoffer)
    ((hC.live hw).kept_children hoffer state)

/-- To ask for children keeps to the discipline, whatever offers there are. -/
lemma scoped_ask (hC : Discipline G C) (env : Environment) {call : CallFunction}
    {enter : EnterModule} (hcall : ∀ frame site args, SteadyIn frame Value (call frame site args))
    (henter : Enters G C enter) (offers : List Offer) :
    Scoped G C call enter (askChildren env call enter offers) offers := by
  induction offers with
  | nil =>
    refine ⟨hcall, henter, fun frame site _ _ _ _ w hw => ?_⟩
    exact hC.compute (SteadyIn.lookUp _) hw fun _ _ _ hw' => safe_nothing hC hw' site
  | cons offer outer ih =>
    refine ⟨hcall, henter, fun frame site args body rest values w hw => ?_⟩
    rw [askChildren]
    refine hC.compute (SteadyIn.lookUp _) hw fun found w₁ _ hw₁ => ?_
    cases found with
    | none => exact safe_nothing hC hw₁ site
    | some state =>
      cases state with
      | ready gs => exact safe_select hC hw₁ gs site values
      | forcing => exact .fail (hC.live hw₁).sound _
      | pending =>
        dsimp only
        rw [Offer.build_force]
        have hforcing := ends_children hC hw₁ mem_cons_self .forcing
        have hw₂ := hC.keep_ends hw₁ hforcing
        -- the body of the invocation is run in its surroundings, with the offers that are further
        -- out
        refine .write hforcing
          (.collect (hC.inside hw₂ (.children rfl) fun id => ih.statements hC id _) ?_)
        intro gs w₃ hends
        have hw₃ := hC.keep_ends hw₂ hends
        have hready := ends_children hC hw₃ mem_cons_self (.ready gs)
        exact .write hready (safe_select hC (hC.keep_ends hw₃ hready) gs site values)

/-- To enter a module keeps to the discipline, however many calls may be in progress. -/
lemma scoped_enter (hC : Discipline G C) (env : Environment) (left : Nat) :
    Enters G C (enterModule env left) := by
  induction left with
  | zero => exact fun _ _ _ _ _ _ _ _ hw _ => .fail (hC.live hw).sound _
  | succ left ih =>
    intro ctx site args body rest closure values w hw hfound
    have hcall := SteadyIn.callFunction env left
    have hlive := hC.live hw
    have hdefined := (hlive.sound.exists_of_module? hlive.frame_mem hfound).1
    have hbound :=
      SteadyIn.orAt ((SteadyIn.closedIn hcall closure.frame).parameters closure.definition.name
      closure.definition.params values) site.pos
    refine .inCall (.compute hC.undemanding hlive.sound hdefined hbound fun bound w₁ hends => ?_)
    -- parameters are bound where the module was defined, and that changes nothing there
    have hw₁ : Holding C ctx (.invoke site.pos site.name args body :: rest) w₁ :=
      hC.keep_ends (w := w.openCall closure.definition.name) hw hends
    have hfound₁ : w₁.scopes.module? ctx.frame site.name = some closure :=
      (hlive.sound.module?_eq hlive.frame_mem hends.scopes site.name).trans hfound
    have hparent := (hC.live hw₁).sound.exists_of_module? (hC.live hw₁).frame_mem hfound₁
    have hopened := (hC.live hw₁).inside hparent.1
    refine .inBlock hC.undemanding hends.sound hparent.1 ?_
    rw [Eval.build_bind]
    refine .write (Ends.write hC.undemanding hopened.sound hopened.frame_mem (.write _)) ?_
    refine .write (Ends.write hC.undemanding (hopened.write _ _).sound hopened.frame_mem (.write _))
      ?_
    exact (scoped_ask hC env hcall ih _).statements hC _ _ _ (hC.start hw₁ (.body hfound₁ bound))

/-! ## Evaluations -/

namespace Discipline

variable {env : Environment} {program : Program}

/-- What is in progress, and what has been used, at every moment between two pulls. -/
def Between (G : Visit → Prop) (w : World) : Prop := w.scopes.Sound w.blocks ∧ ∀ v, w.visits v → G v

/-- Every evaluation keeps to a discipline that it begins with. -/
theorem after (hC : Discipline G C)
    (hstart : Holding C ⟨(World.openBlock {} none).1, []⟩ program
      (Evaluation.start env program).world) (k : Nat) :
    Between G ((Evaluation.start env program).after k).world := by
  have hcall := SteadyIn.callFunction env env.host.settings.maxDepth
  have hscoped := scoped_ask hC env hcall (scoped_enter hC env env.host.settings.maxDepth) []
  -- the frame of the program goes when the last statement is over, and then nothing is in progress
  have hclose :
    ∀ w', Ends G (Kept (some (World.openBlock {} none).1)) (Evaluation.start env program).world w' →
      Between G (w'.closeBlock (World.openBlock {} none).1) := fun w' hw => by
    have hblocks : (w'.closeBlock (World.openBlock {} none).1).blocks = [] :=
      World.blocks_congr (w := {}) (congrArg tail hw.stack)
    refine ⟨?_, fun v hv => (hw.visits v hv).resolve_left id⟩
    rw [hblocks]
    exact hw.sound'.release
  refine (Evaluation.holds_after (I := Between G) (fun _ _ h => h)
    ⟨(hC.live hstart).sound, fun _ hv => absurd hv id⟩ ?_
    k).1
  refine Run.Holds.atEnd (Run.Holds.mono (fun w' hw => ?_) (fun _ hw => hw) (fun _ _ hw => hw)
    (hscoped.statements hC _ program _ hstart)) hclose fun _ => hclose
  exact ⟨hw.sound, fun v hv => (hw.visits v hv).resolve_left id⟩

end Discipline

/-- A program begins in a frame of its own, without any offers. -/
lemma liveIn_start (env : Environment) (program : Program) :
    Holding (fun ctx _ => ctx.LiveIn) ⟨(World.openBlock {} none).1, []⟩ program
      (Evaluation.start env program).world where
  sound := Scopes.sound_empty.enter fun p hp => absurd hp (some_ne_none p).symm
  frame_mem := mem_cons_self
  caller_mem _ ho := absurd ho not_mem_nil
  offered _ ho := absurd ho not_mem_nil

end SolidScript
