import SolidScript.Proofs.Machine.Values

/-!
# The machine builds what the evaluator builds

Where a run of the evaluator yields, the machine takes finitely many steps and hands out the same
item in the same state, or adds it to what is being collected. Where the run is over, the machine
has come to the tasks behind it in the state that the run leaves, or gives them up with the error of
the run.
-/

namespace SolidScript

open Statement

open Machine (StepsTo Performed running failing)
open Eval (Still)

/-! ## Runs -/

namespace Run

/-- A machine does what a run does and comes to the tasks `K` then, with operands as before and with
as many calls in progress as `d` says. Items are handed out unless something is collecting them. -/
def Traced (env : Environment) (K : List Task) (vs : List Value) (d : Nat) :
    Run World RuntimeError (Geometry Float) → List (List (Geometry Float)) → Machine → Prop
  | done w, cs, m => w.depth = d ∧ StepsTo env m (running w K vs cs)
  | fail e w, _, m => StepsTo env m (failing w K e)
  | yield g w next, [], m =>
    ∃ m₁ m₂, StepsTo env m m₁ ∧ m₁.move env = .item g m₂ ∧ m₂.world = w ∧
      ∀ log, (next (w.withLog log)).Traced env K vs d [] (m₂.withLog log)
  | yield g w next, c :: cs, m =>
    ∃ m', StepsTo env m m' ∧ (next w).Traced env K vs d ((c ++ [g]) :: cs) m'

lemma atEnd_atEnd (f g : World → World) (r : Run World RuntimeError (Geometry Float)) :
    (r.atEnd f).atEnd g = r.atEnd fun w => g (f w) := by
  induction r with
  | done w => rfl
  | fail e w => rfl
  | yield a w next ih =>
    show yield a w _ = yield a w _
    congr 1
    funext w'
    exact ih w'

namespace Traced

variable {env : Environment} {K : List Task} {vs : List Value} {d : Nat}
  {r : Run World RuntimeError (Geometry Float)}
  {cs : List (List (Geometry Float))} {m m' : Machine}

/-- Steps may come before. -/
lemma head (hsteps : StepsTo env m m') (h : r.Traced env K vs d cs m') :
    r.Traced env K vs d cs m := by
  cases r with
  | done w => exact ⟨h.1, hsteps.trans h.2⟩
  | fail e w => exact Relation.ReflTransGen.trans hsteps h
  | yield g w next =>
    cases cs with
    | nil =>
      obtain ⟨m₁, m₂, h₁, h₂⟩ := h
      exact ⟨m₁, m₂, hsteps.trans h₁, h₂⟩
    | cons c cs =>
      obtain ⟨m₁, h₁, h₂⟩ := h
      exact ⟨m₁, hsteps.trans h₁, h₂⟩

lemma andThen {ts : List Task} {y : Building} (hts : ∀ t ∈ ts, t.IsPlain)
    (h : r.Traced env (ts ++ K) vs d cs m)
    (hy : ∀ w cs, w.depth = d → (y w).Traced env K vs d cs (running w (ts ++ K) vs cs)) :
    (r.andThen y).Traced env K vs d cs m := by
  induction r generalizing cs m with
  | done w => exact head h.2 (hy w cs h.1)
  | fail e w =>
    -- the second run never begins, and the tasks for it are given up
    exact Relation.ReflTransGen.trans h (steps_plain hts w K e)
  | yield g w next ih =>
    cases cs with
    | nil =>
      obtain ⟨m₁, m₂, h₁, h₂, h₃, hnext⟩ := h
      exact ⟨m₁, m₂, h₁, h₂, h₃, fun log => ih _ (hnext log)⟩
    | cons c cs =>
      obtain ⟨m₁, h₁, hnext⟩ := h
      exact ⟨m₁, h₁, ih _ hnext⟩

/-- A run in a block, which is left in the end. -/
lemma leave {d' : Nat} {id : FrameId} {c : Option Call}
    (h : r.Traced env (.leave id c :: K) vs d' cs m)
    (hd : ∀ w : World, w.depth = d' → (w.leave id c).depth = d) :
    (r.atEnd (·.leave id c)).Traced env K vs d cs m := by
  induction r generalizing cs m with
  | done w => exact ⟨hd w h.1, h.2.tail rfl⟩
  | fail e w => exact Relation.ReflTransGen.tail h rfl
  | yield g w next ih =>
    cases cs with
    | nil =>
      obtain ⟨m₁, m₂, h₁, h₂, h₃, hnext⟩ := h
      exact ⟨m₁, m₂, h₁, h₂, h₃, fun log => ih _ (hnext log)⟩
    | cons c cs =>
      obtain ⟨m₁, h₁, hnext⟩ := h
      exact ⟨m₁, h₁, ih _ hnext⟩

/-- A computation and then a run, with a change of the state in the end. -/
lemma build_atEnd {α : Type} {y : Eval α} {f : α → Building} {g : World → World} {w : World}
    (h : y.Holds w (fun a w' => ((f a w').atEnd g).Traced env K vs d cs m)
      fun e w' => StepsTo env m (failing (g w') K e)) :
    ((Eval.build y f w).atEnd g).Traced env K vs d cs m := by
  unfold Eval.build
  cases hr : y w with
  | ok a w' => exact h.of_ok hr
  | error e w' => exact h.of_error hr

lemma collect {acc : Array (Geometry Float)} (h : r.Traced env K vs d (acc.toList :: cs) m) :
    match r.collect acc with
    | (.ok gs, w) => w.depth = d ∧ StepsTo env m (running w K vs (gs :: cs))
    | (.error e, w) => StepsTo env m (failing w K e) := by
  induction r generalizing acc m with
  | done w => exact h
  | fail e w => exact h
  | yield g w next ih =>
    obtain ⟨m', hsteps, hnext⟩ := h
    rw [← Array.toList_push] at hnext
    have hrest := ih w hnext
    unfold Run.collect
    revert hrest
    split
    · exact fun hrest => ⟨hrest.1, hsteps.trans hrest.2⟩
    · exact fun hrest => hsteps.trans hrest

/-- All geometry of a run is collected. -/
lemma drain (h : r.Traced env K vs d ([] :: cs) m) :
    match r.drain with
    | (.ok gs, w) => w.depth = d ∧ StepsTo env m (running w K vs (gs :: cs))
    | (.error e, w) => StepsTo env m (failing w K e) := collect h

end Traced

end Run

/-! ## Buildings -/

/-- A machine carries out a building: it begins in some way in front of any other tasks, while
`left` more calls may be in progress, and does what the building does. -/
def Carries (env : Environment) (left : Nat) (begin : Machine → Machine) (x : Building) : Prop :=
  ∀ w K vs cs, w.depth + left = env.host.settings.maxDepth →
    (x w).Traced env K vs w.depth cs (begin (running w K vs cs))

namespace Carries

variable {env : Environment} {left : Nat} {α : Type} {begin : Machine → Machine} {x : Building}

lemma empty : Carries env left (fun m => m) .empty := fun _ _ _ _ _ => ⟨rfl, .refl⟩

lemma raise (e : RuntimeError) : Carries env left (·.raise e) (.fail e) := fun _ _ _ _ _ => .refl

variable {t : Task} {y : Eval α} {f : α → Building} {block : Program}

/-- What comes of a task that is performed. -/
lemma step {out : List Value} (ht : Performed env t)
    (h : Carries env left (fun m => t.perform env (m.give out)) x) :
    Carries env left (fun m => (m.give out).todo [t]) x :=
  fun w K vs cs hdepth => .head (.single (ht w K _ cs)) (h w K vs cs hdepth)

lemma perform (ht : Performed env t) (h : Carries env left (t.perform env) x) :
    Carries env left (·.todo [t]) x := by
  show Carries env left (fun m => (m.give []).todo [t]) x
  exact step ht h

lemma build {R : α → List Value → Prop} {ts : List Task} (hts : ∀ t ∈ ts, t.IsPlain)
    (hy : Evaluates env left begin y R)
    (hf : ∀ a out, R a out → Carries env left (fun m => (m.give out).todo ts) (f a)) :
    Carries env left (fun m => begin (m.todo ts)) (Eval.build y f) := by
  intro w K vs cs hdepth
  have hw := hy w (ts ++ K) vs cs hdepth
  unfold Eval.build
  cases hr : y w with
  | ok a w' =>
    obtain ⟨hw, out, hR, hsteps⟩ := hw.of_ok hr
    exact .head hsteps (hw ▸ hf a out hR w' K vs cs (hw ▸ hdepth))
  | error e w' => exact Relation.ReflTransGen.trans (hw.of_error hr) (steps_plain hts w' K e)

lemma operands {R : α → List Value → Prop} {frame : FrameId} {es : List Expr} (ht : t.IsPlain)
    (hy : Evaluates env left (·.todo (es.map (.expr frame))) y R)
    (hf : ∀ a out, R a out → Carries env left (fun m => (m.give out).todo [t]) (f a)) :
    Carries env left (fun m => m.evaluate frame es t) (Eval.build y f) := by
  have h := build (isPlain_single ht) hy hf
  simp only [← Machine.todo_append] at h
  exact h

/-- Computations without tasks are done on the way. -/
lemma compute {next : α → Machine → Machine} (hy : Still y)
    (hf : ∀ a, Carries env left (next a) (f a)) :
    Carries env left (fun m => m.compute y next) (Eval.build y f) := by
  intro w K vs cs hdepth
  unfold Eval.build Machine.compute
  dsimp only
  cases hr : y w with
  | ok a w' =>
    have hw := ((hy w).of_ok hr).1.depth
    have h := hf a w' K vs cs (hw ▸ hdepth)
    exact hw ▸ h
  | error e w' => exact .refl

lemma write (begin : Machine → Machine) {frame : FrameId} {c : Change} {f : Unit → Building}
    (h : Carries env left begin (f ())) :
    Carries env left (fun m => begin (m.write frame c)) (Eval.build (Eval.write frame c) f) :=
  fun w K vs cs hdepth => h (w.write frame c) K vs cs hdepth

lemma inBlock {parent : FrameId} {body : FrameId → Building} {next : FrameId → Machine → Machine}
    (h : ∀ id, Carries env left (next id) (body id)) :
    Carries env left (fun m => m.inside parent none next) (inBlock parent body) :=
  fun w K vs cs hdepth =>
    (h (w.openInside parent).1 (w.openInside parent).2 (.leave (w.openInside parent).1 none :: K) vs
      cs hdepth).leave
      fun _ hw => hw

lemma inBody {parent : FrameId} {offers : List Offer} {body : FrameId → Building}
    (h : ∀ id, Carries env left (·.todo [.block ⟨id, offers⟩ block]) (body id)) :
    Carries env left (fun m => m.body parent block offers) (inBody parent block body) := by
  unfold SolidScript.inBody Machine.body
  by_cases hblock : block.isEmpty
  · simp only [if_pos hblock]
    exact empty
  · simp only [if_neg hblock]
    exact inBlock h

lemma collect {f : List (Geometry Float) → Building} (begin : Machine → Machine) (t : Task)
    (next : List (Geometry Float) → Machine → Machine) (ht : t.IsPlain) (hstep : Performed env t)
    (hperform : ∀ m, t.perform env m = m.withCollected next) (hx : Carries env left begin x)
    (hf : ∀ gs, Carries env left (next gs) (f gs)) :
    Carries env left (fun m => begin (m.gather.todo [t])) (Eval.build (Eval.collect x) f) := by
  intro w K vs cs hdepth
  have hcollect := (hx w (t :: K) vs ([] :: cs) hdepth).drain
  unfold Eval.build Eval.collect Stream.drain
  rcases hr : (x w).drain with ⟨e | gs, w'⟩
  · rw [hr] at hcollect
    exact Relation.ReflTransGen.trans hcollect (steps_plain (isPlain_single ht) w' K e)
  · rw [hr] at hcollect
    obtain ⟨hw, hsteps⟩ := hcollect
    refine .head (hsteps.tail (hstep w' K vs (gs :: cs))) ?_
    rw [hperform, ← hw]
    exact hf gs w' K vs cs (hw ▸ hdepth)

lemma andThen {y : Building} (begin : Machine → Machine) (ts : List Task)
    (hts : ∀ t ∈ ts, t.IsPlain) (hx : Carries env left begin x)
    (hy : Carries env left (·.todo ts) y) :
    Carries env left (fun m => begin (m.todo ts)) fun w => (x w).andThen y := by
  intro w K vs cs hdepth
  refine (hx w (ts ++ K) vs cs hdepth).andThen hts fun w' cs' hw => ?_
  have h := hy w' K vs cs' (hw ▸ hdepth)
  exact hw ▸ h

/-- Items are handed out one after the other. -/
lemma ofItems (gs : List (Geometry Float)) :
    Carries env left (·.todo [.emit gs]) (.ofItems gs) := by
  induction gs with
  | nil => exact fun w K vs cs _ => ⟨rfl, .single rfl⟩
  | cons g gs ih =>
    intro w K vs cs hdepth
    cases cs with
    | nil =>
      -- nobody collects, so the item is handed out and the others come after the next pull
      exact ⟨_, _, .refl, rfl, rfl, fun log => ih (w.withLog log) K vs [] hdepth⟩
    | cons c cs => exact ⟨_, .single rfl, ih w K vs ((c ++ [g]) :: cs) hdepth⟩

lemma ite {b : Prop} [Decidable b] {y : Building} {yes no : Machine → Machine}
    (hyes : Carries env left yes x) (hno : Carries env left no y) :
    Carries env left (fun m => if b then yes m else no m) (if b then x else y) := by
  by_cases hb : b
  · simp only [if_pos hb]
    exact hyes
  · simp only [if_neg hb]
    exact hno

/-- Rounds are tasks that follow each other. -/
lemma loop {ctx : Context} {vars : LoopRange} {body : Nat → Building}
    (h : ∀ i, Carries env left (fun m => m.inside ctx.frame none fun id m =>
      (m.write id (.values (vars.bindings i))).todo [.block ⟨id, ctx.offers⟩ block]) (body i))
    (n i : Nat) :
    Carries env left (·.todo [.rounds ctx vars block n i]) (Stream.loop body n i) := by
  induction n generalizing i with
  | zero => exact fun w K vs cs _ => ⟨rfl, .single rfl⟩
  | succ n ih =>
    refine perform (fun _ _ _ _ => rfl) ?_
    rw [Stream.loop_succ]
    exact andThen _ [.rounds ctx vars block n (i + 1)] (isPlain_single trivial) (h i) (ih (i + 1))

lemma plan {ctx : Context} {site : CallSite}
    (hx : Carries env left (fun m => m.body ctx.frame block ctx.offers) x) (p : Plan) :
    Carries env left (fun m => m.carryOut ctx site block p) (Plan.build (.ofStream site x) p) := by
  cases p with
  | shape g => exact ofItems [g]
  | relay => exact hx
  | fold join change =>
    refine collect _ (.fold site join change)
      (fun gs m => m.settle (Plan.joined site join change gs)) trivial
      (fun _ _ _ _ => rfl) (fun _ => rfl) hx fun gs => ?_
    rw [show (Supply.ofStream site x).site = site from rfl]
    cases Plan.joined site join change gs with
    | error e => exact raise e
    | ok joined =>
      cases joined with
      | none => exact empty
      | some g => exact ofItems [g]

end Carries

/-! ## Programs -/

/-- A way to enter modules that a machine follows. -/
def FollowsModules (env : Environment) (left : Nat) (enter : EnterModule) : Prop :=
  ∀ (ctx : Context) (closure : ModuleClosure) (site : CallSite) (args : Arguments) (body : Program),
    Carries env left (fun m => m.enter env (.module ctx closure site body) args)
      (enter ctx closure site args body)

/-- Ways to call functions, to enter modules and to ask for children that a machine follows. -/
structure Follows (env : Environment) (left : Nat) (call : CallFunction) (enter : EnterModule)
    (ask : AskChildren) (offers : List Offer) : Prop where
  call : FollowsCalls env left call
  enter : FollowsModules env left enter
  ask (frame : FrameId) (site : CallSite) (args : Arguments) :
    Carries env left (fun m => m.ask ⟨frame, offers⟩ site args) (ask frame site args)

namespace Follows

variable {env : Environment} {left : Nat} {call : CallFunction} {enter : EnterModule}
  {ask : AskChildren}
  {offers : List Offer}

open Evaluates (expr arguments bindings)

mutual

/-- The machine carries out every statement. -/
theorem statement (h : Follows env left call enter ask offers) (frame : FrameId) :
    ∀ stmt : Statement,
    Carries env left (fun m => stmt.begin env ⟨frame, offers⟩ m)
      (stmt.build env call enter ask offers frame)
  | .assign _ name value => by
    rw [build, Eval.build_bind]
    refine .operands trivial (expr h.call frame value).taken ?_
    rintro v _ rfl
    exact .step (fun _ _ _ _ => rfl) (.write (fun m => m) .empty)
  | .evaluate _ value => by
    refine .operands trivial (expr h.call frame value).taken ?_
    rintro v _ rfl
    exact .step (fun _ _ _ _ => rfl) .empty
  | .defineModule _ m => by
    rw [build]
    exact .write (fun m => m) .empty
  | .defineFunction _ f => by
    rw [build]
    exact .write (fun m => m) .empty
  | .branch _ condition yes no => by
    refine .operands trivial (expr h.call frame condition).taken ?_
    rintro c _ rfl
    refine .step (fun _ _ _ _ => rfl) ?_
    show Carries env left (fun m => if c.isTruthy then m.body frame yes offers
      else m.body frame no offers) _
    refine .ite ?_ ?_
    · exact .inBody fun id => statements h id yes
    · exact .inBody fun id => statements h id no
  | .loop _ bs body => by
    rw [build_loop]
    refine .operands trivial (bindings h.call frame bs) ?_
    rintro _ _ ⟨vs, hlength, rfl, rfl⟩
    refine .step (fun _ _ _ _ => rfl) ?_
    simp only [Task.perform, Machine.withOperands_give _ hlength]
    refine .loop (fun i => ?_) _ _
    exact .inBlock fun id => .write (·.todo [.block ⟨id, offers⟩ body]) (statements h id body)
  | .invoke pos name args body => by
    rw [build]
    show Carries env left (fun m => m.compute (Eval.lookUp frame (·.module? · name)) fun found m =>
      m.invoke env ⟨frame, offers⟩ ⟨name, pos⟩ args body found) _
    refine .compute (.lookUp frame _) fun found => ?_
    cases found with
    | some closure =>
      refine .operands trivial (arguments h.call frame args) fun args out hargs =>
        .step (fun _ _ _ _ => rfl) ?_
      simp only [Task.perform, hargs.withArguments]
      exact h.enter ⟨frame, offers⟩ closure ⟨name, pos⟩ args body
    | none =>
      refine .ite ?_ ?_
      · refine .operands trivial (arguments h.call frame args) fun args out hargs =>
          .step (fun _ _ _ _ => rfl) ?_
        simp only [Task.perform, hargs.withArguments]
        exact h.ask frame ⟨name, pos⟩ args
      · cases env.registry.operators.lookup name with
        | none => exact .raise _
        | some operator =>
          dsimp only [planOf]
          rw [Eval.build_bind]
          refine .operands trivial (arguments h.call frame args) fun args out hargs =>
            .step (fun _ _ _ _ => rfl) ?_
          simp only [Task.perform, hargs.withArguments]
          refine .compute (.checking (fun _ _ => trivial) fun _ _ => trivial) fun plan => ?_
          exact .plan (.inBody fun id => statements h id body) plan

/-- The machine runs every block. -/
theorem statements (h : Follows env left call enter ask offers) (frame : FrameId) :
    ∀ block : Program,
    Carries env left (·.todo [.block ⟨frame, offers⟩ block])
      (buildAll env call enter ask offers frame block)
  | [] => fun _ _ _ _ _ => ⟨rfl, .single rfl⟩
  | stmt :: rest => by
    rw [buildAll_cons]
    refine .perform (fun _ _ _ _ => rfl) fun w K vs cs hdepth => ?_
    have hstmt := statement h frame stmt
    have hrest := statements h frame rest
    exact Carries.andThen _ [.block ⟨frame, offers⟩ rest] (isPlain_single trivial) hstmt hrest
      (w.visit frame (.run stmt)) K vs cs hdepth

end

end Follows

variable {env : Environment} {left : Nat}

lemma carries_select (gs : List (Geometry Float)) (site : CallSite) (args : Arguments) :
    Carries env left (fun m => m.select gs site args) (yieldSelected gs site args) :=
  .compute (.reporting _) fun selected => .ofItems selected

lemma carries_nothing (site : CallSite) :
    Carries env left (fun m => m.nothingOffered site) (nothingOffered site) :=
  .compute (.warn _ _) fun _ => .empty

/-- To ask for children is followed, whatever offers there are. -/
lemma follows_ask {call : CallFunction} {enter : EnterModule} (hcall : FollowsCalls env left call)
    (henter : FollowsModules env left enter) (offers : List Offer) :
    Follows env left call enter (askChildren env call enter offers) offers := by
  induction offers with
  | nil =>
    exact ⟨hcall, henter, fun frame site args => .compute (.lookUp frame _)
      fun found => carries_nothing site⟩
  | cons offer outer ih =>
    refine ⟨hcall, henter, fun frame site args => .compute (.lookUp frame _) fun found => ?_⟩
    match found with
    | none => exact carries_nothing site
    | some (.ready gs) => exact carries_select gs site args
    | some .forcing => exact .raise _
    | some .pending =>
      dsimp only
      rw [Offer.build_force]
      refine .write
        (fun m => (m.gather.todo [.keep offer site args]).body offer.caller offer.body outer) ?_
      refine .collect _ (.keep offer site args)
        (fun gs m => (m.write offer.frame (.children (.ready gs))).select gs site args) trivial
        (fun _ _ _ _ => rfl)
        (fun _ => rfl) (.inBody fun id => ih.statements id offer.body) fun gs => ?_
      exact .write (fun m => m.select gs site args) (carries_select gs site args)

lemma carries_module (henter : FollowsModules env left (enterModule env left)) (ctx : Context)
    (closure : ModuleClosure) (site : CallSite) (args : Arguments) (body : Program) :
    Carries env (left + 1) (fun m => m.enter env (.module ctx closure site body) args)
      (enterModule env (left + 1) ctx closure site args body) := by
  intro w K vs cs hdepth
  have hcall := follows_callFunction env left
  have hopen : (w.openCall closure.definition.name).depth + left = env.host.settings.maxDepth := by
    show w.depth + 1 + left = _
    omega
  dsimp only
  rw [enter_of_room hdepth, enterModule]
  refine Run.Traced.build_atEnd
    ((Evaluates.supply hcall (.module ctx closure site body) args _ K vs cs hopen).mono ?_
    fun _ _ h => h)
  rintro _ w₁ ⟨hw₁, names, given, specials, hlength, rfl, hsteps⟩
  -- the block of the body and the call are left together
  unfold inBlock
  dsimp only
  rw [Run.atEnd_atEnd]
  refine .head (hsteps.tail (move_start hlength specials w₁ K vs cs)) ?_
  have hfollows := follows_ask hcall henter
    (⟨site, body, ctx.frame, (w₁.openInside closure.frame).1⟩ :: ctx.offers)
  have hbody := hfollows.statements (w₁.openInside closure.frame).1 closure.definition.body
  have htraced := hbody
    (((w₁.openInside closure.frame).2.write (w₁.openInside closure.frame).1
      (.values (names.zip given ++ specials))).write (w₁.openInside closure.frame).1 (.children
      .pending))
    (.leave (w₁.openInside closure.frame).1 (some (.module ctx closure site body)) :: K) vs cs
    (hw₁ ▸ hopen)
  refine htraced.leave fun w' hw' => ?_
  show w'.depth - 1 = w.depth
  have hw'' : w'.depth = w.depth + 1 := hw'.trans hw₁
  omega

/-- To enter modules is followed, however many calls may be in progress. -/
lemma follows_enter (env : Environment) (left : Nat) :
    FollowsModules env left (enterModule env left) := by
  induction left with
  | zero =>
    intro ctx closure site args body w K vs cs hdepth
    dsimp only
    rw [enter_of_full hdepth]
    exact .refl
  | succ left ih => exact carries_module ih

/-- The machine for a program does what its evaluation does, whatever is being collected. -/
lemma traced_start (env : Environment) (program : Program) (cs : List (List (Geometry Float))) :
    ((Evaluation.start env program).rest (Evaluation.start env program).world).Traced env [] [] 0 cs
      { Machine.start program with collected := cs } := by
  have hfollows := follows_ask (follows_callFunction env env.host.settings.maxDepth)
    (follows_enter env env.host.settings.maxDepth) []
  have htraced :=
    hfollows.statements (World.openBlock {} none).1 program (World.openBlock {} none).2
      [.leave (World.openBlock {} none).1 none] [] cs (Nat.zero_add _)
  exact htraced.leave fun w hw => hw

end SolidScript
