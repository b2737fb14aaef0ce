import SolidScript.Proofs.Evaluation.Discipline
import SolidScript.Proofs.Program.Classification

/-!
# Calls find what they were taken for

The blocks of a program nest in its text, and frames nest while it is run. A module's body is run
inside the frame that the module was defined in, and the body of an invocation inside the frame of
the invocation, so from every frame the names are visible that are defined around the block in the
text. What a call was taken for by those names is then what it finds.
-/

namespace SolidScript

open List Frame Arena Program Statement Evaluation

open Scopes (Kept)

/-! ## Visible names -/

/-- The names that lead to a function or to a module from a frame. -/
def visible (env : Environment) (s : Scopes) (frame : FrameId) : Names :=
  ⟨{name | (env.callee? s frame name).isSome}, {name | (s.module? frame name).isSome}⟩

variable {s : Scopes} {name : String} {c : Change} {id : FrameId} {f : Frame} {stmt : Statement}

lemma isSome_callee? {env : Environment} {frame : FrameId} :
    (env.callee? s frame name).isSome ↔
      (s.function? frame name).isSome ∨ (env.registry.functions.lookup name).isSome := by
  unfold Environment.callee?
  cases s.function? frame name <;> simp

/-- Names are visible by what can be found. -/
lemma visible_congr {env : Environment} {s' : Scopes} {frame frame' : FrameId}
    (hfunction : ∀ name, s'.function? frame' name = s.function? frame name)
    (hmodule : ∀ name, s'.module? frame' name = s.module? frame name) :
    visible env s' frame' = visible env s frame := by
  ext name <;> simp [visible, Environment.callee?, hfunction, hmodule]

/-- What a frame is like for those who look for definitions. -/
def Frame.outline (f : Frame) : Frame := { f with values := [], children := none }

/-- The same frames in the same places, with the same definitions. -/
def Scopes.Alike (s s' : Scopes) : Prop :=
  ∀ id, (get? s' id).map outline = (get? s id).map outline

/-- The names that a change defines. -/
def Change.names : Change → Names
  | module m => ⟨∅, {m.name}⟩
  | function f => ⟨{f.name}, ∅⟩
  | _ => ∅

/-- A change that defines nothing. -/
def Change.IsPlain : Change → Prop
  | values _ => True
  | children _ => True
  | _ => False

namespace Scopes.Alike

variable {s s' s'' : Scopes} {blocks : List FrameId} {id : FrameId}

lemma refl (s : Scopes) : s.Alike s := fun _ => rfl

lemma trans (h : s.Alike s') (h' : s'.Alike s'') : s.Alike s'' := fun id => (h' id).trans (h id)

lemma exists_get? (h : s.Alike s') {f' : Frame} (hf' : get? s' id = some f') :
    ∃ f, get? s id = some f ∧ f'.outline = f.outline := by
  have hmap := h id
  rw [hf', Option.map_some] at hmap
  obtain ⟨f, hf, heq⟩ := Option.map_eq_some_iff.mp hmap.symm
  exact ⟨f, hf, heq.symm⟩

lemma symm (h : s.Alike s') : s'.Alike s := fun id => (h id).symm

/-- Frames that keep their names keep their definitions. -/
lemma of_kept (hs : s.Sound blocks) (hs' : s'.Sound blocks) (h : Kept none s s') : s.Alike s' := by
  intro id
  cases hf : get? s id with
  | some f =>
    obtain ⟨f', hf', hsame⟩ := h.same hf
    rw [hf', Option.map_some, Option.map_some, outline, outline, hsame.parent,
      hsame.modules, hsame.functions]
  | none =>
    have hid : id ∉ blocks := fun hid => by
      have hsome := (hs.isSome_iff id).mpr hid
      rw [hf] at hsome
      exact Bool.noConfusion hsome
    have hnone : get? s' id = none :=
      Option.not_isSome_iff_eq_none.mp (mt (hs'.isSome_iff id).mp hid)
    rw [hnone]

lemma write (hc : c.IsPlain) : s.Alike (s.write id c) := by
  intro j
  rw [Scopes.get?_write]
  split
  · rename_i hj
    have happly : outline ∘ c.apply id = outline := by
      cases c <;> first | rfl | exact hc.elim
    rw [Option.map_map, happly, hj]
  · rfl

lemma visible_eq (h : s.Alike s') (hs : s.Sound blocks) (hid : id ∈ blocks) (env : Environment) :
    visible env s' id = visible env s id := by
  have hfind : ∀ {α : Type} (pick : Frame → Option α), (∀ f : Frame, pick f.outline = pick f) →
      find? s' parent pick id = find? s parent pick id :=
        fun pick hpick => by
    refine hs.nested.find?_eq hid pick fun j _ f hf => ?_
    obtain ⟨f', hf', heq⟩ := h.symm.exists_get? hf
    exact ⟨f', hf', (mk.inj heq).1.symm, by rw [← hpick, ← heq, hpick]⟩
  exact visible_congr (fun name => hfind _ fun _ => rfl) fun name => hfind _ fun _ => rfl

end Scopes.Alike

/-- To bind a name makes it known, and no other. -/
lemma isSome_lookup_bindName {α : Type} {bound : String} {a : α} {names : List (String × α)} :
    ((bindName bound a names).lookup name).isSome ↔ (names.lookup name).isSome ∨ name = bound := by
  rw [lookup_isSome_iff, lookup_isSome_iff]
  induction names with
  | nil => simp [bindName]
  | cons other rest ih =>
    obtain ⟨other, b⟩ := other
    unfold bindName
    split
    · rename_i heq
      rw [exists_mem_cons_iff, exists_mem_cons_iff, heq, beq_iff_eq]
      exact ⟨.inl, fun h => h.elim id .inl⟩
    · rw [exists_mem_cons_iff, exists_mem_cons_iff, ih, or_assoc]

lemma Change.isSome_functions_apply :
    ((c.apply id f).functions.lookup name).isSome ↔
      (f.functions.lookup name).isSome ∨ name ∈ c.names.functions := by
  cases c with
  | values | children | module => simp [Change.apply, Change.names]
  | function g => exact isSome_lookup_bindName

lemma Change.isSome_modules_apply :
    ((c.apply id f).modules.lookup name).isSome ↔ (f.modules.lookup name).isSome ∨
      name ∈ c.names.modules := by
  cases c with
  | values | children | function => simp [Change.apply, Change.names]
  | module m => exact isSome_lookup_bindName

namespace Scopes.Sound

variable {env : Environment} {s : Scopes} {blocks : List FrameId} {id frame : FrameId}
  {outer : List FrameId}

/-- From a fresh frame everything is visible that is visible from the frame around it. -/
lemma visible_enter (hs : s.Sound blocks) {parent : FrameId} (hparent : parent ∈ blocks) :
    visible env (s.enter (some parent)).2 (s.enter (some parent)).1 = visible env s parent :=
  visible_congr (fun _ => hs.find?_enter hparent rfl) fun _ => hs.find?_enter hparent rfl

lemma visible_enter_of_mem (hs : s.Sound blocks) (hid : id ∈ blocks) {parent : Option FrameId} :
    visible env (s.enter parent).2 id = visible env s id :=
  visible_congr (fun _ => hs.find?_enter_of_mem hid _) fun _ => hs.find?_enter_of_mem hid _

lemma visible_write_of_mem (hs : s.Sound (frame :: outer)) (hid : id ∈ outer) (c : Change) :
    visible env (s.write frame c) id = visible env s id :=
  visible_congr (fun _ => hs.find?_write_of_mem hid _ c) fun _ => hs.find?_write_of_mem hid _ c

/-- A definition in the innermost frame makes its name visible there. -/
lemma visible_write (hs : s.Sound (frame :: outer)) (c : Change) :
    visible env (s.write frame c) frame = visible env s frame ∪ c.names := by
  obtain ⟨f, hf⟩ := hs.exists_frame mem_cons_self
  -- what is found is found in the frame itself, or else from its parent, for which nothing changes
  have hfunction : ∀ name, (s.write frame c).function? frame name =
      ((c.apply frame f).functions.lookup name).or (f.parent.bind fun p => s.function? p name) :=
    fun name => hs.find?_write _ c hf
  have hmodule : ∀ name, (s.write frame c).module? frame name =
      ((c.apply frame f).modules.lookup name).or (f.parent.bind fun p => s.module? p name) :=
    fun name => hs.find?_write _ c hf
  have hfunction' : ∀ name, s.function? frame name =
      (f.functions.lookup name).or (f.parent.bind fun p => s.function? p name) :=
        fun name => hs.find?_step _ hf
  have hmodule' : ∀ name, s.module? frame name =
      (f.modules.lookup name).or (f.parent.bind fun p => s.module? p name) :=
        fun name => hs.find?_step _ hf
  ext name
  · show (env.callee? _ frame name).isSome ↔ (env.callee? s frame name).isSome ∨
      name ∈ c.names.functions
    rw [isSome_callee?, isSome_callee?, hfunction, hfunction', Option.isSome_or, Option.isSome_or,
      Bool.or_eq_true, Bool.or_eq_true, Change.isSome_functions_apply]
    tauto
  · show ((s.write frame c).module? frame name).isSome ↔ (s.module? frame name).isSome ∨
      name ∈ c.names.modules
    rw [hmodule, hmodule', Option.isSome_or, Option.isSome_or, Bool.or_eq_true, Bool.or_eq_true,
      Change.isSome_modules_apply]
    tauto

end Scopes.Sound

/-! ## Blocks in their places -/

/-- What is visible from a frame once the block that is run in it has made the rest of its
definitions. -/
def outlook (env : Environment) (s : Scopes) (frame : FrameId) (block : Program) (id : FrameId) :
    Names :=
  visible env s id ∪ if id = frame then block.names else ∅

/-- Every block that is run, and every block that may yet be run, has its calls of the right kind
for the names that are visible in its place. The frame of the block that is run is the innermost
one, so the definitions that it makes are visible from nowhere else. -/
structure Resolved (env : Environment) (ctx : Context) (block : Program) (s : Scopes)
    (blocks : List FrameId) : Prop where
  live : ctx.LiveIn s blocks
  top : ∃ outer, blocks = ctx.frame :: outer
  hoisted : block.Hoisted
  statements (stmt : Statement) (hstmt : stmt ∈ block) :
    stmt.Classified (outlook env s ctx.frame block ctx.frame)
  modules (id : FrameId) (f : Frame) (hf : get? s id = some f) (c : String × ModuleClosure)
    (hc : c ∈ f.modules) : Program.Classified (outlook env s ctx.frame block id) c.2.definition.body
  offers (offer : Offer) (hoffer : offer ∈ ctx.offers) :
    Program.Classified (outlook env s ctx.frame block offer.caller) offer.body

lemma Statement.isDefinition_eq_false (h : ∀ c, ¬stmt.Binds c) : stmt.isDefinition = false := by
  cases stmt with
  | defineModule => exact absurd rfl (h _)
  | defineFunction => exact absurd rfl (h _)
  | _ => rfl

lemma Statement.Binds.names_eq (h : stmt.Binds c) : c.names = stmt.names := by
  cases stmt with
  | assign =>
    obtain ⟨v, rfl⟩ := h
    rfl
  | defineModule | defineFunction =>
    cases h
    rfl
  | _ => exact h.elim

/-- The modules of a frame after a binding: those before, and the one that the statement defines. -/
lemma Statement.Binds.mem_modules (h : stmt.Binds c) {closure : String × ModuleClosure}
    (hclosure : closure ∈ (c.apply id f).modules) :
    closure ∈ f.modules ∨ ∃ pos, stmt = .defineModule pos closure.2.definition := by
  cases stmt with
  | assign =>
    obtain ⟨v, rfl⟩ := h
    exact .inl hclosure
  | defineModule pos m =>
    cases h
    rcases Scopes.mem_bindName hclosure with rfl | hclosure
    · exact .inr ⟨pos, rfl⟩
    · exact .inl hclosure
  | defineFunction =>
    cases h
    exact .inl hclosure
  | _ => exact h.elim

variable {b : Beginning}

lemma Statement.Starts.isDefinition_eq_false {ctx : Context}
    (hb : stmt.Starts ctx s b) : stmt.isDefinition = false := by
  cases hb <;> rfl

/-- Nothing is defined before the first statement of a block. -/
lemma Statement.Starts.alike {ctx : Context}
    (hb : stmt.Starts ctx s b) : (s.enter (some b.parent)).2.Alike (b.scopes s) := by
  cases hb with
  | yes | no | operator | children => exact .refl _
  | round vs => exact .write trivial
  | body hfound bound =>
    exact (Scopes.Alike.write (c := .values bound) trivial).trans (.write trivial)

namespace Resolved

variable {env : Environment} {ctx : Context} {block rest : Program} {stmt : Statement}
  {s s' : Scopes}
  {blocks : List FrameId}

lemma congr (h : Resolved env ctx block s blocks) (halike : s.Alike s')
    (hlive : ctx.LiveIn s' blocks) : Resolved env ctx block s' blocks := by
  have houtlook : ∀ id ∈ blocks, outlook env s' ctx.frame block id =
      outlook env s ctx.frame block id :=
    fun id hid => by rw [outlook, outlook, halike.visible_eq h.live.sound hid]
  refine ⟨hlive, h.top, h.hoisted, fun stmt hstmt => ?_, fun id f' hf' c hc => ?_,
    fun offer hoffer => ?_⟩
  · rw [houtlook _ h.live.frame_mem]
    exact h.statements stmt hstmt
  · obtain ⟨f, hf, heq⟩ := halike.exists_get? hf'
    rw [houtlook id (h.live.sound.mem_of_get? hf)]
    rw [(mk.inj heq).2.2.1] at hc
    exact h.modules id f hf c hc
  · rw [houtlook _ (h.live.caller_mem offer hoffer)]
    exact h.offers offer hoffer

variable (h : Resolved env ctx (stmt :: rest) s blocks)
include h

lemma skip (hstmt : ∀ c, ¬stmt.Binds c) : Resolved env ctx rest s blocks := by
  have hnames : names rest = names (stmt :: rest) := by
    rw [names_cons, names_eq_empty (isDefinition_eq_false hstmt),
      Names.empty_union]
  have houtlook : outlook env s ctx.frame rest = outlook env s ctx.frame (stmt :: rest) := by
    unfold outlook
    rw [hnames]
  refine ⟨h.live, h.top, h.hoisted.tail, fun other hother => ?_, ?_, ?_⟩ <;> rw [houtlook]
  · exact h.statements other (mem_cons_of_mem stmt hother)
  · exact h.modules
  · exact h.offers

/-- What is bound was to be expected. -/
lemma outlook_bind (hc : stmt.Binds c) (hid : id ∈ blocks) :
    outlook env (s.write ctx.frame c) ctx.frame rest id =
      outlook env s ctx.frame (stmt :: rest) id := by
  obtain ⟨outer, rfl⟩ := h.top
  unfold outlook
  rcases mem_cons.mp hid with rfl | hid
  · rw [if_pos rfl, if_pos rfl, h.live.sound.visible_write, hc.names_eq, Names.union_assoc,
      names_cons]
  · have hne : id ≠ ctx.frame := fun heq => h.live.sound.nested.2.1 (heq ▸ hid)
    rw [if_neg hne, if_neg hne, h.live.sound.visible_write_of_mem hid]

lemma bind (hc : stmt.Binds c) : Resolved env ctx rest (s.write ctx.frame c) blocks := by
  refine ⟨h.live.write _ _, h.top, h.hoisted.tail, fun other hother => ?_,
    fun id f hf closure hclosure => ?_, fun offer hoffer => ?_⟩
  · rw [h.outlook_bind hc h.live.frame_mem]
    exact h.statements other (mem_cons_of_mem stmt hother)
  · rw [h.outlook_bind hc ((h.live.sound.write c).mem_of_get? hf)]
    rw [Scopes.get?_write] at hf
    split at hf
    · -- in the own frame there may be one more module, the one that is defined
      rename_i hid
      obtain ⟨g, hg, rfl⟩ := Option.map_eq_some_iff.mp hf
      rcases hc.mem_modules hclosure with hclosure | ⟨pos, rfl⟩
      · exact h.modules id g (hid ▸ hg) closure hclosure
      · rw [hid]
        exact classified_defineModule.mp (h.statements _ mem_cons_self)
    · exact h.modules id f hf closure hclosure
  · rw [h.outlook_bind hc (h.live.caller_mem offer hoffer)]
    exact h.offers offer hoffer

/-- A statement that is no definition is run when all definitions have been made. -/
lemma outlook_eq (hstmt : stmt.isDefinition = false) (id : FrameId) :
    outlook env s ctx.frame (stmt :: rest) id = visible env s id := by
  rw [outlook, h.hoisted.names_eq_empty hstmt, ite_self, Names.union_empty]

lemma classified (hstmt : stmt.isDefinition = false) :
    stmt.Classified (visible env s ctx.frame) := by
  rw [← h.outlook_eq hstmt ctx.frame]
  exact h.statements stmt mem_cons_self

/-- A block that a statement starts has its calls of the right kind for what is visible around it,
and so have the bodies that are offered there. -/
lemma starts (hb : stmt.Starts ctx s b) :
    Program.Classified (visible env s b.parent) b.block ∧ ∀ offer ∈ b.offers (b.frame s),
      offer.caller ∈ blocks ∧ Program.Classified (visible env s offer.caller) offer.body := by
  have hclassified := h.classified hb.isDefinition_eq_false
  have hplain := h.outlook_eq hb.isDefinition_eq_false
  have hoffers : ∀ offer ∈ ctx.offers,
      offer.caller ∈ blocks ∧ Program.Classified (visible env s offer.caller) offer.body :=
        fun offer hoffer =>
    ⟨h.live.caller_mem offer hoffer, hplain _ ▸ h.offers offer hoffer⟩
  cases hb with
  | yes => exact ⟨hclassified.1, hoffers⟩
  | no => exact ⟨hclassified.2, hoffers⟩
  | round => exact ⟨hclassified, hoffers⟩
  | operator => exact ⟨hclassified.2, hoffers⟩
  | body hfound =>
    -- the body is run inside the frame that keeps the module, where it was known to be of the right
    -- kind
    obtain ⟨-, f, hf, hmem⟩ := h.live.sound.exists_of_module? h.live.frame_mem hfound
    refine ⟨hplain _ ▸ h.modules _ f hf _ hmem, fun offer hoffer => ?_⟩
    rcases mem_cons.mp hoffer with rfl | hoffer
    · exact ⟨h.live.frame_mem, hclassified.2⟩
    · exact hoffers offer hoffer
  | children heq =>
    refine ⟨(hoffers _ (heq ▸ mem_cons_self)).2, fun offer hoffer => hoffers offer ?_⟩
    exact heq ▸ mem_cons_of_mem _ hoffer

lemma start (hb : stmt.Starts ctx s b) :
    Resolved env (b.context s) b.block (b.scopes s) (b.frame s :: blocks) := by
  have hparent := hb.parent_mem h.live
  have hentered := (h.live.inside hparent).sound
  have hfresh : b.frame s ∉ blocks := hentered.nested.2.1
  have hframe : visible env (b.scopes s) (b.frame s) = visible env s b.parent :=
    (hb.alike.visible_eq hentered mem_cons_self env).trans (h.live.sound.visible_enter hparent)
  have hothers : ∀ id ∈ blocks, outlook env (b.scopes s) (b.frame s) b.block id =
      visible env s id := fun id hid => by
    have hne : id ≠ b.frame s := fun heq => hfresh (heq ▸ hid)
    rw [outlook, if_neg hne, Names.union_empty,
      hb.alike.visible_eq hentered (mem_cons_of_mem _ hid), h.live.sound.visible_enter_of_mem hid]
  obtain ⟨hblock, hoffers⟩ := h.starts hb
  refine ⟨h.live.start hb, ⟨blocks, rfl⟩, hblock.1, fun other hother => ?_,
    fun id f' hf' c hc => ?_, fun offer hoffer => ?_⟩
  · show other.Classified (outlook env (b.scopes s) (b.frame s) b.block (b.frame s))
    rw [outlook, if_pos rfl, hframe]
    exact classifiedAll_iff.mp hblock.2 other hother
  · -- the fresh frame has no modules, and the others have those that they had
    obtain ⟨f, hf, heq⟩ := hb.alike.exists_get? hf'
    rw [(mk.inj heq).2.2.1] at hc
    rw [Scopes.get?_enter h.live.sound.wellFormed] at hf
    split at hf
    · obtain rfl := Option.some.inj hf
      exact absurd hc not_mem_nil
    · show Program.Classified (outlook env (b.scopes s) (b.frame s) b.block id) c.2.definition.body
      rw [hothers id (h.live.sound.mem_of_get? hf), ← h.outlook_eq hb.isDefinition_eq_false]
      exact h.modules id f hf c hc
  · show Program.Classified (outlook env (b.scopes s) (b.frame s) b.block offer.caller) offer.body
    rw [hothers _ (hoffers offer hoffer).1]
    exact (hoffers offer hoffer).2

end Resolved

/-- A statement is run where its calls are of the right kind. -/
def Visit.Fits (env : Environment) (v : Visit) : Prop :=
  ∀ stmt, v.use = .run stmt → stmt.isDefinition = false →
    stmt.Classified (visible env v.scopes v.frame) ∧ ∃ blocks, v.scopes.Sound blocks ∧
      v.frame ∈ blocks

open Eval (SteadyIn)

lemma discipline_resolved (env : Environment) : Discipline (Visit.Fits env) (Resolved env) where
  undemanding v _ hpart stmt huse := by
    rw [huse] at hpart
    exact hpart.elim
  live h := h.live
  keep h hkept hs := h.congr (.of_kept h.live.sound hs hkept) (h.live.keep hkept hs)
  run h stmt huse hstmt := by
    cases huse
    exact ⟨h.classified hstmt, _, h.live.sound, h.live.frame_mem⟩
  bind h _ hc := h.bind hc
  skip h := h.skip
  start h _ hb := h.start hb

/-- What a program can call without having defined it. -/
lemma visible_start (env : Environment) (program : Program) :
    visible env (start env program).world.scopes (World.openBlock {} none).1 =
      Known.names { functions := env.registry.functions.map (·.1) } := by
  have hfunction : ∀ name,
      (start env program).world.scopes.function? (World.openBlock {} none).1 name =
        none := fun _ => rfl
  ext name
  · show (env.callee? _ _ name).isSome ↔ name ∈ env.registry.functions.map (·.1)
    rw [isSome_callee?, hfunction]
    simp
  · exact ⟨fun hname => absurd hname Bool.false_ne_true, fun hname => absurd hname not_mem_nil⟩

lemma resolved_start (env : Environment) {program : Program}
    (h : program.Classified (Known.names { functions := env.registry.functions.map (·.1) })) :
    Holding (Resolved env) ⟨(World.openBlock {} none).1, []⟩ program
      (start env program).world := by
  have hlive := liveIn_start env program
  refine ⟨hlive, ⟨[], rfl⟩, h.1, fun stmt hstmt => ?_, fun id f hf c hc => ?_, forall_mem_nil _⟩
  · rw [outlook, if_pos rfl, visible_start]
    exact classifiedAll_iff.mp h.2 stmt hstmt
  · rw [show get? (start env program).world.scopes id = _ from
      Scopes.get?_enter wellFormed_empty none id] at hf
    split at hf
    · obtain rfl := Option.some.inj hf
      exact absurd hc not_mem_nil
    · exact absurd (Scopes.sound_empty.mem_of_get? hf) not_mem_nil

namespace Evaluation

/-- Calls find what they were taken for. Whenever a tree gives a program without an issue, this is
true of every statement that is run on the way of its evaluation. An expression is a call of a name
that leads to no module but to a function, also when the arguments have been evaluated. An operator
without a body has a name that leads to a module, or else to no function. -/
theorem calls_resolve (env : Environment) (t : Tree) (program : Program)
    (h : ofTree (env.registry.functions.map (·.1)) t = (.ok program, #[])) (k : Nat)
    (v : Visit) (hv : ((start env program).after k).world.visits v) :
    (∀ pos value, v.use = .run (.evaluate pos value) → ∃ place name args, value =
      .call place name args ∧
        v.scopes.module? v.frame name = none ∧ (env.callee? v.scopes v.frame name).isSome ∧
        ∀ left w values w', w.scopes = v.scopes →
          Argument.evalAll (callFunction env left) v.frame args w = .ok values w' →
          (env.callee? w'.scopes v.frame name).isSome) ∧
      ∀ pos name args, v.use = .run (.invoke pos name args []) →
        (v.scopes.module? v.frame name).isSome ∨ env.callee? v.scopes v.frame name = none := by
  have hfits : v.Fits env :=
    ((discipline_resolved env).after (resolved_start env (classified_ofTree h)) k).2 v hv
  refine ⟨fun pos value huse => ?_, fun pos name args huse => ?_⟩
  · obtain ⟨⟨place, name, args, hvalue, hfunction, hmodule⟩, blocks, hsound, hframe⟩ :=
      hfits _ huse rfl
    refine ⟨place, name, args, hvalue, Option.not_isSome_iff_eq_none.mp hmodule, hfunction, ?_⟩
    -- the arguments are evaluated before the function is looked up, and leave the frames as they
    -- were
    intro left w values w' hscopes hargs
    have hclosed := SteadyIn.closedIn (SteadyIn.callFunction env left) v.frame
    have hsteady := (hclosed.arguments args w blocks (hscopes ▸ hsound) hframe).of_ok hargs
    have halike : v.scopes.Alike w'.scopes := fun id => by
      rw [hsteady.get?_eq id (Option.some_ne_none id).symm, hscopes]
    have hvisible := halike.visible_eq hsound hframe env
    show name ∈ (visible env w'.scopes v.frame).functions
    rw [hvisible]
    exact hfunction
  · obtain ⟨⟨hcalls, -⟩, -⟩ := hfits _ huse rfl
    by_cases hmodule : (v.scopes.module? v.frame name).isSome
    · exact .inl hmodule
    · exact .inr (Option.not_isSome_iff_eq_none.mp fun hfunction => hcalls rfl ⟨hfunction, hmodule⟩)

/-- An environment with everything that is built in. -/
def plainEnvironment : Environment := ⟨.standard, ⟨{}, ⟨"", []⟩⟩⟩

/-- A call without arguments, with what belongs to it. -/
def callTree (name : String) (body : Tree) : Tree :=
  .node "operator_call" "" .start [.node "ident" name .start [], .node "call_args" "" .start [],
    body]

/-- A function that is called from the body of an invocation, while the module that asks for that
body has defined a module of the same name. -/
def shadowingTree : Tree :=
  let nothing := .node "empty_stmt" "" .start []
  let inner := .node "module_def" "" .start [.node "ident" "f" .start [], nothing]
  let body := .node "block" "" .start [inner, callTree "children" nothing]
  .node "program" "" .start
    [.node "function_def" "" .start
        [.node "ident" "f" .start [], .node "expr" "" .start [.node "boolean" "true" .start []]],
      .node "module_def" "" .start [.node "ident" "m" .start [], body],
      callTree "m" (callTree "f" nothing)]

def shadowingProgram : Program :=
  [.defineFunction .start ⟨"f", [], .bool .start true⟩,
    .defineModule .start
      ⟨"m", [], [.defineModule .start ⟨"f", [], []⟩, .invoke .start "children" [] []]⟩,
    .invoke .start "m" [] [.evaluate .start (.call .start "f" [])]]

theorem calls_resolve_shadowing :
    ofTree (plainEnvironment.registry.functions.map (·.1)) shadowingTree =
      (.ok shadowingProgram, #[]) ∧
      ∃ v, ((start plainEnvironment shadowingProgram).after 1).world.visits v ∧
        v.use = .run (.evaluate .start (.call .start "f" [])) ∧
        v.scopes.module? v.frame "f" = none ∧
        (plainEnvironment.callee? v.scopes v.frame "f").isSome := by
  have htree : ofTree (plainEnvironment.registry.functions.map (·.1)) shadowingTree =
      (.ok shadowingProgram, #[]) := rfl
  have hvisits : ((start plainEnvironment shadowingProgram).after 1).world.visits
      ⟨_, _, .run (.evaluate .start (.call .start "f" []))⟩ := .inr (.inr (.inr (.inr (.inl rfl))))
  obtain ⟨place, name, args, hvalue, hmodule, hfunction, -⟩ :=
    (calls_resolve plainEnvironment shadowingTree shadowingProgram htree 1 _ hvisits).1 _ _ rfl
  cases hvalue
  exact ⟨htree, _, hvisits, rfl, hmodule, hfunction⟩

end Evaluation

end SolidScript
