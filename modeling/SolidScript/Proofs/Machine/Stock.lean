import SolidScript.Proofs.Builtin.Built
import SolidScript.Proofs.Evaluation.Selection
import SolidScript.Proofs.Machine.Reachable
import SolidScript.Proofs.Program.Places

/-!
# What a machine may hold

Code comes from the program and from nowhere else, and geometry from operators: it is emitted,
collected, kept as the children of modules and selected from, and none of these makes new geometry.

Most errors have the place of the expression or the call that they are about. Arguments that cannot
be bound have none at first: they get that of the call, which is still waiting then.
-/

namespace SolidScript

open List Arena

/-- What a machine may hold: the places of code, operators and their plans, geometry and errors. -/
structure Stock where
  place : Position → Prop
  operator : Builtin.Operator → Prop
  plan : CallSite → Plan → Prop
  geometry : Geometry Float → Prop
  error : RuntimeError → Prop

/-- All operators may be held, and what they lead to where they are called. -/
structure Stock.Lawful (env : Environment) (S : Stock) : Prop where
  operator {name : String} {operator : Builtin.Operator}
    (h : env.registry.operators.lookup name = some operator) :
    S.operator operator
  plan {operator : Builtin.Operator} (h : S.operator operator) {site : CallSite} {args : Arguments}
    {plan : Plan}
    (hplan : (operator env.host site args).run.value = .ok plan) : S.plan site plan
  refusal {operator : Builtin.Operator} (h : S.operator operator) {site : CallSite}
    (hsite : S.place site.pos)
    {args : Arguments} {e : RuntimeError} (he : (operator env.host site args).run.value =
      .error e) : S.error e
  keeps {site : CallSite} {plan : Plan} (h : S.plan site plan) : plan.Keeps S.geometry site
  raises {site : CallSite} (hsite : S.place site.pos) {plan : Plan} (h : S.plan site plan) :
    plan.Raises S.error site
  located {pos : Position} (h : S.place pos) (cause : RuntimeError.Cause) :
    S.error ⟨cause, some pos⟩

variable {env : Environment} {S : Stock}

/-! ## Selection -/

variable {α : Type} {pos : Position} {ts : List Task}

lemma Selection.mem_of_mem_byIndices {items : List α} {a : α} {indices : List Float}
    (h : a ∈ (byIndices items pos indices).value) : a ∈ items := by
  rw [byIndices_value] at h
  obtain ⟨index, -, hchild⟩ := mem_filterMap.mp h
  unfold child? at hchild
  split at hchild
  · exact mem_of_getElem? hchild
  · cases hchild

/-- Nothing is selected but children. -/
lemma mem_of_mem_selectChildren {items : List α} {args : Arguments} {a : α}
    (h : a ∈ (selectChildren items args pos).value) : a ∈ items := by
  unfold selectChildren at h
  split at h
  · exact h
  · exact Selection.mem_of_mem_byIndices h
  · exact Selection.mem_of_mem_byIndices h
  · rw [Selection.byRange_eq] at h
    exact Selection.mem_of_mem_byIndices h
  · exact absurd h not_mem_nil

/-! ## Frames -/

/-- What a walk finds is picked from some live frame. -/
lemma Arena.exists_of_find? {F : Type} {a : Arena F} {parent : F → Option FrameId}
    {pick : F → Option α} {id : FrameId} {x : α} (h : a.find? parent pick id = some x) :
    ∃ j f, a.get? j = some f ∧ pick f = some x := by
  unfold find? at h
  -- the length of the walk does not matter
  generalize a.slots.size = fuel at h
  induction fuel generalizing id with
  | zero => cases h
  | succ fuel ih =>
    rw [findWithin] at h
    cases hf : a.get? id with
    | none =>
      rw [hf] at h
      cases h
    | some f =>
      rw [hf] at h
      dsimp only at h
      split at h
      · rename_i found hpick
        exact ⟨id, f, hf, hpick.trans h⟩
      · split at h
        · exact ih h
        · cases h

/-- What is bound is code or geometry that a machine may hold. -/
def Change.Stocked (S : Stock) : Change → Prop
  | .module m => m.Within S.place
  | .function f => f.Within S.place
  | .children (.ready gs) => ∀ g ∈ gs, S.geometry g
  | _ => True

structure Frame.Stocked (S : Stock) (f : Frame) : Prop where
  modules : ∀ c ∈ f.modules, c.2.definition.Within S.place
  functions : ∀ c ∈ f.functions, c.2.definition.Within S.place
  ready : ∀ gs, f.children = some (.ready gs) → ∀ g ∈ gs, S.geometry g

/-- Changes keep frames stocked. -/
lemma Frame.Stocked.apply {f : Frame} (h : f.Stocked S) (id : FrameId) {c : Change}
    (hc : c.Stocked S) : (c.apply id f).Stocked S := by
  obtain ⟨hmodules, hfunctions, hready⟩ := h
  cases c with
  | values => exact ⟨hmodules, hfunctions, hready⟩
  | module m =>
    refine ⟨fun b hb => ?_, hfunctions, hready⟩
    rcases Scopes.mem_bindName hb with rfl | hb
    · exact hc
    · exact hmodules b hb
  | function g =>
    refine ⟨hmodules, fun b hb => ?_, hready⟩
    rcases Scopes.mem_bindName hb with rfl | hb
    · exact hc
    · exact hfunctions b hb
  | children state =>
    refine ⟨hmodules, hfunctions, fun gs hgs => ?_⟩
    obtain rfl := Option.some.inj hgs
    exact hc

/-- All definitions and all children of modules that are kept. -/
def Scopes.Stocked (S : Stock) (s : Scopes) : Prop := ∀ id f, get? s id = some f → f.Stocked S

namespace Scopes.Stocked

variable {s : Scopes} (h : s.Stocked S) {frame : FrameId}

include h

lemma enter (hs : WellFormed s) (parent : Option FrameId) : (s.enter parent).2.Stocked S := by
  intro id f hf
  rw [get?_enter hs] at hf
  split at hf
  · cases hf
    exact ⟨forall_mem_nil _, forall_mem_nil _, fun _ hready => nomatch hready⟩
  · exact h id f hf

/-- Changes keep scopes stocked. -/
lemma write (j : FrameId) {c : Change} (hc : c.Stocked S) : (s.write j c).Stocked S := by
  intro id f hf
  rw [get?_write] at hf
  split at hf
  · obtain ⟨before, hbefore, rfl⟩ := Option.map_eq_some_iff.mp hf
    exact (h j before hbefore).apply j hc
  · exact h id f hf

/-- So does releasing. -/
lemma release (j : FrameId) : Scopes.Stocked S (release s j) := by
  intro id f hf
  rw [get?_release] at hf
  split at hf
  · cases hf
  · exact h id f hf

lemma of_children? {gs : List (Geometry Float)} (hfound : s.children? frame = some (.ready gs)) :
    ∀ g ∈ gs, S.geometry g := by
  obtain ⟨j, f, hf, hready⟩ := exists_of_find? hfound
  exact (h j f hf).ready gs hready

/-- Modules that are found are stocked. -/
lemma module? {name : String} {closure : ModuleClosure}
    (hfound : s.module? frame name = some closure) : closure.definition.Within S.place := by
  obtain ⟨id, f, hf, hlookup⟩ := exists_of_find? hfound
  exact (h id f hf).modules _ (mem_of_lookup hlookup)

/-- So are functions. -/
lemma callee? {name : String} {closure : FunctionClosure}
    (hfound : env.callee? s frame name = some (.own closure)) :
    closure.definition.Within S.place := by
  obtain ⟨id, f, hf, hlookup⟩ := exists_of_find? (function?_of_callee? hfound)
  exact (h id f hf).functions _ (mem_of_lookup hlookup)

end Scopes.Stocked

/-! ## Tasks -/

def Offer.Stocked (S : Stock) (offer : Offer) : Prop := S.place offer.site.pos ∧
    offer.body.Within S.place

def Context.Stocked (S : Stock) (ctx : Context) : Prop := ∀ offer ∈ ctx.offers, offer.Stocked S

def Call.Stocked (S : Stock) : Call → Prop
  | .function closure site => S.place site.pos ∧ closure.definition.Within S.place
  | .module ctx closure site body =>
    S.place site.pos ∧ closure.definition.Within S.place ∧ ctx.Stocked S ∧ body.Within S.place

lemma Call.Stocked.site {c : Call} (h : c.Stocked S) : S.place c.pos := by
  cases c with
  | function => exact h.1
  | module => exact h.1

lemma Call.Stocked.params {c : Call} (h : c.Stocked S) : ∀ p ∈ c.params, p.Within S.place := by
  cases c with
  | function => exact h.2.params
  | module => exact h.2.1.params

/-- All that a task holds. -/
def Task.Stocked (S : Stock) : Task → Prop
  | .expr _ e | .and _ e | .or _ e => e.Within S.place
  | .choose _ yes no => yes.Within S.place ∧ no.Within S.place
  | .call _ site _ => S.place site.pos
  | .param _ _ p _ => p.Within S.place
  | .located pos => S.place pos
  | .start c _ _ | .enter c _ => c.Stocked S
  | .block ctx body | .loop ctx _ body | .rounds ctx _ body _ _ =>
    ctx.Stocked S ∧ body.Within S.place
  | .branch ctx yes no => ctx.Stocked S ∧ yes.Within S.place ∧ no.Within S.place
  | .operate ctx site _ body operator =>
    ctx.Stocked S ∧ S.place site.pos ∧ body.Within S.place ∧ S.operator operator
  | .ask ctx _ _ => ctx.Stocked S
  | .fold site join change => S.place site.pos ∧ S.plan site (.fold join change)
  | .emit gs => ∀ g ∈ gs, S.geometry g
  | _ => True

/-- Errors without a place will get one. -/
def Task.Locates (ts : List Task) : Prop := ∃ pos, Task.located pos ∈ ts

lemma Task.Locates.append (h : Task.Locates ts) (us : List Task) : Task.Locates (us ++ ts) := by
  obtain ⟨pos, hpos⟩ := h
  exact ⟨pos, mem_append_right us hpos⟩

/-- An error may be held, or will get a place. -/
def RuntimeError.Stocked (S : Stock) (ts : List Task) (e : RuntimeError) : Prop :=
  S.error e ∨ e.pos = none ∧ Task.Locates ts

/-! ## Parameters -/

namespace Parameters

lemma map_fst_fill (params : List Param) (vs : List Value) :
    (fill params vs).map Prod.fst = params := by
  induction params generalizing vs with
  | nil => rfl
  | cons p ps ih =>
    cases vs with
    | nil => exact congrArg (p :: ·) (ih [])
    | cons v vs => exact congrArg (p :: ·) (ih vs)

lemma map_fst_assign (name : String) (value : Value) (filled : List Filled) :
    (assign name value filled).map Prod.fst = filled.map Prod.fst := by
  induction filled with
  | nil => rfl
  | cons f rest ih =>
    rw [assign]
    split
    · rfl
    · exact congrArg (f.1 :: ·) ih

lemma map_fst_keywords {callee : String} {filled filled' : List Filled}
    {named specials : List (String × Value)}
    (h : keywords callee filled named = .ok (filled', specials)) :
    filled'.map Prod.fst = filled.map Prod.fst := by
  induction named generalizing filled filled' specials with
  | nil =>
    rw [keywords] at h
    cases h
    rfl
  | cons first rest ih =>
    obtain ⟨name, value⟩ := first
    rw [keywords] at h
    split at h
    · cases h
    · rw [ih h, map_fst_assign]
    · split at h
      · cases hrest : keywords callee filled rest with
        | error e =>
          rw [hrest] at h
          cases h
        | ok prepared =>
          rw [hrest] at h
          cases h
          exact ih hrest
      · cases h

/-- Arguments are given to the parameters of the callee and to no others. -/
lemma map_fst_prepare {callee : String} {params : List Param} {args : Arguments}
    {filled : List Filled} {specials : List (String × Value)}
    (h : prepare callee params args = .ok (filled, specials)) : filled.map Prod.fst = params := by
  unfold prepare at h
  split at h
  · cases h
  · rw [map_fst_keywords h, map_fst_fill]

end Parameters

end SolidScript
