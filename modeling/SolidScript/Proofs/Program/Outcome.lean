import Mathlib.Tactic.Common
import SolidScript.Program.OfTree

/-!
# Outcomes of computations that record

A computation that records issues gives something or fails, and has recorded some issues by then.
-/

namespace SolidScript.Recording

variable {ε ε' α β : Type}

lemma map_eq_bind (g : α → β) (x : Recording ε α) : g <$> x = x >>= fun a => pure (g a) := by
  obtain ⟨result, notes⟩ := x
  cases result <;> rfl

/-- Whatever is given satisfies `Q`, a failure satisfies `E`, and every issue satisfies `I`. -/
structure Ends (I : CompileError → Prop) (E : ε → Prop) (Q : α → Prop) (x : Recording ε α) :
    Prop where
  gives : ∀ a, x.run.value = .ok a → Q a
  fails : ∀ e, x.run.value = .error e → E e
  records : ∀ e ∈ x.run.notes, I e

variable {f : α → Recording ε β}

namespace Ends

variable {I : CompileError → Prop} {E : ε → Prop} {P : α → Prop} {Q : β → Prop} {x : Recording ε α}

/-- A result as it should be. -/
lemma pure {b : β} (h : Q b) : Ends I E Q (Pure.pure b : Recording ε β) where
  gives b' hb := by
    cases hb
    exact h
  fails _ he := nomatch he
  records _ he := absurd he (Array.not_mem_empty _)

/-- One after the other. -/
lemma bind (hx : Ends I E P x) (hf : ∀ a, P a → Ends I E Q (f a)) : Ends I E Q (x >>= f) := by
  obtain ⟨result, notes⟩ := x
  cases result with
  | error e =>
    refine ⟨fun _ hb => ?_, fun e' he => ?_, fun e' he => ?_⟩
    · nomatch hb
    · cases he
      exact hx.fails e rfl
    · rcases Array.mem_append.mp he with he | he
      · exact hx.records e' he
      · exact absurd he (Array.not_mem_empty _)
  | ok a =>
    have hrest := hf a (hx.gives a rfl)
    refine ⟨hrest.gives, hrest.fails, fun e he => ?_⟩
    rcases Array.mem_append.mp he with he | he
    · exact hx.records e he
    · exact hrest.records e he

lemma map {g : α → β} (hx : Ends I E (fun a => Q (g a)) x) : Ends I E Q (g <$> x) := by
  exact hx.bind fun _ h => pure h

lemma mono {P' : α → Prop} {E' : ε → Prop} (hx : Ends I E P x) (hP : ∀ a, P a → P' a)
    (hE : ∀ e, E e → E' e) : Ends I E' P' x :=
  ⟨fun a ha => hP a (hx.gives a ha), fun e he => hE e (hx.fails e he), hx.records⟩

/-- A mistake as it should be. -/
lemma throw {e : ε} (h : E e) : Ends I E Q (MonadExcept.throw e : Recording ε β) where
  gives _ hb := nomatch hb
  fails e' he := by
    cases he
    exact h
  records _ he := absurd he (Array.not_mem_empty _)

/-- An issue as it should be. -/
lemma record {e : CompileError} (h : I e) :
    Ends I E (fun _ => True) (OfTree.record e : Recording ε Unit) where
  gives _ _ := trivial
  fails _ he := nomatch he
  records e' he := by
    rcases Array.mem_append.mp he with he | he
    · exact Array.mem_singleton.mp he ▸ h
    · exact absurd he (Array.not_mem_empty _)

/-- Mistakes under another name. -/
lemma adapt {E' : ε' → Prop} {g : ε → ε'} (hx : Ends I (fun e => E' (g e)) P x) :
    Ends I E' P (x.adapt g) := by
  obtain ⟨result, notes⟩ := x
  have hnotes : ∀ e ∈ notes ++ #[], I e := fun e he => by
    exact hx.records e he
  cases result with
  | error e =>
    refine ⟨fun _ ha => (nomatch ha), fun e' he => ?_, hnotes⟩
    cases he
    exact hx.fails e rfl
  | ok a =>
    refine ⟨fun a' ha => ?_, fun _ he => (nomatch he), hnotes⟩
    cases ha
    exact hx.gives a rfl

end Ends

/-- The computation gives this. -/
def Succeeds (x : Recording ε α) (a : α) : Prop := x.run.value = .ok a

section

variable {x : Recording ε α} {a : α} {b : β}

@[simp]
lemma succeeds_pure {a' : α} : Succeeds (pure a : Recording ε α) a' ↔ a = a' := by
  constructor
  · intro h
    cases h
    rfl
  · rintro rfl
    rfl

/-- Both succeed, one after the other. -/
@[simp]
lemma succeeds_bind : Succeeds (x >>= f) b ↔ ∃ a, Succeeds x a ∧ Succeeds (f a) b := by
  obtain ⟨result, notes⟩ := x
  cases result with
  | error e =>
    constructor
    · intro h
      nomatch h
    · rintro ⟨a, ha, -⟩
      nomatch ha
  | ok a =>
    constructor
    · exact fun h => ⟨a, rfl, h⟩
    · rintro ⟨a', ha, h⟩
      cases ha
      exact h

@[simp]
lemma succeeds_map {g : α → β} : Succeeds (g <$> x) b ↔ ∃ a, Succeeds x a ∧ g a = b := by
  simp [map_eq_bind]

/-- Names of mistakes do not matter to success. -/
@[simp]
lemma succeeds_adapt {g : ε → ε'} : Succeeds (x.adapt g) a ↔ Succeeds x a := by
  obtain ⟨result, notes⟩ := x
  cases result <;> constructor <;> intro h <;> cases h <;> rfl

end

/-- The computation gives this, and there is nothing to record. -/
def Yields (x : Recording ε α) (a : α) : Prop := x.run = ⟨.ok a, #[]⟩

section

variable {x : Recording ε α} {a : α} {b : β}

lemma yields_pure (a : α) : Yields (pure a : Recording ε α) a := rfl

lemma Yields.bind (hx : Yields x a) (hf : Yields (f a) b) : Yields (x >>= f) b := by
  cases hx
  have hrun : (f a).run = ⟨.ok b, #[]⟩ := hf
  change Noted.mk (f a).run.value (#[] ++ (f a).run.notes) = _
  rw [hrun]
  rfl

/-- Nothing is recorded on the way, either. -/
lemma Yields.of_bind (h : Yields (x >>= f) b) : ∃ a, Yields x a ∧ Yields (f a) b := by
  obtain ⟨result, notes⟩ := x
  cases result with
  | error e =>
    have hvalue : (Except.error e : Except ε β) = .ok b := congrArg Noted.value h
    cases hvalue
  | ok a =>
    have hnotes : notes ++ (f a).notes = #[] := congrArg Noted.notes h
    obtain ⟨rfl, hrest⟩ := Array.append_eq_empty_iff.mp hnotes
    exact ⟨a, rfl, congrArg₂ Noted.mk (congrArg Noted.value h) hrest⟩

lemma Yields.map {g : α → β} (hx : Yields x a) : Yields (g <$> x) (g a) := by
  cases hx
  rfl

lemma Yields.adapt {g : ε → ε'} (hx : Yields x a) : Yields (x.adapt g) a := by
  cases hx
  rfl

end

end SolidScript.Recording
