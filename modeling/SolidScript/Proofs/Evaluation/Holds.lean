import Mathlib.Tactic.Common
import SolidScript.Evaluation.Basic

/-!
# What holds all along a run

`Run.Holds I Q E` says that a run is in a state with `I` whenever it waits, in one with `Q` when it
is done, and in one with `E` when it fails, with whatever log it is resumed. There is one rule for
each way of putting runs together.
-/

namespace SolidScript

namespace Run

/-- `I` holds wherever a run waits, `Q` where it is done, and `E` where it fails. -/
def Holds (I Q : World → Prop) (E : RuntimeError → World → Prop) :
    Run World RuntimeError (Geometry Float) → Prop
  | done w => Q w
  | fail e w => E e w
  | yield _ w next => I w ∧ ∀ log, (next (w.withLog log)).Holds I Q E

namespace Holds

variable {I I' Q Q' : World → Prop} {E E' : RuntimeError → World → Prop}
  {r : Run World RuntimeError (Geometry Float)}

lemma mono (hI : ∀ w, I w → I' w) (hQ : ∀ w, Q w → Q' w) (hE : ∀ e w, E e w → E' e w)
    (h : r.Holds I Q E) : r.Holds I' Q' E' := by
  induction r with
  | done w => exact hQ w h
  | fail e w => exact hE e w h
  | yield g w next ih => exact ⟨hI w h.1, fun log => ih _ (h.2 log)⟩

lemma andThen {x : Building} (h : r.Holds I Q' E) (hx : ∀ w, Q' w → (x w).Holds I Q E) :
    (r.andThen x).Holds I Q E := by
  induction r with
  | done w => exact hx w h
  | fail e w => exact h
  | yield g w next ih => exact ⟨h.1, fun log => ih _ (h.2 log)⟩

lemma atEnd {f : World → World} (h : r.Holds I Q' E') (hQ : ∀ w, Q' w → Q (f w))
    (hE : ∀ e w, E' e w → E e (f w)) : (r.atEnd f).Holds I Q E := by
  induction r with
  | done w => exact hQ w h
  | fail e w => exact hE e w h
  | yield g w next ih => exact ⟨h.1, fun log => ih _ (h.2 log)⟩

/-- A run that is collected never waits. -/
lemma collect (h : r.Holds I Q E) (acc : Array (Geometry Float)) :
    match r.collect acc with
    | (.ok _, w) => Q w
    | (.error e, w) => E e w := by
  induction r generalizing acc with
  | done w => exact h
  | fail e w => exact h
  | yield g w next ih => exact ih w (h.2 w.log) (acc.push g)

end Holds

end Run

namespace Eval

variable {α β : Type}

/-- What holds of the result of a computation, and of the error it may fail with. -/
def Holds (x : Eval α) (w : World) (Q : α → World → Prop) (E : RuntimeError → World → Prop) :
    Prop :=
  match x w with
  | .ok a w' => Q a w'
  | .error e w' => E e w'

namespace Holds

variable {x : Eval α} {w : World} {Q Q' : α → World → Prop} {E E' : RuntimeError → World → Prop}

lemma of_ok (h : x.Holds w Q E) {a : α} {w' : World} (hx : x w = .ok a w') : Q a w' := by
  unfold Holds at h
  rwa [hx] at h

lemma of_error (h : x.Holds w Q E) {e : RuntimeError} {w' : World} (hx : x w = .error e w') :
    E e w' := by
  unfold Holds at h
  rwa [hx] at h

lemma mono (h : x.Holds w Q E) (hQ : ∀ a w', Q a w' → Q' a w') (hE : ∀ e w', E e w' → E' e w') :
    x.Holds w Q' E' := by
  unfold Holds
  cases hx : x w with
  | ok a w' => exact hQ a w' (h.of_ok hx)
  | error e w' => exact hE e w' (h.of_error hx)

lemma bind {f : α → Eval β} {R : β → World → Prop} (h : x.Holds w Q E)
    (hf : ∀ a w', Q a w' → (f a).Holds w' R E) : (x >>= f).Holds w R E := by
  show match EStateM.bind x f w with | .ok a w' => R a w' | .error e w' => E e w'
  unfold EStateM.bind
  cases hx : x w with
  | ok a w' => exact hf a w' (h.of_ok hx)
  | error e w' => exact h.of_error hx

/-- Errors without a place are given one. -/
lemma orAt {pos : Position} (h : x.Holds w Q fun e => E (e.orAt pos)) :
    (x.orAt pos).Holds w Q E := by
  unfold Holds Eval.orAt
  cases hx : x w with
  | ok a w' => exact h.of_ok hx
  | error e w' => exact h.of_error hx

/-- A computation inside a call, which is over in the end. -/
lemma inCall {name : String}
    (h : x.Holds (w.openCall name) (fun a w' => Q a w'.closeCall) fun e w' => E e w'.closeCall) :
    (Eval.inCall name x).Holds w Q E := by
  unfold Holds Eval.inCall
  cases hx : x (w.openCall name) with
  | ok a w' => exact h.of_ok hx
  | error e w' => exact h.of_error hx

/-- A computation in a frame of its own, which is gone in the end. -/
lemma inBlock {parent : FrameId} {x : FrameId → Eval α}
    (h : (x (w.openInside parent).1).Holds (w.openInside parent).2
      (fun a w' => Q a (w'.closeBlock (w.openInside parent).1)) fun e w' =>
      E e (w'.closeBlock (w.openInside parent).1)) : (Eval.inBlock parent x).Holds w Q E := by
  unfold Holds Eval.inBlock
  dsimp only
  cases hx : x (w.openInside parent).1 (w.openInside parent).2 with
  | ok a w' => exact h.of_ok hx
  | error e w' => exact h.of_error hx

/-- Building with the result of a computation. -/
lemma build {f : α → Building} {I R : World → Prop} (h : x.Holds w Q E)
    (hf : ∀ a w', Q a w' → (f a w').Holds I R E) : (Eval.build x f w).Holds I R E := by
  unfold Eval.build
  cases hx : x w with
  | ok a w' => exact hf a w' (h.of_ok hx)
  | error e w' => exact h.of_error hx

lemma collect {x : Building} {I R : World → Prop} (h : (x w).Holds I R E) :
    (Eval.collect x).Holds w (fun _ => R) E := by
  have hcollect := Run.Holds.collect h #[]
  unfold Holds Eval.collect Stream.drain Run.drain
  split at hcollect <;> simp_all

end Holds

end Eval

/-- What holds all along the run of an evaluation holds after every number of pulls. -/
lemma Evaluation.holds_after {I : World → Prop} (hlog : ∀ w log, I w → I (w.withLog log))
    {e : Evaluation} (hworld : I e.world) (hrest : (e.rest e.world).Holds I I fun _ => I)
    (k : Nat) :
    I (e.after k).world ∧ ((e.after k).rest (e.after k).world).Holds I I fun _ => I := by
  induction k with
  | zero => exact ⟨hworld, hrest⟩
  | succ k ih =>
    obtain ⟨-, hrun⟩ := ih
    show I (e.after k).pull.2.2.world ∧ ((e.after k).pull.2.2.rest (e.after k).pull.2.2.world).Holds
      I I fun _ => I
    unfold Evaluation.pull Stream.pull
    cases hr : (e.after k).rest (e.after k).world with
    | done w =>
      rw [hr] at hrun
      exact ⟨hlog w {} hrun, hlog w {} hrun⟩
    | fail _ w =>
      rw [hr] at hrun
      exact ⟨hlog w {} hrun, hlog w {} hrun⟩
    | yield _ w next =>
      rw [hr] at hrun
      exact ⟨hlog w {} hrun.1, hrun.2 {}⟩

end SolidScript
