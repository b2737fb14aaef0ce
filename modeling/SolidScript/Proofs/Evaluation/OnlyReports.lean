import SolidScript.Proofs.Evaluation.Computation
import SolidScript.Proofs.Evaluation.Strict

/-!
# Computations only report

A computation never looks at what has been reported. From a state with a log it does the same as
from the state with an empty one, and what it reports itself stands behind what was there.
-/

namespace SolidScript

open EStateM.Result

namespace Log

@[simp] lemma append_empty (log : Log) : log ++ ({} : Log) = log := by
  show Log.mk (log.entries ++ #[]) = log
  rw [Array.append_empty]

lemma append_assoc (a b c : Log) : a ++ b ++ c = a ++ (b ++ c) := by
  show Log.mk (a.entries ++ b.entries ++ c.entries) = Log.mk (a.entries ++ (b.entries ++ c.entries))
  rw [Array.append_assoc]

@[simp] lemma empty_append (log : Log) : ({} : Log) ++ log = log := by
  show Log.mk (#[] ++ log.entries) = log
  rw [Array.empty_append]

/-- A message goes behind the others. -/
lemma emit_eq_append (log : Log) (level : Level) (message : String) :
    log.emit level message = log ++ ({} : Log).emit level message := by
  show Log.mk (log.entries.push _) = Log.mk (log.entries ++ #[].push _)
  rfl

end Log

namespace World

/-- The state with something reported before. -/
def behind (log : Log) (w : World) : World := w.withLog (log ++ w.log)

/-- What was reported can be put back. -/
@[simp] lemma behind_quiet (w : World) : w.quiet.behind w.log = w := by
  show { w with log := w.log ++ {} } = w
  rw [Log.append_empty]

lemma behind_behind (a b : Log) (w : World) : (w.behind b).behind a = w.behind (a ++ b) := by
  show { w with log := a ++ (b ++ w.log) } = { w with log := a ++ b ++ w.log }
  rw [Log.append_assoc]

/-- Calls do not look at the log. -/
lemma openCall_quiet (w : World) (name : String) :
    w.quiet.openCall name = (w.openCall name).quiet := rfl

/-- Nor do blocks. -/
lemma openInside_quiet (w : World) (parent : FrameId) :
    w.quiet.openInside parent = ((w.openInside parent).1, (w.openInside parent).2.quiet) := rfl

end World

namespace Eval

variable {α β : Type}

/-- The same result, with something reported before. -/
def behind (log : Log) : EStateM.Result RuntimeError World α → EStateM.Result RuntimeError World α
  | .ok a w => .ok a (w.behind log)
  | .error e w => .error e (w.behind log)

lemma behind_behind (a b : Log) (r : EStateM.Result RuntimeError World α) :
    behind a (behind b r) = behind (a ++ b) r := by
  cases r with
  | ok x w => exact congrArg (ok x) (World.behind_behind a b w)
  | error e w => exact congrArg (error e) (World.behind_behind a b w)

/-- What was reported before a computation makes no difference to it. -/
def OnlyReports (α : Type) (x : Eval α) : Prop := ∀ w, x w = behind w.log (x w.quiet)

namespace OnlyReports

/-- A change of the state that leaves the log alone. -/
lemma ofChange (x : World → α) (f : World → World) (hx : ∀ w, x w.quiet = x w)
    (hf : ∀ w, f w = (f w.quiet).behind w.log) : OnlyReports α fun w => .ok (x w) (f w) := by
  intro w
  show ok (x w) (f w) = .ok (x w.quiet) ((f w.quiet).behind w.log)
  rw [hx w, ← hf w]

lemma pure (a : α) : OnlyReports α (Pure.pure a) :=
  ofChange (fun _ => a) id (fun _ => rfl) fun w => (World.behind_quiet w).symm

lemma throw (e : RuntimeError) : OnlyReports α (MonadExcept.throw e) := by
  intro w
  exact congrArg (error e) (World.behind_quiet w).symm

/-- The second part does not see what the first one reports. -/
lemma bind {x : Eval α} {f : α → Eval β} (hx : OnlyReports α x) (hf : ∀ a, OnlyReports β (f a)) :
    OnlyReports β (x >>= f) := by
  intro w
  show EStateM.bind x f w = behind w.log (EStateM.bind x f w.quiet)
  unfold EStateM.bind
  rw [hx w]
  cases x w.quiet with
  | error e s => rfl
  | ok a s =>
    show f a (s.behind w.log) = behind w.log (f a s)
    rw [hf a s, hf a (s.behind w.log), behind_behind]
    rfl

lemma warn (detail : String) (pos : Position) : OnlyReports Unit (Eval.warn detail pos) := by
  refine ofChange (fun _ => ()) (·.warn detail pos) (fun _ => rfl) fun w => ?_
  show { w with log := w.log.emit .warning _ } =
    { w with log := w.log ++ ({} : Log).emit .warning _ }
  rw [← Log.emit_eq_append]

lemma lookUp (frame : FrameId) (find? : Scopes → FrameId → Option α) :
    OnlyReports (Option α) (Eval.lookUp frame find?) :=
  ofChange _ (·.visit frame .lookUp) (fun _ => rfl) fun w =>
    (World.behind_quiet (w.visit frame .lookUp)).symm

lemma write (frame : FrameId) (c : Change) : OnlyReports Unit (Eval.write frame c) :=
  ofChange (fun _ => ()) (·.write frame c) (fun _ => rfl) fun w =>
    (World.behind_quiet (w.write frame c)).symm

/-- Reports are put behind what was reported before. -/
lemma reporting (x : Reporting α) : OnlyReports α (Eval.reporting x) := by
  refine ofChange (fun _ => x.value) (fun w => { w with log := w.log ++ ⟨x.notes⟩ }) (fun _ => rfl)
    fun w => ?_
  show { w with log := w.log ++ Log.mk x.notes } =
    { w with log := w.log ++ (({} : Log) ++ Log.mk x.notes) }
  rw [Log.empty_append]

lemma checking (x : Check α) : OnlyReports α (Eval.checking x) := by
  intro w
  have hlog : w.log ++ (({} : Log) ++ ⟨x.run.notes⟩) = w.log ++ ⟨x.run.notes⟩ := by
    rw [Log.empty_append]
  unfold Eval.checking
  cases x.run.value with
  | ok a => exact congrArg (fun log => ok a { w with log }) hlog.symm
  | error e => exact congrArg (fun log => error e { w with log }) hlog.symm

/-- Places of errors have nothing to do with the log. -/
lemma orAt {x : Eval α} (hx : OnlyReports α x) (pos : Position) : OnlyReports α (x.orAt pos) := by
  intro w
  unfold Eval.orAt
  rw [hx w]
  cases x w.quiet <;> rfl

lemma inCall {x : Eval α} (name : String) (hx : OnlyReports α x) :
    OnlyReports α (Eval.inCall name x) := by
  intro w
  unfold Eval.inCall
  rw [hx (w.openCall name), World.openCall_quiet]
  cases x (w.openCall name).quiet <;> rfl

/-- Neither have frames. -/
lemma inBlock {parent : FrameId} {x : FrameId → Eval α} (hx : ∀ id, OnlyReports α (x id)) :
    OnlyReports α (Eval.inBlock parent x) := by
  intro w
  unfold Eval.inBlock
  dsimp only
  rw [hx _ (w.openInside parent).2, World.openInside_quiet]
  cases x (w.openInside parent).1 (w.openInside parent).2.quiet <;> rfl

/-- So no expression looks at the log. -/
lemma closed : ClosedUnderCalls (fun _ => True) OnlyReports where
  pure := pure
  throw e _ := throw e
  bind := bind
  warn := warn
  lookUp := lookUp
  reporting := reporting
  orAt := orAt
  inCall := inCall
  inBlock _ c _ hx := inBlock fun id => bind (write id c) fun _ => hx id
  ofExpression _ := trivial

end OnlyReports

end Eval

end SolidScript
