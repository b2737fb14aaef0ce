import SolidScript.Evaluation.Session
import SolidScript.Proofs.Evaluation.Laziness
import SolidScript.Proofs.Evaluation.Scoping

/-!
# Programs of a session do not interfere

Programs of one session share the sink that they report to, and nothing else. What a program finds
and reports is the same as if it were alone, whatever was pulled in between and whatever the sink
holds.
-/

namespace SolidScript

open List

namespace Outcome

/-- What was reported before stands in front of the first reports. -/
lemma splitOnP_append_events (log : Log) (es : List Event) :
    (log.events ++ es).splitOnP Event.isYield =
      (es.splitOnP Event.isYield).modifyHead (log.events ++ ·) := by
  unfold Log.events
  induction log.entries.toList with
  | nil => exact (congrFun modifyHead_id _).symm
  | cons entry entries ih =>
    have hreport : ¬(Event.report entry).isYield = true := Bool.false_ne_true
    rw [map_cons, cons_append, splitOnP_cons_eq_if_modifyHead, if_neg hreport, ih,
      modifyHead_modifyHead]
    rfl

/-- The first answer of an outcome before which something was reported. -/
lemma answer_after_zero (log : Log) (o : Outcome) :
    (o.after log.events).answer 0 = ((o.answer 0).1, log ++ (o.answer 0).2) := by
  have hreports : (o.after log.events).reportsAt 0 = log.entries.toList ++ o.reportsAt 0 := by
    unfold reportsAt
    rw [show (o.after log.events).events = log.events ++ o.events from rfl, splitOnP_append_events]
    obtain ⟨first, others, hsplit⟩ := exists_cons_of_ne_nil (splitOnP_ne_nil Event.isYield o.events)
    rw [hsplit, ← Log.filterMap_entry_events, ← filterMap_append]
    rfl
  have hlog : Log.mk (log.entries.toList ++ o.reportsAt 0).toArray = log ++
      ⟨(o.reportsAt 0).toArray⟩ :=
    congrArg Log.mk (by rw [← append_toArray, Array.toArray_toList])
  unfold answer found
  rw [items_after, hreports, hlog]
  rfl

/-- The answers from the second on do not see it. -/
lemma answer_after_succ (log : Log) (o : Outcome) (k : Nat) :
    (o.after log.events).answer (k + 1) = o.answer (k + 1) := by
  have hreports : (o.after log.events).reportsAt (k + 1) = o.reportsAt (k + 1) := by
    unfold reportsAt
    rw [show (o.after log.events).events = log.events ++ o.events from rfl, splitOnP_append_events,
      getD_eq_getElem?_getD, getElem?_modifyHead_succ, ← getD_eq_getElem?_getD]
  unfold answer found
  rw [items_after, hreports]
  rfl

end Outcome

namespace Evaluation

/-- The answers of all pulls: what is found, and what is reported. -/
abbrev Answers : Type := Nat → Stream.Pulled RuntimeError (Geometry Float) × Log

variable {e : Evaluation} {answers : Answers}

/-- The evaluation is still to give some answers, behind any log: it is to do what an outcome with
these answers says, or nothing. -/
def Owes (e : Evaluation) (answers : Answers) : Prop :=
  (∃ o : Outcome, (∀ log, (e.rest (e.world.withLog log)).Follows (o.after log.events)) ∧
    o.answer = answers) ∨
    e.rest = .empty ∧ answers = fun _ => (.finished, {})

lemma owes_start (env : Environment) (program : Program) :
    (start env program).Owes (start env program).answer :=
  .inl ⟨Strict.program env program, follows_start env program,
    funext fun k => ((unfolds_start env program).answer_eq k).symm⟩

/-- One pull gives the first answer, with its reports behind the log that the evaluation is given.
The other answers are still to come. -/
lemma Owes.pull (h : e.Owes answers) (log : Log) :
    let pulled := e.rest.pull (e.world.withLog log)
    (pulled.1, pulled.2.1.log) = ((answers 0).1, log ++ (answers 0).2) ∧
      (⟨pulled.2.1, pulled.2.2⟩ : Evaluation).Owes fun k => answers (k + 1) := by
  obtain ⟨o, hfollows, rfl⟩ | ⟨hover, rfl⟩ := h
  · have hrun : Unfolds ⟨e.world.withLog log, e.rest⟩ (o.after log.events) := hfollows log
    refine ⟨hrun.pull.1.trans (o.answer_after_zero log), ?_⟩
    unfold Unfolds at hrun
    simp only [← o.answer_after_succ log]
    unfold Stream.pull
    cases hr : e.rest (e.world.withLog log) with
    | done w =>
      rw [hr] at hrun
      rw [show o.after log.events = _ from hrun]
      exact .inr ⟨rfl, funext (Outcome.answer_succ_of_reports w.log none _)⟩
    | fail error w =>
      rw [hr] at hrun
      rw [show o.after log.events = _ from hrun]
      exact .inr ⟨rfl, funext (Outcome.answer_succ_of_reports w.log (some error) _)⟩
    | yield g w next =>
      rw [hr] at hrun
      obtain ⟨rest, hrest, hnext⟩ := hrun
      rw [hrest]
      exact .inl ⟨rest, hnext, (funext (Outcome.answer_succ_of_yield w.log g rest)).symm⟩
  · rw [hover]
    exact ⟨congrArg (Prod.mk _) log.append_empty.symm, .inr ⟨rfl, rfl⟩⟩

end Evaluation

namespace Session

variable {s : Session} {i j : Nat} {answers : Evaluation.Answers}

/-- A program of the session is still to give some answers. -/
def Owes (s : Session) (j : Nat) (answers : Evaluation.Answers) : Prop :=
  ∃ e, s.streams[j]? = some e ∧ e.Owes answers

lemma owes_start {programs : List Program} {program : Program} (env : Environment)
    (h : programs[j]? = some program) :
    (start env programs).Owes j (Evaluation.start env program).answer := by
  refine ⟨Evaluation.start env program, ?_, Evaluation.owes_start env program⟩
  show (programs.map (Evaluation.start env)).toArray[j]? = _
  rw [getElem?_toArray, getElem?_map, h]
  rfl

/-- A pull of the program gives the first answer. -/
lemma Owes.pull (h : s.Owes j answers) :
    (s.pull j).1 = some (answers 0).1 ∧ (s.pull j).2.sink = s.sink ++ (answers 0).2 ∧
      (s.pull j).2.Owes j fun k => answers (k + 1) := by
  obtain ⟨e, he, howes⟩ := h
  obtain ⟨hanswer, hrest⟩ := howes.pull s.sink
  obtain ⟨hfound, hlog⟩ := Prod.mk.inj hanswer
  have hj : j < s.streams.size := (Array.getElem?_eq_some_iff.mp he).1
  unfold Session.pull
  rw [he]
  refine ⟨congrArg some hfound, hlog, _, ?_, hrest⟩
  rw [Array.getElem?_setIfInBounds_self_of_lt hj]

/-- Any other step leaves all its answers to come. -/
lemma Owes.step (h : s.Owes j answers) {step : Step} (hstep : step ≠ .pull j) :
    (s.step step).Owes j answers := by
  obtain ⟨e, he, howes⟩ := h
  cases step with
  | clear => exact ⟨e, he, howes⟩
  | pull i =>
    have hij : i ≠ j := fun heq => hstep (congrArg Step.pull heq)
    show (s.pull i).2.Owes j answers
    unfold Session.pull
    cases s.streams[i]? with
    | none => exact ⟨e, he, howes⟩
    | some other => exact ⟨e, (Array.getElem?_setIfInBounds_ne hij).trans he, howes⟩

/-- What a program is to give after any steps: as many answers are gone as there were pulls of
it. -/
lemma Owes.after (h : s.Owes j answers) (steps : List Step) :
    (s.after steps).Owes j fun k => answers (k + steps.count (.pull j)) := by
  induction steps generalizing s answers with
  | nil => exact h
  | cons step steps ih =>
    by_cases hstep : step = .pull j
    · subst hstep
      rw [count_cons_self]
      exact ih h.pull.2.2
    · rw [count_cons_of_ne hstep]
      exact ih (h.step hstep)

/-- Programs of a session do not interfere. Whatever was done to the session before, in whichever
order the programs were pulled and whenever the sink was emptied, the next pull of a program finds
what the program alone finds at its pull of that number, and puts behind what is in the sink just
what the program alone reports there. -/
theorem pull_after (env : Environment) (programs : List Program) (steps : List Step) {j : Nat}
    {program : Program} (h : programs[j]? = some program) :
    let s := (start env programs).after steps
    let alone := (Evaluation.start env program).answer (steps.count (.pull j))
    (s.pull j).1 = some alone.1 ∧ (s.pull j).2.sink = s.sink ++ alone.2 := by
  obtain ⟨hfound, hsink, -⟩ := ((owes_start env h).after steps).pull
  rw [Nat.zero_add] at hfound hsink
  exact ⟨hfound, hsink⟩

/-- A program that reports a warning. -/
def warningProgram : Program := [.evaluate .start (.negate .start (.bool .start true))]

/-- The second of two programs is pulled behind the first one. Its warning stands behind the
other. -/
theorem pull_after_warning :
    let s := (start Evaluation.bareEnvironment [warningProgram, warningProgram]).after [.pull 0]
    s.sink.entries.size = 1 ∧ (s.pull 1).1 = some .finished ∧
      (s.pull 1).2.sink.entries.size = 2 := by
  have halone : (Evaluation.start Evaluation.bareEnvironment warningProgram).answer 0 =
      (.finished, ⟨#[_]⟩) := rfl
  obtain ⟨hfound, hsink⟩ :=
    pull_after Evaluation.bareEnvironment [warningProgram, warningProgram] [.pull 0]
      (show [_, _][1]? = some _ from rfl)
  rw [show [Step.pull 0].count (.pull 1) = 0 from rfl, halone] at hfound hsink
  exact ⟨rfl, hfound, by rw [hsink]; rfl⟩

end Session

end SolidScript
