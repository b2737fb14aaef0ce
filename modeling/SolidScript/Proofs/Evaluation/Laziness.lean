import SolidScript.Proofs.Evaluation.Refinement

/-!
# Lazy evaluation agrees with strict evaluation

Pulling an evaluation gives the strict outcome of the program, cut where it yields: pull number `k`
finds item number `k`, and reports what the strict run reports since the item before.
-/

namespace SolidScript

namespace Outcome

lemma splitOnP_events (log : Log) : log.events.splitOnP Event.isYield = [log.events] := by
  apply List.splitOnP_eq_singleton
  intro e he
  obtain ⟨_, _, rfl⟩ := List.mem_map.mp he
  rfl

/-- An outcome that only reports is a single answer. -/
lemma answer_zero_of_reports (log : Log) (failure : Option RuntimeError) (w : World) :
    (⟨log.events, failure, w⟩ : Outcome).answer 0 =
      (match failure with
        | some e => .failed e
        | none => .finished,
      log) := by
  have hitems : (⟨log.events, failure, w⟩ : Outcome).items = [] := Log.filterMap_geometry_events log
  unfold answer found reportsAt
  rw [hitems, splitOnP_events]
  show (_, Log.mk (log.events.filterMap Event.entry?).toArray) = _
  rw [Log.filterMap_entry_events]
  cases failure <;> rfl

/-- And nothing comes after it. -/
lemma answer_succ_of_reports (log : Log) (failure : Option RuntimeError) (w : World) (k : Nat) :
    (⟨log.events, failure, w⟩ : Outcome).answer (k + 1) = (.finished, {}) := by
  have hitems : (⟨log.events, failure, w⟩ : Outcome).items = [] := Log.filterMap_geometry_events log
  unfold answer found reportsAt
  rw [hitems, splitOnP_events]
  cases failure <;> rfl

section

variable (log : Log) (g : Geometry Float) (rest : Outcome)

lemma items_of_yield : (rest.after (log.events ++ [.yield g])).items = g :: rest.items := by
  rw [after_append_yield, items_after]
  rfl

lemma splitOnP_of_yield : (rest.after (log.events ++ [.yield g])).events.splitOnP Event.isYield =
    log.events :: rest.events.splitOnP Event.isYield := by
  show ((log.events ++ [Event.yield g]) ++ rest.events).splitOnP Event.isYield = _
  rw [List.append_assoc]
  show (log.events ++ Event.yield g :: rest.events).splitOnP Event.isYield = _
  rw [List.splitOnP_append_cons _ _ rfl, splitOnP_events]
  rfl

/-- The first answer of an outcome that yields. -/
lemma answer_zero_of_yield : (rest.after (log.events ++ [.yield g])).answer 0 = (.item g, log) := by
  unfold answer found reportsAt
  rw [items_of_yield, splitOnP_of_yield]
  show (_, Log.mk (log.events.filterMap Event.entry?).toArray) = _
  rw [Log.filterMap_entry_events]
  rfl

/-- The other answers of an outcome that yields are those of the rest. -/
lemma answer_succ_of_yield (k : Nat) :
    (rest.after (log.events ++ [.yield g])).answer (k + 1) = rest.answer k := by
  unfold answer found reportsAt
  rw [items_of_yield, splitOnP_of_yield]
  simp only [List.getElem?_cons_succ, List.length_cons, Nat.add_right_cancel_iff]
  rfl

end

end Outcome

namespace Evaluation

variable {e : Evaluation} {o : Outcome}

/-- The evaluation is still to do what an outcome says. -/
def Unfolds (e : Evaluation) (o : Outcome) : Prop := (e.rest e.world).Follows o

/-- The evaluation has nothing left to do. -/
def IsOver (e : Evaluation) : Prop := e.rest = .empty ∧ e.world.quiet = e.world

lemma IsOver.pull (h : e.IsOver) : e.pull = (.finished, {}, e) := by
  obtain ⟨w, rest⟩ := e
  obtain ⟨rfl, hquiet⟩ := h
  rw [← show w.quiet = w from hquiet]
  rfl

lemma IsOver.after (h : e.IsOver) (k : Nat) : e.after k = e := by
  induction k with
  | zero => rfl
  | succ k ih =>
    show (e.after k).pull.2.2 = e
    rw [ih, h.pull]

/-- Pulls from the first one on. -/
lemma after_succ (e : Evaluation) (k : Nat) : e.after (k + 1) = e.pull.2.2.after k := by
  induction k with
  | zero => rfl
  | succ k ih =>
    show (e.after (k + 1)).pull.2.2 = _
    rw [ih]
    rfl

/-- One pull takes the first answer from an outcome: either it was the last one, or an item comes
off. -/
lemma Unfolds.pull (h : e.Unfolds o) :
    e.answer 0 = o.answer 0 ∧
      (o.items = [] ∧ (∀ k, o.answer (k + 1) = (.finished, {})) ∧ e.pull.2.2.IsOver ∨
        ∃ g rest, o.items = g :: rest.items ∧ (∀ k, o.answer (k + 1) = rest.answer k) ∧
          e.pull.2.2.Unfolds rest) := by
  obtain ⟨w, stream⟩ := e
  unfold Unfolds at h
  unfold answer Evaluation.after Evaluation.pull Stream.pull
  dsimp only at h ⊢
  cases hr : stream w with
  | done w' =>
    rw [hr] at h
    obtain rfl := h
    refine ⟨(Outcome.answer_zero_of_reports w'.log none _).symm, .inl ⟨?_, ?_, rfl, rfl⟩⟩
    · exact Log.filterMap_geometry_events w'.log
    · exact Outcome.answer_succ_of_reports w'.log none _
  | fail e w' =>
    -- an error ends a run as its end does: there is nothing to resume
    rw [hr] at h
    obtain rfl := h
    refine ⟨(Outcome.answer_zero_of_reports w'.log (some e) _).symm, .inl ⟨?_, ?_, rfl, rfl⟩⟩
    · exact Log.filterMap_geometry_events w'.log
    · exact Outcome.answer_succ_of_reports w'.log (some e) _
  | yield g w' next =>
    rw [hr] at h
    obtain ⟨rest, rfl, hnext⟩ := h
    refine ⟨(Outcome.answer_zero_of_yield w'.log g rest).symm, .inr ⟨g, rest, ?_, ?_, hnext {}⟩⟩
    · exact Outcome.items_of_yield w'.log g rest
    · exact Outcome.answer_succ_of_yield w'.log g rest

/-- Every pull gives the answer that the outcome has for it. -/
lemma Unfolds.answer_eq (h : e.Unfolds o) (k : Nat) : e.answer k = o.answer k := by
  induction k generalizing e o with
  | zero => exact h.pull.1
  | succ k ih =>
    obtain ⟨-, ⟨-, hanswer, hover⟩ | ⟨g, rest, -, hanswer, hrest⟩⟩ := h.pull
    · -- the first answer was the last one, and pulls after that leave everything as it is
      rw [hanswer, answer, after_succ, hover.after, hover.pull]
    · rw [hanswer, ← ih hrest, answer, after_succ]
      rfl

/-- Behind the last item and the end there is nothing left to do. -/
lemma Unfolds.isOver_after (h : e.Unfolds o) {k : Nat} (hk : o.items.length < k) :
    (e.after k).IsOver := by
  induction k generalizing e o with
  | zero => exact absurd hk (Nat.not_lt_zero _)
  | succ k ih =>
    rw [after_succ]
    obtain ⟨-, ⟨-, -, hover⟩ | ⟨g, rest, hitems, -, hrest⟩⟩ := h.pull
    · rw [hover.after]
      exact hover
    · apply ih hrest
      rw [hitems, List.length_cons] at hk
      exact Nat.lt_of_succ_lt_succ hk

/-- An evaluation that has not begun is to do what the strict run of its program does, behind any
log. -/
lemma follows_start (env : Environment) (program : Program) (log : Log) :
    ((start env program).rest ((start env program).world.withLog log)).Follows
      ((Strict.program env program).after log.events) := by
  have hcall := Eval.OnlyReports.closed.callFunction env env.host.settings.maxDepth
  have henter := refines_enter env env.host.settings.maxDepth
  have hfaithful : Faithful _ _ _ _ _ := ⟨hcall, henter, refines_ask env hcall henter []⟩
  exact (hfaithful.statements (World.openBlock {} none).1 program
    ((World.openBlock {} none).2.withLog log)).atEnd
    (·.closeBlock _) (fun _ => rfl) fun _ => rfl

lemma unfolds_start (env : Environment) (program : Program) :
    (start env program).Unfolds (Strict.program env program) := follows_start env program {}

/-- Lazy evaluation agrees with strict evaluation. Nothing is reported or run before the first pull.
Pull number `k` finds what the strict run yields as number `k`, or behind the last item its error or
its end, and hands over what the strict run reports since the item before. Every later pull finds
nothing, reports nothing and leaves everything as it is. -/
theorem lazy_eq_strict (env : Environment) (program : Program) :
    let e := start env program
    let o := Strict.program env program
    (e.world.log = {} ∧ e.world.visits = fun _ => False) ∧
      (∀ k, e.answer k = o.answer k) ∧
      ∀ k, (e.after (o.items.length + 1 + k)).pull =
        (.finished, {}, e.after (o.items.length + 1 + k)) := by
  have h := unfolds_start env program
  exact ⟨⟨rfl, rfl⟩, h.answer_eq, fun k => (h.isOver_after (by omega)).pull⟩

end Evaluation

end SolidScript
