import SolidScript.Proofs.Evaluation.Laziness
import SolidScript.Proofs.Machine.Building

/-!
# Evaluations come to an end

A pull of the machine takes finitely many steps, whatever the program does: it finds what the
evaluation finds, and reports the same. After finitely many items there is an end or an error, and
nothing behind that.
-/

namespace SolidScript

open Machine (StepsTo running failing)

namespace Machine

/-- A machine that runs a program, after a number of pulls. -/
inductive After (env : Environment) (program : Program) : Nat → Machine → Prop where
  | start : After env program 0 (.start program)
  | pull {k n : Nat} {m m' : Machine} {found : Stream.Pulled RuntimeError (Geometry Float)}
    {log : Log}
    (h : After env program k m) (hpull : m.pull env n = some (found, log, m')) :
    After env program (k + 1) m'

/-- The machine has the rest of an evaluation before it. -/
def Represents (env : Environment) (m : Machine) (e : Evaluation) : Prop :=
  m.world = e.world ∧ ∃ d, (e.rest e.world).Traced env [] [] d [] m

variable {env : Environment} {m m' : Machine}

variable {n : Nat} {r : Stream.Pulled RuntimeError (Geometry Float) × Log × Machine}

/-- A pull goes on with every step. -/
lemma pull_of_steps (hsteps : StepsTo env m m') (h : m'.pull env n = some r) :
    ∃ n, m.pull env n = some r := by
  induction hsteps using Relation.ReflTransGen.head_induction_on with
  | refl => exact ⟨n, h⟩
  | head hstep _ ih =>
    obtain ⟨n, hn⟩ := ih
    refine ⟨n + 1, ?_⟩
    rw [Machine.pull, hstep]
    exact hn

/-- More steps than a pull needs make no difference. -/
lemma pull_mono (h : m.pull env n = some r) (k : Nat) : m.pull env (n + k) = some r := by
  induction n generalizing m with
  | zero => exact absurd h (Option.some_ne_none r).symm
  | succ n ih =>
    rw [Nat.succ_add]
    rw [Machine.pull] at h ⊢
    revert h
    cases m.move env with
    | step m' => exact ih
    | item g m' | failed e m' | finished m' => exact id

/-- So a pull has one result only. -/
lemma pull_unique {n' : Nat} {r' : Stream.Pulled RuntimeError (Geometry Float) × Log × Machine}
    (h : m.pull env n = some r) (h' : m.pull env n' = some r') : r = r' := by
  have hr := pull_mono h n'
  have hr' := pull_mono h' n
  rw [Nat.add_comm, hr] at hr'
  exact Option.some.inj hr'

namespace Represents

variable {e : Evaluation}

/-- A pull of the machine comes to an end, and gives what the pull of the evaluation gives. -/
lemma pull (h : m.Represents env e) :
    ∃ n m', m.pull env n = some (e.pull.1, e.pull.2.1, m') ∧ m'.Represents env e.pull.2.2 := by
  obtain ⟨hworld, d, htraced⟩ := h
  unfold Evaluation.pull Stream.pull
  cases hr : e.rest e.world with
  | done w =>
    rw [hr] at htraced
    obtain ⟨hdepth, hsteps⟩ := htraced
    have hend : (running w [] [] []).pull env 1 =
        some (.finished, w.log, (running w [] [] []).withLog {}) := rfl
    obtain ⟨n, hn⟩ := pull_of_steps hsteps hend
    exact ⟨n, _, hn, rfl, d, hdepth, .refl⟩
  | fail err w =>
    rw [hr] at htraced
    have hend : (failing w [] err).pull env 1 =
        some (.failed err, w.log, (running w [] [] []).withLog {}) := rfl
    obtain ⟨n, hn⟩ := pull_of_steps htraced hend
    exact ⟨n, _, hn, rfl, w.depth, rfl, .refl⟩
  | yield g w next =>
    rw [hr] at htraced
    obtain ⟨m₁, m₂, hsteps, hitem, rfl, hnext⟩ := htraced
    have hend : m₁.pull env 1 = some (.item g, m₂.world.log, m₂.withLog {}) := by
      rw [Machine.pull, hitem]
    obtain ⟨n, hn⟩ := pull_of_steps hsteps hend
    exact ⟨n, _, hn, rfl, d, hnext {}⟩

end Represents

/-- A machine that has not begun has the whole evaluation before it. -/
lemma represents_start (env : Environment) (program : Program) :
    (start program).Represents env (Evaluation.start env program) :=
  ⟨rfl, 0, traced_start env program []⟩

/-- After any number of pulls the machine has the rest of the evaluation before it. -/
lemma After.represents {program : Program} {k : Nat} (h : After env program k m) :
    m.Represents env ((Evaluation.start env program).after k) := by
  induction h with
  | start => exact represents_start env program
  | pull _ hpull ih =>
    -- however many steps were granted, the pull led to the machine that is known to represent the
    -- rest
    obtain ⟨n, m', hn, hm'⟩ := ih.pull
    have heq := pull_unique hpull hn
    cases heq
    exact hm'

lemma exists_after (env : Environment) (program : Program) (k : Nat) :
    ∃ m, After env program k m := by
  induction k with
  | zero => exact ⟨_, .start⟩
  | succ k ih =>
    obtain ⟨m, hm⟩ := ih
    obtain ⟨n, m', hn, -⟩ := hm.represents.pull
    exact ⟨m', hm.pull hn⟩

end Machine

namespace Outcome

lemma found_of_lt {o : Outcome} {k : Nat} (hk : k < o.items.length) : ∃ g, o.found k = .item g := by
  unfold found
  rw [List.getElem?_eq_getElem hk]
  exact ⟨_, rfl⟩

lemma found_ne_item {o : Outcome} {k : Nat} (hk : o.items.length ≤ k) (g : Geometry Float) :
    o.found k ≠ .item g := by
  unfold found
  rw [List.getElem?_eq_none hk]
  dsimp only
  split
  · split <;> nofun
  · nofun

/-- Behind the last item there is the end or an error. -/
lemma found_length (o : Outcome) :
    o.found o.items.length = .finished ∨ ∃ e, o.found o.items.length = .failed e := by
  unfold found
  rw [List.getElem?_eq_none (Nat.le_refl _)]
  cases o.failure with
  | none => exact .inl rfl
  | some e => exact .inr ⟨e, if_pos rfl⟩

end Outcome

namespace Evaluation

/-- Every evaluation comes to an end. Whatever the program, the registry and the limit for calls,
every pull finds what it finds after finitely many steps of the machine. The first pulls find items,
then comes one that finds the end or the one error, and all later ones find and report nothing. -/
theorem terminates (env : Environment) (program : Program) :
    let e := start env program
    (∀ k, ∃ m, Machine.After env program k m) ∧
      (∀ k m, Machine.After env program k m →
        ∃ steps m', m.pull env steps = some ((e.answer k).1, (e.answer k).2, m')) ∧
      ∃ n, (∀ k < n, ∃ g, (e.answer k).1 = .item g) ∧
        ((e.answer n).1 = .finished ∨ ∃ err, (e.answer n).1 = .failed err) ∧
        ∀ k > n, e.answer k = (.finished, {}) := by
  have hunfolds := unfolds_start env program
  refine ⟨Machine.exists_after env program, fun k m hm => ?_,
    (Strict.program env program).items.length, ?_, ?_, ?_⟩
  · obtain ⟨steps, m', hpull, -⟩ := hm.represents.pull
    exact ⟨steps, m', hpull⟩
  · intro k hk
    rw [hunfolds.answer_eq]
    exact Outcome.found_of_lt hk
  · rw [hunfolds.answer_eq]
    exact Outcome.found_length _
  · intro k hk
    rw [answer, (hunfolds.isOver_after hk).pull]

/-- A module that invokes itself, where two calls may be in progress. -/
def endlessProgram : Program :=
  [.defineModule .start ⟨"m", [], [.invoke .start "m" [] []]⟩, .invoke .start "m" [] []]

/-- An environment with nothing built in, where two calls may be in progress. -/
def narrowEnvironment : Environment := ⟨{}, ⟨{ maxDepth := 2 }, ⟨"", []⟩⟩⟩

/-- The module that invokes itself gets as far as the limit. -/
theorem terminates_endless :
    ∃ steps m', (Machine.start endlessProgram).pull narrowEnvironment steps =
    some (.failed ⟨.recursionLimit "m" 2, some .start⟩, {}, m') :=
  (terminates narrowEnvironment endlessProgram).2.1 0 _ .start

end Evaluation

end SolidScript
