import SolidScript.Proofs.Machine.Reachable

/-!
# Frames and calls are accounted for

A machine has a live frame for each block that it is to leave and for nothing else, and its counter
says how many calls it is to end. Between pulls no expression is being evaluated, so all of these
are modules.
-/

namespace SolidScript

open Machine

/-- Frames that nest are different ones. -/
lemma Scopes.Nested.nodup {s : Scopes} {blocks : List FrameId} (h : s.Nested blocks) :
    blocks.Nodup := by
  induction blocks with
  | nil => exact List.nodup_nil
  | cons id outer ih => exact List.nodup_cons.mpr ⟨h.2.1, ih h.2.2⟩

/-- Whether the block that a task is to end is the body of a module. -/
def Task.endsModule : Task → Bool
  | .leave _ (some (.module _ _ _ _)) => true
  | _ => false

/-- While statements are waiting, the calls in progress are those of modules. -/
lemma Task.calls_eq_of_waiting {ts : List Task} (h : ∀ t ∈ ts, t.IsWaiting) :
    calls ts = ts.countP endsModule := by
  refine List.countP_congr fun t ht => ?_
  have hwaiting := h t ht
  cases t with
  | leave frame c =>
    cases c with
    | none => rfl
    | some c =>
      cases c with
      | function closure site => exact absurd hwaiting id
      | module ctx closure site body => rfl
  | start c names specials => exact absurd hwaiting id
  | _ => rfl

/-- Behind the last item no item is found any more. -/
lemma Evaluation.answer_ne_item {env : Environment} {program : Program} {k : Nat}
    (hk : ∀ g, ((start env program).answer k).1 ≠ .item g) {j : Nat} (hj : k ≤ j)
    (g : Geometry Float) : ((start env program).answer j).1 ≠ .item g := by
  rw [(unfolds_start env program).answer_eq] at hk ⊢
  have hlength : (Strict.program env program).items.length ≤ k := by
    by_contra hlt
    obtain ⟨g, hg⟩ := Outcome.found_of_lt (Nat.lt_of_not_le hlt)
    exact hk g hg
  exact Outcome.found_ne_item (hlength.trans hj) g

namespace Machine

variable {env : Environment} {program : Program} {m : Machine}

/-- Behind the last item there is nothing left to do. -/
lemma After.tasks_eq_nil {k : Nat} (hk : ∀ g, ((Evaluation.start env program).answer k).1 ≠ .item g)
    {j : Nat} (hj : k < j) (h : After env program j m) : m.tasks = [] := by
  cases h with
  | start => exact absurd hj (Nat.not_lt_zero k)
  | pull h hpull =>
    obtain ⟨n, m₁, hn, -⟩ := h.represents.pull
    obtain ⟨rfl, -⟩ := Prod.mk.inj (pull_unique hpull hn)
    have hno := Evaluation.answer_ne_item hk (Nat.le_of_lt_succ hj)
    exact (h.reachable.pull (raises_any env) hpull).2.2.1 hno

end Machine

namespace Evaluation

/-- Frames and calls are accounted for exactly. Between two pulls the live frames are those of the
blocks that are still to be left, one for each, and as many calls are counted as there are bodies of
modules among them. While a pull runs, as many calls are counted as there are calls of modules and
functions that are still to be ended, and never more than allowed. Behind the last item no frame is
alive and no call is counted. -/
theorem accounting_exact (env : Environment) (program : Program) :
    (∀ k, ∃ m, After env program k m) ∧
      (∀ k m, After env program k m →
        let w := ((start env program).after k).world
        m.world = w ∧ (∀ id, (Arena.get? w.scopes id).isSome ↔ id ∈ Task.blocks m.tasks) ∧
          (Task.blocks m.tasks).Nodup ∧ w.scopes.live = (Task.blocks m.tasks).length ∧
          w.depth = m.tasks.countP Task.endsModule) ∧
      (∀ m, Reachable env program m →
        m.world.depth = Task.calls m.tasks ∧ m.world.depth ≤ env.host.settings.maxDepth) ∧
      ∀ k, (∀ g, ((start env program).answer k).1 ≠ .item g) → ∀ j > k,
        let w := ((start env program).after j).world
        (∀ id, Arena.get? w.scopes id = none) ∧ w.scopes.live = 0 ∧ w.depth = 0 := by
  refine ⟨exists_after env program, fun k m hm => ?_, fun m hm => ?_, fun k hk j hj => ?_⟩
  · obtain ⟨hsound, hlive, -, hdepth, -⟩ := hm.reachable.fits (raises_any env)
    have hworld := hm.represents.1
    rw [hworld] at hsound hlive hdepth
    rw [Task.calls_eq_of_waiting hm.waiting] at hdepth
    exact ⟨hworld, hsound.isSome_iff, hsound.nested.nodup, hlive, hdepth⟩
  · have hfits := hm.fits (raises_any env)
    exact ⟨hfits.depth, hfits.limit⟩
  · obtain ⟨m, hm⟩ := exists_after env program j
    obtain ⟨hsound, hlive, -, hdepth, -⟩ := hm.reachable.fits (raises_any env)
    rw [hm.represents.1, hm.tasks_eq_nil hk hj] at hsound hlive hdepth
    refine ⟨fun id => ?_, hlive, hdepth⟩
    exact Option.not_isSome_iff_eq_none.mp fun hsome =>
      List.not_mem_nil ((hsound.isSome_iff id).mp hsome)

/-- An environment with one operator, which yields a ball. -/
def ballEnvironment : Environment :=
  ⟨{ operators := [("b", fun _ _ _ => pure (.shape (.sphere 1)))] }, ⟨{}, ⟨"", []⟩⟩⟩

/-- A module that yields a ball, invoked in one branch of a condition. -/
def branchingProgram : Program :=
  [.defineModule .start ⟨"m", [], [.invoke .start "b" [] []]⟩,
    .branch .start (.bool .start true) [.invoke .start "m" [] []] []]

/-- When the ball has been handed out, the program, the branch and the module are in progress, and
one call is counted. The next pull finds the end, and then none of this is left. -/
theorem accounting_exact_branching :
    (∃ m, After ballEnvironment branchingProgram 1 m ∧ (Task.blocks m.tasks).length = 3 ∧
        ((start ballEnvironment branchingProgram).after 1).world.scopes.live = 3 ∧
        ((start ballEnvironment branchingProgram).after 1).world.depth = 1) ∧
      ((start ballEnvironment branchingProgram).after 2).world.depth = 0 := by
  obtain ⟨-, hbetween, -, hend⟩ := accounting_exact ballEnvironment branchingProgram
  have hafter : After ballEnvironment branchingProgram 1 _ := .pull (n := 15) .start rfl
  obtain ⟨-, -, -, hlive, hdepth⟩ := hbetween 1 _ hafter
  exact ⟨⟨_, hafter, rfl, hlive, hdepth⟩, (hend 1 (fun g hg => by cases hg) 2 (by decide)).2.2⟩

end Evaluation

end SolidScript
