import SolidScript.Proofs.Evaluation.Resolution
import SolidScript.Proofs.Machine.Acts

/-!
# Dimensions of geometry

Geometry is tagged with a dimension where it is made, and tags are copied where geometry is joined.
That they are right all the same rests on one check, which every operator makes that joins its
children.
-/

namespace SolidScript

open Machine (StepsTo running failing)

/-- Geometry of both dimensions. -/
def Mixed (gs : List (Geometry Float)) : Prop := ∃ g ∈ gs, ∃ g' ∈ gs, g.dimension ≠ g'.dimension

variable {site : CallSite} {gs : List (Geometry Float)}

lemma Plan.IsJoining.joined_of_mixed {join : Geometry Float → Geometry Float → Geometry Float}
    {change : Geometry Float → Except RuntimeError (Geometry Float)}
    (h : (Plan.fold join change).IsJoining site) (hgs : Mixed gs) :
    Plan.joined site join change gs = .error site.dimensionMismatch := by
  obtain ⟨hjoin, -⟩ := h
  obtain ⟨g, hg, g', hg', hne⟩ := hgs
  exact Plan.joined_eq_error hjoin.dimension_eq hg hg' hne

/-- What is built in, and geometry that is put together as operators do. -/
def Stock.built : Stock where
  place _ := True
  operator operator := ∃ name, Registry.standard.operators.lookup name = some operator
  plan site plan := plan.IsStandard site
  geometry := Geometry.Built
  error _ := True

lemma supplies_standard (host : Host) : Stock.built.Lawful ⟨.standard, host⟩ where
  operator h := ⟨_, h⟩
  plan h _ _ _ hplan := (Builtin.promises_of_lookup h.choose_spec hplan).isStandard
  refusal _ _ _ _ _ _ := trivial
  keeps hplan := hplan.keeps_built
  raises _ _ _ := Plan.raises_any _ _
  located _ _ := trivial

/-- Everything that an evaluation yields is put together as operators do. -/
theorem Evaluation.holds_of_item {host : Host} (hS : Stock.built.Lawful ⟨.standard, host⟩)
    {program : Program} {k : Nat} {g : Geometry Float}
    (h : ((start ⟨.standard, host⟩ program).answer k).1 = .item g) : g.Built := by
  obtain ⟨m, hm⟩ := Machine.exists_after ⟨.standard, host⟩ program k
  obtain ⟨n, m', hpull, -⟩ := hm.represents.pull
  obtain ⟨m₁, hm₁, hfound, -⟩ := hm.reachable.exists_of_pull hpull
  have hfound : (m₁.move ⟨.standard, host⟩).found? =
      some ((start ⟨.standard, host⟩ program).answer k).1 := hfound
  have hall := (hm₁.stocked hS fun _ _ => trivial).tasks
  rw [h] at hfound
  rcases Machine.move_cases ⟨.standard, host⟩ m₁ with ⟨e, t, K, -, -, hmove⟩ | ⟨e, -, -, hmove⟩
    | ⟨t, K, -, -, hmove⟩ |
    ⟨g', gs, K, -, htasks, hmove⟩ | ⟨-, -, hmove⟩
  all_goals
    rw [hmove] at hfound
    cases hfound
  exact hall (.emit (g :: gs)) (htasks ▸ List.mem_cons_self) g List.mem_cons_self

namespace Machine

variable {env : Environment} {program : Program} {m m' : Machine}

/-- The operator that is called at a site has been given its children. -/
structure Receives (m : Machine) (site : CallSite) (gs : List (Geometry Float)) : Prop where
  error : m.error = none
  tasks : ∃ join change K, m.tasks = .fold site join change :: K
  collected : ∃ cs, m.collected = gs :: cs

lemma Reachable.steps (h : Reachable env program m) (hsteps : StepsTo env m m') :
    Reachable env program m' := by
  induction hsteps with
  | refl => exact h
  | tail _ hstep ih =>
    have hnext := ih.next
    rw [hstep] at hnext
    exact hnext

/-- An error passes all statements that are waiting. -/
lemma exists_steps_waiting (env : Environment) {ts : List Task} (hts : ∀ t ∈ ts, t.IsWaiting)
    (w : World) (e : RuntimeError) : ∃ w', StepsTo env (failing w ts e) (failing w' [] e) := by
  induction ts generalizing w with
  | nil => exact ⟨w, .refl⟩
  | cons t ts ih =>
    obtain ⟨ht, hrest⟩ := List.forall_mem_cons.mp hts
    cases t with
    | leave id c =>
      -- blocks are left on the way, so the world changes
      obtain ⟨w', hsteps⟩ := ih hrest (w.leave id c)
      exact ⟨w', .head rfl hsteps⟩
    | located | start => exact ht.elim
    | _ =>
      obtain ⟨w', hsteps⟩ := ih hrest w
      exact ⟨w', .head rfl hsteps⟩

/-- Where an operator is given children of both dimensions, the error is found that says so. -/
lemma exists_pull_of_mixed {host : Host} (h : Reachable ⟨.standard, host⟩ program m)
    (hm : m.Receives site gs) (hgs : Mixed gs) :
    ∃ n log m', m.pull ⟨.standard, host⟩ n = some (.failed site.dimensionMismatch, log, m') := by
  obtain ⟨herror, ⟨join, change, K, htasks⟩, cs, hcollected⟩ := hm
  have hstandard : (Plan.fold join change).IsStandard site :=
    ((h.stocked (supplies_standard host) fun _ _ => trivial).tasks (.fold site join change)
      (htasks ▸ List.mem_cons_self)).2
  -- below a task that folds there are only statements that wait, none of which handles errors
  have hfit := (h.fits (raises_any _)).fits
  obtain ⟨w, ts, vs, collected, error⟩ := m
  obtain rfl : error = none := herror
  obtain rfl : ts = .fold site join change :: K := htasks
  obtain rfl : collected = gs :: cs := hcollected
  have hjoining : (Plan.fold join change).IsJoining site := by
    rcases hstandard with hjoining | ⟨⟨⟩⟩ | heq
    · exact hjoining
    · cases heq
  have hraise : StepsTo ⟨.standard, host⟩ ⟨w, .fold site join change :: K, vs, gs :: cs, none⟩
      (failing w K site.dimensionMismatch) := by
    refine .single ?_
    show Move.step ((running w K vs cs).settle (Plan.joined site join change gs)) = _
    rw [hjoining.joined_of_mixed hgs]
    rfl
  obtain ⟨w', hsteps⟩ := exists_steps_waiting ⟨.standard, host⟩ hfit.1.2 w site.dimensionMismatch
  have hend : (failing w' [] site.dimensionMismatch).pull ⟨.standard, host⟩ 1 =
      some (.failed site.dimensionMismatch, w'.log, (running w' [] [] []).withLog {}) := rfl
  obtain ⟨n, hn⟩ := pull_of_steps (hraise.trans hsteps) hend
  exact ⟨n, _, _, hn⟩

/-- Children of both dimensions end the evaluation. -/
lemma After.answer_of_mixed {host : Host} {k : Nat} (h : After ⟨.standard, host⟩ program k m)
    (hsteps : StepsTo ⟨.standard, host⟩ m m') (hm : m'.Receives site gs) (hgs : Mixed gs) :
    ((Evaluation.start ⟨.standard, host⟩ program).answer k).1 = .failed site.dimensionMismatch := by
  obtain ⟨n, log, m₁, hn⟩ := exists_pull_of_mixed (h.reachable.steps hsteps) hm hgs
  obtain ⟨n₀, hpull⟩ := pull_of_steps hsteps hn
  obtain ⟨n₁, m₂, hanswer, -⟩ := h.represents.pull
  exact (Prod.mk.inj (pull_unique hanswer hpull)).1

end Machine

/-- A plan that joins children of both dimensions fails, and yields nothing. -/
lemma Plan.IsJoining.build_of_mixed {plan : Plan} (h : plan.IsJoining site) {x : Building}
    {w w' : World} (hx : x.drain w = (.ok gs, w')) (hgs : Mixed gs) :
    Plan.build (.ofStream site x) plan w = .fail site.dimensionMismatch w' := by
  obtain ⟨hjoin, hchange⟩ := h
  have hsite : (Supply.ofStream site x).site = site := rfl
  have hstream : (Supply.ofStream site x).stream = x := rfl
  rw [Plan.build, Eval.build, Eval.collect, hstream, hx, hsite]
  dsimp only
  rw [(IsJoining.fold hjoin hchange).joined_of_mixed hgs]

namespace Evaluation

/-- Tags of geometry are right, whatever the program and the settings are. Everything that is
yielded is tagged with the dimension of its tree; in the tree the operands of every combination have
one dimension, and what is swept is flat. Where an operator that joins its children is given
children of both dimensions, the pull in progress finds the error that says so, and so does the
operator by itself, whatever its children do. -/
theorem dimensions_sound (host : Host) (program : Program) :
    let env : Environment := ⟨.standard, host⟩
    (∀ k g, ((start env program).answer k).1 = .item g → g.IsSound) ∧
      (∀ k m m', Machine.After env program k m → StepsTo env m m' →
        ∀ site gs, m'.Receives site gs → Mixed gs →
        ((start env program).answer k).1 = .failed site.dimensionMismatch) ∧
      ∀ name ∈ Builtin.joining, ∃ operator, env.registry.operators.lookup name = some operator ∧
        ∀ site args plan, (operator host site args).run.value = .ok plan → ∀ (x : Building) w gs w',
          x.drain w = (.ok gs, w') → Mixed gs → Plan.build (.ofStream site x) plan w =
            .fail site.dimensionMismatch w' := by
  intro env
  refine ⟨fun k g hg => ?_, fun k m m' hm hsteps site gs hreceives hgs => ?_, fun name hname => ?_⟩
  · have hbuilt : g.Built := holds_of_item (supplies_standard host) hg
    exact hbuilt.isSound
  · exact hm.answer_of_mixed hsteps hreceives hgs
  · obtain ⟨operator, hoperator, hjoining⟩ := Builtin.exists_of_mem_joining hname
    refine ⟨operator, hoperator, fun site args plan hplan x w gs w' hx hgs => ?_⟩
    exact (hjoining host site args plan hplan).build_of_mixed hx hgs

/-- A ball and a disc, united. -/
def mixedProgram : Program :=
  [.invoke .start "union" [] [.invoke .start "sphere" [] [], .invoke .start "circle" [] []]]

/-- The machine that has built the ball and the disc. -/
def mixedMachine : Machine := (fun m => (m.move plainEnvironment).next)^[12] (.start mixedProgram)

/-- The operator is given the ball and the disc, and refuses them. -/
theorem dimensions_sound_union :
    (StepsTo plainEnvironment (.start mixedProgram) mixedMachine ∧
        ∃ gs, mixedMachine.Receives ⟨"union", .start⟩ gs ∧ Mixed gs) ∧
      ((start plainEnvironment mixedProgram).answer 0).1 =
      .failed ⟨.dimensionMismatch "union", some .start⟩ := by
  obtain ⟨-, hmixed, -⟩ := dimensions_sound plainEnvironment.host mixedProgram
  have hsteps : StepsTo plainEnvironment (.start mixedProgram) mixedMachine :=
    .head rfl
      (.head rfl
        (.head rfl (.head rfl (.head rfl (.head rfl (.head rfl (.head rfl (.head rfl (.head rfl
      (.head rfl (.single rfl)))))))))))
  have hreceives : mixedMachine.Receives ⟨"union", .start⟩ [.sphere 1.0, .circle 1.0] :=
    ⟨rfl, ⟨_, _, _, rfl⟩, ⟨_, rfl⟩⟩
  have hgs : Mixed [.sphere 1.0, .circle 1.0] := ⟨_, .head _, _, .tail _ (.head _), by rintro ⟨⟩⟩
  exact ⟨⟨hsteps, _, hreceives, hgs⟩, hmixed 0 _ _ .start hsteps _ _ hreceives hgs⟩

end Evaluation

end SolidScript
