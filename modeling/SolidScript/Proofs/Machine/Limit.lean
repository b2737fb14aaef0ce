import SolidScript.Proofs.Machine.Acts

/-!
# The limit for calls

Two machines that differ in nothing but the limit take the same steps, up to a call that the lower
limit does not allow. There the one gives up, with nothing more to report, while the other goes on
and may only report more.
-/

namespace SolidScript

open Machine

/-- The same host with another limit for calls. -/
def Host.withMaxDepth (host : Host) (limit : Nat) : Host :=
  { host with settings := { host.settings with maxDepth := limit } }

def Environment.withMaxDepth (env : Environment) (limit : Nat) : Environment :=
  { env with host := env.host.withMaxDepth limit }

/-- There was a call too many. -/
def RuntimeError.IsLimit (e : RuntimeError) : Prop :=
  ∃ name limit, e.cause = .recursionLimit name limit

/-- An operator that does the same whatever the limit for calls is. -/
def Builtin.Operator.IgnoresLimit (operator : Builtin.Operator) : Prop :=
  ∀ (host : Host) (limit : Nat), operator (host.withMaxDepth limit) = operator host

def Registry.IgnoresLimit (registry : Registry) : Prop :=
  ∀ (name : String) (operator : Builtin.Operator), registry.operators.lookup name = some operator →
    operator.IgnoresLimit

/-- No operator that is built in looks at the limit. -/
lemma Registry.ignoresLimit_standard : Registry.standard.IgnoresLimit := by
  have hall : ∀ entry ∈ Builtin.operators, entry.2.IgnoresLimit := by
    simp only [Builtin.operators, List.forall_mem_cons]
    refine ⟨?_, ?_, ?_, ?_, ?_, ?_, ?_, ?_, ?_, ?_, ?_, ?_, ?_, ?_, ?_, ?_, ?_, ?_,
      List.forall_mem_nil _⟩
    all_goals exact fun _ _ => rfl
  exact fun name operator h => hall (name, operator) (mem_of_lookup h)

namespace Machine

variable (env : Environment) {limit limit' : Nat} {program : Program} {m : Machine}

/-- The machine has given everything up for a call that the limit does not allow, with so much
reported. -/
def Overruns (limit : Nat) (log : Log) (m : Machine) : Prop :=
  ∃ (m₁ : Machine) (name : String) (pos : Position),
    m = m₁.raise ⟨.recursionLimit name limit, some pos⟩ ∧ m₁.world.log = log

/-- A call is begun with both limits, or else the lower one does not allow it. -/
lemma enter_withMaxDepth (hlimit : limit ≤ limit') (m : Machine) (c : Call) (args : Arguments) :
    m.enter (env.withMaxDepth limit') c args = m.enter (env.withMaxDepth limit) c args ∨
      (m.enter (env.withMaxDepth limit) c args).Overruns limit m.world.log := by
  by_cases hdepth : limit ≤ m.world.depth
  · exact .inr ⟨m, c.name, c.pos, if_pos hdepth, rfl⟩
  · have hdepth' : ¬limit' ≤ m.world.depth := fun h => hdepth (hlimit.trans h)
    exact .inl ((if_neg hdepth').trans (if_neg hdepth).symm)

/-- A task is performed with both limits alike, or else the lower one stops it. -/
lemma perform_withMaxDepth (hlimit : limit ≤ limit') (m : Machine) {t : Task}
    (ht : t.Stocked (.withOperators Builtin.Operator.IgnoresLimit)) :
    t.perform (env.withMaxDepth limit') m = t.perform (env.withMaxDepth limit) m ∨
      (t.perform (env.withMaxDepth limit) m).Overruns limit m.world.log := by
  cases t with
  | call frame site keywords =>
    -- a call of a function of the program, what is built in, or an unknown name
    let args : Arguments := .ofValues keywords (m.values.take keywords.length).reverse
    let m₁ : Machine :=
      { m with world := m.world.visit frame .lookUp, values := m.values.drop keywords.length }
    show Callee.begin (env.withMaxDepth limit') site args m₁
      (env.callee? m.world.scopes frame site.name) =
        Callee.begin (env.withMaxDepth limit) site args m₁
          (env.callee? m.world.scopes frame site.name) ∨
      (Callee.begin (env.withMaxDepth limit) site args m₁
        (env.callee? m.world.scopes frame site.name)).Overruns limit m.world.log
    rcases env.callee? m.world.scopes frame site.name with _ | ⟨closure⟩ | ⟨f⟩
    · exact .inl rfl
    · exact enter_withMaxDepth env hlimit m₁ (.function closure site) args
    · exact .inl rfl
  | enter c keywords =>
    exact enter_withMaxDepth env hlimit { m with values := m.values.drop keywords.length } c
      (.ofValues keywords (m.values.take keywords.length).reverse)
  | operate ctx site keywords block operator =>
    have hoperator : operator (env.host.withMaxDepth limit') =
        operator (env.host.withMaxDepth limit) := by
      rw [ht.2.2.2 env.host limit', ht.2.2.2 env.host limit]
    refine .inl ?_
    show (m.withArguments keywords fun args m =>
      m.compute (Eval.checking (operator (env.host.withMaxDepth limit') site args)) _) = _
    rw [hoperator]
    rfl
  | block ctx rest => cases rest <;> exact .inl rfl
  | rounds ctx vars body n i => cases n <;> exact .inl rfl
  | emit gs => cases gs <;> exact .inl rfl
  | _ => exact .inl rfl

/-- One step with two limits. -/
lemma move_withMaxDepth (hlimit : limit ≤ limit')
    (hm : m.Stocked (.withOperators Builtin.Operator.IgnoresLimit)) :
    m.move (env.withMaxDepth limit') = m.move (env.withMaxDepth limit) ∨
      ∃ m', m.move (env.withMaxDepth limit) = .step m' ∧ m'.Overruns limit m.world.log := by
  rcases m with ⟨w, _ | ⟨t, K⟩, vs, cs, _ | e⟩
  · exact .inl rfl
  · exact .inl rfl
  · have hstep (hmove : ∀ env, (running w (t :: K) vs cs).move env =
      .step (t.perform env (running w K vs cs))) :
        (running w (t :: K) vs cs).move (env.withMaxDepth limit') =
        (running w (t :: K) vs cs).move (env.withMaxDepth limit) ∨
          ∃ m', (running w (t :: K) vs cs).move (env.withMaxDepth limit) = .step m' ∧
            m'.Overruns limit w.log := by
      rw [hmove, hmove]
      rcases perform_withMaxDepth env hlimit (running w K vs cs)
        (List.forall_mem_cons.mp hm.tasks).1 with heq | hover
      · exact .inl (congrArg Move.step heq)
      · exact .inr ⟨_, rfl, hover⟩
    cases t with
    | emit gs =>
      cases gs with
      | nil => exact .inl rfl
      | cons g gs => cases cs <;> exact .inl rfl
    | _ => exact hstep fun _ => rfl
  · exact .inl rfl

/-- An error that has a place is found by the pull, and nothing is reported on the way to it. -/
lemma exists_pull_of_error {e : RuntimeError} (he : e.pos.isSome) (herror : m.error = some e) :
    ∃ n m', m.pull env n = some (.failed e, m.world.log, m') := by
  obtain ⟨w, ts, vs, cs, error⟩ := m
  obtain rfl : error = some e := herror
  induction ts generalizing w with
  | nil => exact ⟨1, _, rfl⟩
  | cons t ts ih =>
    have hsame : e.orAt = fun _ => e := by
      obtain ⟨cause, pos⟩ := e
      cases pos with
      | none => exact absurd he Bool.false_ne_true
      | some pos => rfl
    have habandon : ∃ w' : World, w'.log = w.log ∧
        (mk w (t :: ts) vs cs (some e)).move env = .step ⟨w', ts, vs, cs, some e⟩ := by
      cases t with
      | located pos =>
        refine ⟨w, rfl, ?_⟩
        show Move.step ⟨w, ts, vs, cs, some (e.orAt pos)⟩ = _
        rw [hsame]
      | start => exact ⟨w.closeCall, rfl, rfl⟩
      | leave id c => cases c <;> exact ⟨w.leave id _, rfl, rfl⟩
      | _ => exact ⟨w, rfl, rfl⟩
    obtain ⟨w', hlog, hmove⟩ := habandon
    obtain ⟨n, m', hpull⟩ := ih w'
    refine ⟨n + 1, m', ?_⟩
    rw [pull, hmove, ← hlog]
    exact hpull

variable {env}

/-- One pull with both limits. It finds and reports the same, or else the error with the lower
limit; the other one reports the same then, and maybe more. -/
lemma pull_withMaxDepth (hlimit : limit ≤ limit') (hregistry : env.registry.IgnoresLimit)
    (hm : Reachable (env.withMaxDepth limit) program m) {n : Nat}
    {found : Stream.Pulled RuntimeError (Geometry Float)} {log : Log} {m' : Machine}
    (h : m.pull (env.withMaxDepth limit) n = some (found, log, m')) :
    m.pull (env.withMaxDepth limit') n = some (found, log, m') ∨
      ∃ name pos, found = .failed ⟨.recursionLimit name limit, some pos⟩ ∧
        ∀ n' found' log' m'', m.pull (env.withMaxDepth limit') n' = some (found', log', m'') →
          ∃ more, log' = log ++ more := by
  induction n generalizing m with
  | zero => exact absurd h (Option.some_ne_none _).symm
  | succ n ih =>
    have hoperators := hm.stocked (Stock.lawful_withOperators (env.withMaxDepth limit) hregistry)
      fun _ _ => trivial
    rw [pull] at h ⊢
    rcases move_withMaxDepth env hlimit hoperators with heq | ⟨m₁, hmove, m₂, name, pos, rfl, hlog⟩
    · rw [heq]
      have hnext := hm.next
      cases hmove : m.move (env.withMaxDepth limit) with
      | step m₁ =>
        rw [hmove] at h hnext heq
        rcases ih hnext h with hsame | ⟨name, pos, hfound, hlog⟩
        · exact .inl hsame
        · refine .inr ⟨name, pos, hfound, fun n' found' log' m'' hpull => ?_⟩
          cases n' with
          | zero => exact absurd hpull (Option.some_ne_none _).symm
          | succ n' =>
            rw [pull, heq] at hpull
            exact hlog n' found' log' m'' hpull
      | item g m₁ | failed e m₁ | finished m₁ =>
        rw [hmove] at h
        exact .inl h
    · -- the lower limit is reached: the error is found with what was reported so far
      rw [hmove] at h
      obtain ⟨k, m₃, hk⟩ := exists_pull_of_error (env.withMaxDepth limit)
        (m := m₂.raise ⟨.recursionLimit name limit, some pos⟩) rfl rfl
      cases pull_unique h hk
      refine .inr ⟨name, pos, rfl, fun n' found' log' m'' hpull => ?_⟩
      obtain ⟨more, hmore⟩ := log_of_pull hpull
      exact ⟨more, hmore.trans (congrArg (· ++ more) hlog.symm)⟩

/-- With both limits the same machine is reached, as long as the lower one does not end the
evaluation. -/
lemma After.withMaxDepth (hlimit : limit ≤ limit') (hregistry : env.registry.IgnoresLimit) {k : Nat}
    (h : After (env.withMaxDepth limit) program k m)
    (hk : ∀ j < k, ∀ e, ((Evaluation.start (env.withMaxDepth limit) program).answer j).1 =
      .failed e → ¬e.IsLimit) : After (env.withMaxDepth limit') program k m := by
  induction h with
  | start => exact .start
  | @pull k n m m' found log h hpull ih =>
    have hafter := ih fun j hj => hk j (hj.trans k.lt_succ_self)
    rcases pull_withMaxDepth hlimit hregistry h.reachable hpull with hpull' | ⟨name, pos, hfound, -⟩
    · exact hafter.pull hpull'
    · obtain ⟨n', m₁, hanswer, -⟩ := h.represents.pull
      have heq := congrArg Prod.fst (pull_unique hanswer hpull)
      exact absurd ⟨name, limit, rfl⟩ (hk k k.lt_succ_self _ (heq.trans hfound))

end Machine

namespace Evaluation

variable {env : Environment} {limit limit' : Nat} {program : Program}

/-- One pull of two evaluations, before which the lower limit has ended neither. -/
lemma answer_withMaxDepth (hlimit : limit ≤ limit') (hregistry : env.registry.IgnoresLimit)
    {k : Nat}
    (hk : ∀ j < k, ∀ e, ((start (env.withMaxDepth limit) program).answer j).1 = .failed e →
      ¬e.IsLimit) :
    ((start (env.withMaxDepth limit') program).after k).world =
      ((start (env.withMaxDepth limit) program).after k).world ∧
      ((start (env.withMaxDepth limit') program).answer k =
      (start (env.withMaxDepth limit) program).answer k ∨
        ∃ name pos more,
          ((start (env.withMaxDepth limit) program).answer k).1 =
          .failed ⟨.recursionLimit name limit, some pos⟩ ∧
          ((start (env.withMaxDepth limit') program).answer k).2 =
            ((start (env.withMaxDepth limit) program).answer k).2 ++ more) := by
  obtain ⟨m, hm⟩ := exists_after (env.withMaxDepth limit) program k
  have hm' := hm.withMaxDepth hlimit hregistry hk
  obtain ⟨n, m₁, hpull, -⟩ := hm.represents.pull
  obtain ⟨n', m₁', hpull', -⟩ := hm'.represents.pull
  refine ⟨hm'.represents.1.symm.trans hm.represents.1, ?_⟩
  rcases pull_withMaxDepth hlimit hregistry hm.reachable hpull with hsame
    | ⟨name, pos, hfound, hlog⟩
  · obtain ⟨hfound, hrest⟩ := Prod.mk.inj (pull_unique hpull' hsame)
    exact .inl (Prod.ext hfound (Prod.mk.inj hrest).1)
  · obtain ⟨more, hmore⟩ := hlog n' _ _ _ hpull'
    exact .inr ⟨name, pos, more, hfound, hmore⟩

/-- The limit for calls only cuts evaluations short. With a higher one the state between pulls is
the same, and so is what a pull finds and reports, up to the pull that finds the error with the
lower limit; what that one reports, the other one reports first. Where the lower limit is never
exceeded, all pulls find and report the same. -/
theorem limit_only_cuts (host : Host) (program : Program) (limit limit' : Nat)
    (hlimit : limit ≤ limit') : let short := start ⟨.standard, host.withMaxDepth limit⟩ program
    let long := start ⟨.standard, host.withMaxDepth limit'⟩ program
    (∀ k, (∀ j < k, ∀ e, (short.answer j).1 = .failed e → ¬e.IsLimit) →
        (long.after k).world = (short.after k).world ∧
          (long.answer k = short.answer k ∨
            ∃ name pos more, (short.answer k).1 = .failed ⟨.recursionLimit name limit, some pos⟩ ∧
              (long.answer k).2 = (short.answer k).2 ++ more)) ∧
      ((∀ k e, (short.answer k).1 = .failed e → ¬e.IsLimit) →
        ∀ k, (long.after k).world = (short.after k).world ∧ long.answer k = short.answer k) := by
  have hregistry : (Environment.mk .standard host).registry.IgnoresLimit :=
    Registry.ignoresLimit_standard
  refine ⟨fun k hk => answer_withMaxDepth hlimit hregistry hk, fun hnever k => ?_⟩
  obtain ⟨hworld, hsame | ⟨name, pos, -, hfound, -⟩⟩ := answer_withMaxDepth hlimit hregistry
    fun j _ => hnever j
  · exact ⟨hworld, hsame⟩
  · exact absurd ⟨name, limit, rfl⟩ (hnever k _ hfound)

/-- A module that invokes itself gets as far as either limit allows. The errors differ, and neither
comes with a report. -/
theorem limit_only_cuts_endless :
    let host : Host := ⟨{}, ⟨"", []⟩⟩
    let short := start ⟨.standard, host.withMaxDepth 2⟩ endlessProgram
    let long := start ⟨.standard, host.withMaxDepth 3⟩ endlessProgram
    (short.answer 0).1 = .failed ⟨.recursionLimit "m" 2, some .start⟩ ∧
      (long.answer 0).1 = .failed ⟨.recursionLimit "m" 3, some .start⟩ ∧
      ∃ more, (long.answer 0).2 = (short.answer 0).2 ++ more := by
  refine ⟨rfl, rfl, ?_⟩
  obtain ⟨-, hsame | ⟨_, _, more, -, hmore⟩⟩ :=
    (limit_only_cuts ⟨{}, ⟨"", []⟩⟩ endlessProgram 2 3 (by decide)).1 0 nofun
  · exact ⟨{}, (congrArg Prod.snd hsame).trans (Log.append_empty _).symm⟩
  · exact ⟨more, hmore⟩

end Evaluation

end SolidScript
