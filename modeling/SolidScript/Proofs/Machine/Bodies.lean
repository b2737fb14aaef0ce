import Mathlib.Tactic.IntervalCases
import SolidScript.Proofs.Evaluation.Resolution
import SolidScript.Proofs.Machine.Image
import SolidScript.Proofs.Machine.Invocations

/-!
# Bodies of invocations

The body of an invocation is a block that its operator, or its module by a call of `children`, has
run. This happens once at most, and what it yields then is what all calls of `children` select from.
-/

namespace SolidScript

open List Eval

open Machine (StepsTo running failing)

/-! ## Primitive shapes -/

/-- An operator that makes a shape and has no use for its children. -/
def Builtin.Operator.IsPrimitive (operator : Builtin.Operator) : Prop :=
  ∀ host site args plan, (operator host site args).run.value = .ok plan → ∃ g, plan = .shape g

namespace Builtin

/-- The operators that are bodies by themselves. -/
def bodies : List String := ["sphere", "cube", "cylinder", "circle", "square", "text"]

lemma isPrimitive_of_meets {operator : Operator}
    (h : ∀ host site args, Check.Meets site Plan.IsBody (operator host site args)) :
    operator.IsPrimitive := by
  intro host site args plan hplan
  have hbody := h host site args
  rw [Check.Meets, hplan] at hbody
  cases hbody with
  | here | moved => exact ⟨_, rfl⟩

lemma exists_of_mem_bodies {name : String} (h : name ∈ bodies) :
    ∃ operator, Registry.standard.operators.lookup name = some operator ∧ operator.IsPrimitive := by
  simp only [bodies, mem_cons, not_mem_nil, or_false] at h
  rcases h with rfl | rfl | rfl | rfl | rfl | rfl
  · exact ⟨sphere, rfl, isPrimitive_of_meets fun _ _ _ => meets_sphere⟩
  · exact ⟨cube, rfl, isPrimitive_of_meets fun _ _ _ => meets_cube⟩
  · exact ⟨cylinder, rfl, isPrimitive_of_meets fun _ _ _ => meets_cylinder⟩
  · exact ⟨circle, rfl, isPrimitive_of_meets fun _ _ _ => meets_circle⟩
  · exact ⟨square, rfl, isPrimitive_of_meets fun _ _ _ => meets_square⟩
  · exact ⟨text, rfl, isPrimitive_of_meets fun _ _ _ => meets_text⟩

end Builtin

/-! ## Offered bodies -/

/-- What an offered body builds while `left` more calls may be in progress, with the offers that are
further out. -/
def Offer.building (env : Environment) (left : Nat) (outer : List Offer) (offer : Offer) :
    Building :=
  let call := callFunction env left
  let enter := enterModule env left
  inBody offer.caller offer.body
    (Statement.buildAll env call enter (askChildren env call enter outer) outer · offer.body)

lemma Offer.carries_building (env : Environment) (left : Nat) (outer : List Offer) (offer : Offer) :
    Carries env left (fun m => m.body offer.caller offer.body outer)
      (offer.building env left outer) :=
  .inBody fun id =>
    (follows_ask (follows_callFunction env left) (follows_enter env left) outer).statements id
      offer.body

/-- The children of a module are what its body yields when it is run. -/
lemma Offer.force_of_collect {offer : Offer} {body : Building} {gs : List (Geometry Float)}
    {w w' : World} (h : collect body (w.write offer.frame (.children .forcing)) = .ok gs w') :
    offer.force body w = .ok gs (w'.write offer.frame (.children (.ready gs))) := by
  show EStateM.bind (collect body)
    (fun gs => write offer.frame (.children (.ready gs)) >>= fun _ => pure gs)
    (w.write offer.frame (.children .forcing)) = _
  unfold EStateM.bind
  rw [h]
  rfl

namespace Machine

variable {env : Environment} {program : Program} {m : Machine} {offer : Offer}

/-! ## After an error -/

/-- Nothing is done any more. -/
def Over (m : Machine) : Prop := m.error.isSome ∨ m.tasks = []

lemma Over.next (h : m.Over) : (m.move env).next.Over := by
  rcases move_cases env m with ⟨e, t, K, herror, htasks, hmove⟩ | ⟨e, herror, htasks, hmove⟩ |
    ⟨t, K, herror, htasks, hmove⟩ | ⟨g, gs, K, herror, htasks, hmove⟩ | ⟨herror, htasks, hmove⟩
  · rw [hmove]
    obtain ⟨e', he'⟩ := error_abandon t (m := { m with tasks := K }) herror
    exact .inl (Option.isSome_of_eq_some he')
  · rw [hmove]
    exact .inr htasks
  · rw [Over, herror, htasks] at h
    exact absurd h (by simp)
  · rw [Over, herror, htasks] at h
    exact absurd h (by simp)
  · rw [hmove]
    exact .inr htasks

variable {t s : Nat} {gs : List (Geometry Float)} {K : List Task} {ctx : Context} {site : CallSite}
  {keywords : List (Option String)} {outer : List Offer}

lemma Over.trace {u : Nat} (h : (trace env program t).Over) (htu : t ≤ u) :
    (Machine.trace env program u).Over := by
  induction u, htu using Nat.le_induction with
  | base => exact h
  | succ u _ ih =>
    rw [trace_succ]
    exact ih.next

lemma Over.current? (h : m.Over) : m.current? = none := by
  obtain ⟨w, ts, vs, cs, error⟩ := m
  rcases h with h | h
  · obtain ⟨e, rfl⟩ := Option.isSome_iff_exists.mp h
    rfl
  · obtain rfl : ts = [] := h
    cases error <;> rfl

/-! ## The single run -/

/-- The step takes up an offer, and the body yields so much when it is run then. -/
def Yields (env : Environment) (m : Machine) (offer : Offer) (gs : List (Geometry Float)) : Prop :=
  ∃ ctx site keywords outer w', m.current? = some (.ask ctx site keywords) ∧
    ctx.offers = offer :: outer ∧
    m.world.scopes.children? ctx.frame = some .pending ∧
    offer.force (offer.building env (env.host.settings.maxDepth - m.world.depth) outer)
      (m.world.visit ctx.frame .lookUp) =
      .ok gs w'

lemma Yields.takes (h : m.Yields env offer gs) : m.Takes offer := by
  obtain ⟨ctx, site, keywords, outer, -, hcurrent, hoffers, hfound, -⟩ := h
  exact ⟨outer, ctx, site, keywords, hcurrent, hoffers, hfound⟩

variable {gs' : List (Geometry Float)}

/-- A run of a body yields one list. -/
lemma Yields.unique (h : m.Yields env offer gs) (h' : m.Yields env offer gs') : gs = gs' := by
  obtain ⟨ctx, site, keywords, outer, w, hcurrent, hoffers, -, hforce⟩ := h
  obtain ⟨ctx', site', keywords', outer', w', hcurrent', hoffers', -, hforce'⟩ := h'
  cases hcurrent.symm.trans hcurrent'
  cases hoffers.symm.trans hoffers'
  cases hforce.symm.trans hforce'
  rfl

/-- The step selects children of a module from a list: it is a call of `children` that finds the
list, or the one that has taken up the offer and keeps it now. -/
def Selects (m : Machine) (offer : Offer) (gs : List (Geometry Float)) : Prop :=
  (∃ outer, m.Asks offer outer (.ready gs)) ∨ m.Keeps offer gs

/-- A step that takes up an offer leads to its body, with the task that keeps the children behind
it. -/
lemma next_of_takes {w : World} {vs : List Value} {cs : List (List (Geometry Float))}
    (hoffers : ctx.offers = offer :: outer)
    (hfound : w.scopes.children? ctx.frame = some .pending) :
    ((running w (.ask ctx site keywords :: K) vs cs).move env).next =
      (Image.behind (.keep offer site (.ofValues keywords (vs.take keywords.length).reverse) ::
      K)).machine
        ((running ((w.visit ctx.frame .lookUp).write offer.frame (.children .forcing)) []
        (vs.drop keywords.length)
          ([] :: cs)).body offer.caller offer.body outer) := by
  show (Task.ask ctx site keywords).perform env (running w K vs cs) = _
  rw [perform_ask_of_pending env K vs cs hoffers hfound, Image.machine_behind, takeUp]
  unfold Machine.body
  split <;> rfl

/-- In the course of a run, what is behind is left alone. -/
lemma trace_behind {n : Nat} {ts : List Task} {m' : Machine}
    (hn : trace env program n = (Image.behind ts).machine m) (hsteps : StepsTo env m m') :
    ∃ k, trace env program (n + k) = (Image.behind ts).machine m' ∧
      ∀ i ≤ k, ∃ m₁, trace env program (n + i) = (Image.behind ts).machine m₁ := by
  obtain ⟨k, hk, hbetween⟩ := Image.exists_iterate_behind ts hsteps
  rw [← hn] at hk hbetween
  refine ⟨k, (trace_add n k).trans hk, fun i hi => ?_⟩
  obtain ⟨m₁, hm₁⟩ := hbetween i hi
  exact ⟨m₁, (trace_add n i).trans hm₁⟩

/-- While the task that keeps them is behind, the children of a module are being built. -/
lemma forcing_of_behind {n : Nat} {args : Arguments}
    (hn : trace env program n = (Image.behind (.keep offer site args :: K)).machine m) :
    (trace env program n).slot offer.frame = some .forcing := by
  refine (reachable_trace n).forces.forcing offer.frame ?_
  rw [hn, Image.machine_behind]
  exact mem_filterMap.mpr ⟨.keep offer site args, mem_append_right _ mem_cons_self, rfl⟩

/-- The body is run in front of the task that keeps its children, and nothing else is done until it
is over. -/
lemma takes_run (hcurrent : (trace env program t).current? = some (.ask ctx site keywords))
    (hoffers : ctx.offers = offer :: outer)
    (hfound : (trace env program t).world.scopes.children? ctx.frame = some .pending) :
    ∃ n, (∀ i ≤ n, (trace env program (t + 1 + i)).slot offer.frame = some .forcing) ∧
      match collect
      (offer.building env (env.host.settings.maxDepth - (trace env program t).world.depth) outer)
        (((trace env program t).world.visit ctx.frame .lookUp).write offer.frame
        (.children .forcing)) with
      | .ok gs _ => (trace env program (t + 1 + n)).Keeps offer gs
      | .error _ _ => (trace env program (t + 1 + n)).Over := by
  have hlimit : (trace env program t).world.depth ≤ env.host.settings.maxDepth :=
    (fits_trace t).limit
  have hnext : trace env program (t + 1) = ((trace env program t).move env).next := trace_succ t
  generalize trace env program t = m at hcurrent hfound hlimit hnext ⊢
  obtain ⟨w, K, vs, cs, rfl⟩ := exists_running hcurrent
  rw [next_of_takes hoffers hfound] at hnext
  let body : Building := offer.building env (env.host.settings.maxDepth - w.depth) outer
  let w₀ : World := (w.visit ctx.frame .lookUp).write offer.frame (.children .forcing)
  -- with nothing behind it, the machine of the body collects what the body yields
  have hcollect := Run.Traced.drain (r := body w₀)
    (offer.carries_building env _ outer w₀ [] (vs.drop keywords.length)
    ([] :: cs) (Nat.add_sub_cancel' hlimit))
  show ∃ n, _ ∧ match collect body w₀ with | .ok gs _ => _ | .error _ _ => _
  unfold collect Stream.drain
  rcases hr : (body w₀).drain with ⟨e | gs, w'⟩
  · rw [hr] at hcollect
    obtain ⟨n, hn, hbetween⟩ := trace_behind hnext hcollect
    refine ⟨n, fun i hi => forcing_of_behind (hbetween i hi).choose_spec, ?_⟩
    rw [hn]
    exact .inl rfl
  · rw [hr] at hcollect
    obtain ⟨n, hn, hbetween⟩ := trace_behind hnext hcollect.2
    refine ⟨n, fun i hi => forcing_of_behind (hbetween i hi).choose_spec, ?_⟩
    rw [hn]
    exact ⟨site, _, rfl, rfl⟩

namespace InProgress

variable {s t u : Nat} {gs : List (Geometry Float)}

/-- Children that are kept were taken up before. -/
lemma taken_lt (h : InProgress env program s offer t) (htakes : (trace env program t).Takes offer)
    (hu : InProgress env program s offer u) (hkeeps : (trace env program u).Keeps offer gs) :
    t < u := by
  have hforcing := hkeeps.slot (reachable_trace u).forces
  obtain ⟨t', ht', hprogress, htakes'⟩ := hu.exists_taken hforcing Nat.one_pos
  rw [h.taken_once htakes hprogress htakes']
  exact ht'

lemma kept_once (h : InProgress env program s offer t)
    (hkeeps : (trace env program t).Keeps offer gs') (hu : InProgress env program s offer u)
    (hkeeps' : (trace env program u).Keeps offer gs) : ¬t < u := by
  intro hlt
  have hready := hkeeps.slot_next (fits_trace t)
  rw [← trace_succ] at hready
  rcases hu.eq_or_lt (h.lt.trans t.lt_succ_self) hlt hready
    (hkeeps'.slot (reachable_trace u).forces) with heq | hlt'
  · cases heq
  · exact absurd hlt' (Nat.lt_asymm Nat.one_lt_two)

/-- What is kept as the children of a module is what the body yielded when it was taken up. -/
theorem yields_of_keeps (h : InProgress env program s offer t)
    (htakes : (trace env program t).Takes offer) (hu : InProgress env program s offer u)
    (hkeeps : (trace env program u).Keeps offer gs) :
    (trace env program t).Yields env offer gs := by
  have htu : t < u := h.taken_lt htakes hu hkeeps
  obtain ⟨outer, ctx, site, keywords, hcurrent, hoffers, hfound⟩ := htakes
  obtain ⟨n, hforcing, hend⟩ := takes_run hcurrent hoffers hfound
  -- nothing is kept while the body is being run
  have hlate : t + 1 + n ≤ u := by
    by_contra hlt
    obtain ⟨i, rfl⟩ := Nat.exists_eq_add_of_lt htu
    have hstill := hforcing (i + 1) (by omega)
    have hready := hkeeps.slot_next (fits_trace (t + i + 1))
    rw [← trace_succ, show t + i + 1 + 1 = t + 1 + (i + 1) by omega, hstill] at hready
    cases hready
  revert hend
  cases hcollect :
    collect (offer.building env
      (env.host.settings.maxDepth - (trace env program t).world.depth) outer)
      (((trace env program t).world.visit ctx.frame .lookUp).write offer.frame
        (.children .forcing)) with
  | ok gs' w' =>
    intro hkeeps'
    have hprogress : InProgress env program s offer (t + 1 + n) :=
      hu.mono (by have := h.lt; omega) hlate
    have hnow : t + 1 + n = u :=
      Nat.le_antisymm hlate (Nat.not_lt.mp (hprogress.kept_once hkeeps' hu hkeeps))
    subst hnow
    obtain ⟨_, _, -, rfl⟩ := hkeeps
    obtain ⟨_, _, -, rfl⟩ := hkeeps'
    exact ⟨ctx, site, keywords, outer, _, hcurrent, hoffers, hfound,
      Offer.force_of_collect hcollect⟩
  | error e w' =>
    intro hover
    obtain ⟨_, _, hkeep, -⟩ := hkeeps
    rw [(hover.trace hlate).current?] at hkeep
    cases hkeep

/-- Children are selected from what the body yielded on the one run before. -/
theorem yields_of_selects (h : InProgress env program s offer u)
    (hselects : (trace env program u).Selects offer gs) :
    ∃ t, t < u ∧ InProgress env program s offer t ∧ (trace env program t).Yields env offer gs := by
  -- whether they are kept now or were kept before
  have hkept : ∃ v, v ≤ u ∧ InProgress env program s offer v ∧
      (trace env program v).Keeps offer gs := by
    rcases hselects with ⟨outer, hasks⟩ | hkeeps
    · obtain ⟨v, hv, hprogress, hkeeps⟩ := h.exists_kept ((fits_trace u).slot_of_asks hasks)
      exact ⟨v, hv.le, hprogress, hkeeps⟩
    · exact ⟨u, le_rfl, h, hkeeps⟩
  obtain ⟨v, hv, hprogress, hkeeps⟩ := hkept
  obtain ⟨t, ht, hbefore, htakes⟩ :=
    hprogress.exists_taken (hkeeps.slot (reachable_trace v).forces) Nat.one_pos
  exact ⟨t, ht.trans_le hv, hbefore, hbefore.yields_of_keeps htakes hprogress hkeeps⟩

/-- All selections are made from one list. -/
theorem selects_unique (h : InProgress env program s offer t)
    (hselects : (trace env program t).Selects offer gs) (hu : InProgress env program s offer u)
    (hselects' : (trace env program u).Selects offer gs') : gs = gs' := by
  obtain ⟨v, -, hprogress, hyields⟩ := h.yields_of_selects hselects
  obtain ⟨v', -, hprogress', hyields'⟩ := hu.yields_of_selects hselects'
  have hsame : v = v' := hprogress.taken_once hyields.takes hprogress' hyields'.takes
  subst hsame
  exact hyields.unique hyields'

end InProgress

/-- The module whose children are asked for is in progress, and so is no other one in its frame. -/
theorem existsUnique_of_asks {state : Offspring}
    (h : (trace env program t).Asks offer outer state) :
    ∃! s, InProgress env program s offer t := by
  obtain ⟨task, htask, hoffer⟩ := h.exists_task
  obtain ⟨s, hs⟩ := exists_inProgress htask hoffer
  exact ⟨s, hs, fun s' hs' => (hs'.unique hs rfl).1⟩

/-! ## Blocks -/

/-- The step begins a block: its statements are next, in a frame that was not there before and that
is left behind them. -/
def Begins (env : Environment) (m : Machine) (ctx : Context) (block : Program) : Prop :=
  Arena.get? m.world.scopes ctx.frame = none ∧
    ∃ c K, (m.move env).next.tasks = .block ctx block :: .leave ctx.frame c :: K

/-- The occasions on which blocks begin. -/
inductive Occasion (env : Environment) (m : Machine) (block : Program) : Prop where
  /-- A branch is taken. -/
  | branch {ctx : Context} {yes no : Program} (h : m.current? = some (.branch ctx yes no))
    (hblock : block = yes ∨ block = no)
  /-- A loop comes to its next round. -/
  | round {ctx : Context} {vars : LoopRange} {n i : Nat}
    (h : m.current? = some (.rounds ctx vars block (n + 1) i))
  /-- A module is invoked. -/
  | definition {ctx : Context} {closure : ModuleClosure} {site : CallSite} {body : Program}
    {names : List String}
    {specials : List (String × Value)}
    (h : m.current? = some (.start (.module ctx closure site body) names specials))
    (hblock : block = closure.definition.body)
  /-- An operator is applied that has a use for its children. -/
  | operator {ctx : Context} {site : CallSite} {keywords : List (Option String)}
    {operator : Builtin.Operator} {plan : Plan}
    (h : m.current? = some (.operate ctx site keywords block operator))
    (hplan :
      (operator env.host site
        (.ofValues keywords (m.values.take keywords.length).reverse)).run.value = .ok plan)
    (hshape : ∀ g, plan ≠ .shape g)
  /-- A call of `children` takes up an offer. -/
  | offer {offer : Offer} (h : m.Takes offer) (hblock : block = offer.body)

/-- The call of an operator is checked, and then a plan is carried out. -/
lemma compute_checking {α : Type} (m : Machine) (x : Check α) (f : α → Machine → Machine) :
    m.compute (checking x) f =
      match x.run.value with
      | .ok a => f a (m.withLog (m.world.log ++ ⟨x.run.notes⟩))
      | .error e => (m.withLog (m.world.log ++ ⟨x.run.notes⟩)).raise e := by
  unfold Machine.compute checking
  dsimp only
  cases x.run.value <;> rfl

/-- A block that is left by none of the tasks before is the one that is run now. -/
lemma eq_of_tasks_body {parent : FrameId} {block block' : Program} {offers : List Offer}
    {c : Option Call}
    (h : (m.body parent block' offers).tasks = .block ctx block :: .leave ctx.frame c :: K)
    (hno : .leave ctx.frame c ∉ m.tasks) : block = block' := by
  unfold Machine.body at h
  split at h
  · exact absurd (h ▸ mem_cons_of_mem _ mem_cons_self) hno
  · cases h
    rfl

/-- Blocks begin on no other occasions. -/
theorem Begins.occasion {P : RuntimeError → Prop} (hfits : m.Fits env P) {block : Program}
    (h : m.Begins env ctx block) : m.Occasion env block := by
  obtain ⟨hfresh, c, K, hnext⟩ := h
  have hno : .leave ctx.frame c ∉ m.tasks := by
    intro hmem
    have hsome := (hfits.sound.isSome_iff ctx.frame).mpr (mem_filterMap.mpr ⟨_, hmem, rfl⟩)
    rw [hfresh] at hsome
    exact absurd hsome Bool.false_ne_true
  have hmem : .leave ctx.frame c ∈ (m.move env).next.tasks := by
    rw [hnext]
    exact mem_cons_of_mem _ mem_cons_self
  rcases mem_tasks_next hmem with hold | ⟨t, K', herror, htasks, hbegets | ⟨hopens, -⟩⟩
  · exact absurd hold hno
  · exact absurd hbegets.frame? (Option.some_ne_none _)
  obtain ⟨w, vs, cs, rfl⟩ := Machine.eq_running herror htasks
  have hrest : .leave ctx.frame c ∉ K' := fun hK' => hno (mem_cons_of_mem _ hK')
  clear hfits hfresh hno
  cases t with
  | start call names specials =>
    cases call with
    | function closure site => cases hnext
    | module ctx' closure site body =>
      cases hnext
      exact .definition rfl rfl
  | branch ctx' yes no =>
    have hbranch : (if ((vs.take 1).reverse.headD .undefined).isTruthy
        then (running w K' (vs.drop 1) cs).body ctx'.frame yes ctx'.offers
        else (running w K' (vs.drop 1) cs).body ctx'.frame no ctx'.offers).tasks =
          .block ctx block :: .leave ctx.frame c :: K := hnext
    split at hbranch
    · exact .branch rfl (.inl (eq_of_tasks_body hbranch hrest))
    · exact .branch rfl (.inr (eq_of_tasks_body hbranch hrest))
  | rounds ctx' vars body n i =>
    cases n with
    | zero => exact absurd hmem hrest
    | succ n =>
      cases hnext
      exact .round rfl
  | operate ctx' site keywords body operator =>
    let args : Arguments := .ofValues keywords (vs.take keywords.length).reverse
    have hoperate :
      ((running w K' (vs.drop keywords.length) cs).compute
        (checking (operator env.host site args))
        fun plan m => m.carryOut ctx' site body plan).tasks =
        .block ctx block :: .leave ctx.frame c :: K := hnext
    rw [compute_checking] at hoperate
    cases hplan : (operator env.host site args).run.value with
    | error e =>
      rw [hplan] at hoperate
      have hK : K' = .block ctx block :: .leave ctx.frame c :: K := hoperate
      rw [hK] at hrest
      exact absurd (mem_cons_of_mem _ mem_cons_self) hrest
    | ok plan =>
      rw [hplan] at hoperate
      cases plan with
      | shape g => cases hoperate
      | relay =>
        obtain rfl := eq_of_tasks_body hoperate hrest
        exact .operator rfl hplan nofun
      | fold join change =>
        obtain rfl := eq_of_tasks_body hoperate fun hmem =>
          hrest ((mem_cons.mp hmem).resolve_left nofun)
        exact .operator rfl hplan nofun
  | ask ctx' site keywords =>
    rcases perform_ask env w K' vs cs ctx' site keywords with
      ⟨offer, outer, hoffers, hfound, hperform⟩ | hdrop
    · have htaken : (takeUp w K' vs cs ctx' site keywords offer outer).tasks =
          .block ctx block :: .leave ctx.frame c :: K := by
        rw [← hperform]
        exact hnext
      refine .offer ⟨outer, ctx', site, keywords, rfl, hoffers, hfound⟩ (eq_of_tasks_body htaken ?_)
      exact fun hmem => hrest ((mem_cons.mp hmem).resolve_left nofun)
    · rcases hdrop.mem_tasks hmem with hold | hbegets | ⟨hopens, -⟩
      · exact absurd hold hrest
      · exact absurd hbegets.frame? (Option.some_ne_none _)
      · exact absurd hopens Bool.false_ne_true
  | _ => exact absurd hopens Bool.false_ne_true

/-- Step `t` begins the body of the invocation that is made at step `s`, of an operator or of a
module. -/
def StartsBody (env : Environment) (program : Program) (s t : Nat) : Prop :=
  ∃ ctx block, (trace env program t).Begins env ctx block ∧
    ((t = s ∧ ∃ ctx' site keywords operator,
        (trace env program s).current? = some (.operate ctx' site keywords block operator)) ∨
      ∃ offer, InProgress env program s offer t ∧ (trace env program t).Takes offer ∧
        block = offer.body)

/-- An invocation is of an operator or of a module. -/
lemma Invokes.current?_ne (h : m.Invokes offer) {body : Program} {operator : Builtin.Operator} :
    m.current? ≠ some (.operate ctx site keywords body operator) := by
  obtain ⟨_, _, _, _, hcurrent, -⟩ := h
  rw [hcurrent]
  rintro ⟨⟩

/-- The body of an invocation begins at most once. -/
theorem StartsBody.unique {t' : Nat} (h : StartsBody env program s t)
    (h' : StartsBody env program s t') : t = t' := by
  obtain ⟨_, _, -, ⟨rfl, _, _, _, _, hoperate⟩ | ⟨offer, hprogress, htakes, -⟩⟩ := h
  · obtain ⟨_, _, -, ⟨rfl, -⟩ | ⟨offer', hprogress', -, -⟩⟩ := h'
    · rfl
    · exact absurd hoperate hprogress'.invoked.current?_ne
  · obtain ⟨_, _, -, ⟨rfl, _, _, _, _, hoperate⟩ | ⟨offer', hprogress', htakes', -⟩⟩ := h'
    · exact absurd hoperate hprogress.invoked.current?_ne
    · obtain rfl := hprogress.invoked.unique hprogress'.invoked
      exact hprogress.taken_once htakes hprogress' htakes'

/-- The body of a module begins when a call of `children` takes it up. -/
lemma StartsBody.takes (h : StartsBody env program s t)
    (hinvokes : (trace env program s).Invokes offer) :
    InProgress env program s offer t ∧ (trace env program t).Takes offer := by
  obtain ⟨_, _, -, ⟨-, _, _, _, _, hoperate⟩ | ⟨offer', hprogress, htakes, -⟩⟩ := h
  · exact absurd hoperate hinvokes.current?_ne
  · obtain rfl := hinvokes.unique hprogress.invoked
    exact ⟨hprogress, htakes⟩

/-- A primitive shape has no use for its body. -/
lemma StartsBody.not_primitive (h : StartsBody env program s t) {body : Program}
    {operator : Builtin.Operator}
    (hoperate : (trace env program s).current? = some (.operate ctx site keywords body operator)) :
    ¬operator.IsPrimitive := by
  intro hprimitive
  obtain ⟨ctx', block, hbegins, ⟨rfl, -⟩ | ⟨offer, hprogress, -, -⟩⟩ := h
  · cases hbegins.occasion (fits_trace t) with
    | branch h | round h | definition h => cases hoperate.symm.trans h
    | offer h =>
      obtain ⟨_, _, _, _, h, -⟩ := h
      cases hoperate.symm.trans h
    | operator h hplan hshape =>
      cases hoperate.symm.trans h
      obtain ⟨g, rfl⟩ := hprimitive _ _ _ _ hplan
      exact hshape g rfl
  · exact hprogress.invoked.current?_ne hoperate

/-- A step that selects children emits some of the list. -/
lemma Selects.move (h : m.Selects offer gs) :
    ∃ m₁ site args, m.move env = .step (Machine.select m₁ gs site args) := by
  rcases h with ⟨outer, ctx, site, keywords, hcurrent, hoffers, hfound⟩
    | ⟨site, args, hcurrent, rfl⟩
  · obtain ⟨w, K, vs, cs, rfl⟩ := exists_running hcurrent
    let found : Machine := running (w.visit ctx.frame .lookUp) K (vs.drop keywords.length) cs
    refine ⟨found, site, .ofValues keywords (vs.take keywords.length).reverse, ?_⟩
    show Move.step ((Task.ask ctx site keywords).perform env (running w K vs cs)) = _
    rw [perform_ask_eq, hoffers, show w.scopes.children? ctx.frame = some (.ready gs) from hfound]
  · obtain ⟨w, K, vs, cs, rfl⟩ := exists_running hcurrent
    exact ⟨_, site, args, rfl⟩

end Machine

namespace Evaluation

open Machine (trace InProgress StartsBody)

/-- A body is run at most once, in all runs of all programs. Blocks begin on few occasions only, and
among them the body of an invocation at most once: never if the operator is a primitive shape, which
the built-in bodies are, and of a module only by a call of `children` that resolves to the
invocation. Each such call resolves to one invocation. All of them that resolve to the same one
select from one list, which is what the body yielded when it was run. -/
theorem bodies_run_once (env : Environment) (program : Program) :
    (∀ k, ∃ n, (trace env program n).Represents env ((start env program).after k)) ∧
      (∀ t ctx block, (trace env program t).Begins env ctx block →
      (trace env program t).Occasion env block) ∧
      (∀ s t t', StartsBody env program s t → StartsBody env program s t' → t = t') ∧
      (∀ s ctx site keywords body operator,
        (trace env program s).current? = some (.operate ctx site keywords body operator) →
        operator.IsPrimitive →
          ∀ t, ¬StartsBody env program s t) ∧
      (∀ name ∈ Builtin.bodies, ∃ operator, Registry.standard.operators.lookup name =
      some operator ∧ operator.IsPrimitive) ∧
      (∀ s offer, (trace env program s).Invokes offer →
        (∀ t outer state, InProgress env program s offer t →
        ¬(trace env program t).Asks offer outer state) →
          ∀ t, ¬StartsBody env program s t) ∧
      (∀ t offer outer state, (trace env program t).Asks offer outer state →
      ∃! s, InProgress env program s offer t) ∧
      ∀ s offer t gs, InProgress env program s offer t → (trace env program t).Selects offer gs →
        (∃ m site args, (trace env program t).move env = .step (Machine.select m gs site args)) ∧
          (∃ t₀, t₀ < t ∧ InProgress env program s offer t₀ ∧
          (trace env program t₀).Yields env offer gs) ∧
          ∀ t' gs', InProgress env program s offer t' → (trace env program t').Selects offer gs' →
          gs' = gs := by
  refine ⟨fun k => ?_, fun t ctx block h => h.occasion (Machine.fits_trace t),
    fun s t t' h h' => h.unique h', fun s ctx site keywords body operator hoperate hprimitive t h =>
      h.not_primitive hoperate hprimitive,
    fun name hname => Builtin.exists_of_mem_bodies hname, fun s offer hinvokes hno t h => ?_,
    fun t offer outer state hasks => Machine.existsUnique_of_asks hasks,
    fun s offer t gs hprogress hselects =>
      ⟨hselects.move, hprogress.yields_of_selects hselects, ?_⟩⟩
  · obtain ⟨m, hm⟩ := Machine.exists_after env program k
    obtain ⟨n, rfl⟩ := hm.reachable.exists_trace
    exact ⟨n, hm.represents⟩
  · obtain ⟨hprogress, outer, hasks⟩ := h.takes hinvokes
    exact hno t outer .pending hprogress hasks
  · exact fun t' gs' hprogress' hselects' => hprogress'.selects_unique hselects' hprogress hselects

/-- A module that asks for its children twice, and a ball as its body. -/
def twiceProgram : Program :=
  [.defineModule .start
    ⟨"m", [], [.invoke .start "children" [] [], .invoke .start "children" [] []]⟩,
    .invoke .start "m" [] [.invoke .start "sphere" [] []]]

/-- What the module is given. -/
def twiceOffer : Offer := ⟨⟨"m", .start⟩, [.invoke .start "sphere" [] []], ⟨0, 0⟩, ⟨1, 0⟩⟩

/-- The module is invoked at step 4. The first of its calls begins the body at step 6, and the
second one selects from the same ball at step 17. -/
theorem bodies_run_once_twice :
    (InProgress plainEnvironment twiceProgram 4 twiceOffer 17 ∧
      StartsBody plainEnvironment twiceProgram 4 6 ∧
        (trace plainEnvironment twiceProgram 17).Selects twiceOffer [.sphere 1.0]) ∧
      (∀ t, StartsBody plainEnvironment twiceProgram 4 t → t = 6) ∧
      ∃ t₀, t₀ < 17 ∧ InProgress plainEnvironment twiceProgram 4 twiceOffer t₀ ∧
        (trace plainEnvironment twiceProgram t₀).Yields plainEnvironment twiceOffer
        [.sphere 1.0] := by
  obtain ⟨-, -, honce, -, -, -, -, hselects⟩ := bodies_run_once plainEnvironment twiceProgram
  have hprogress : InProgress plainEnvironment twiceProgram 4 twiceOffer 17 := by
    refine ⟨⟨_, _, _, _, rfl, rfl, rfl⟩, by decide, fun u hs ht => ?_⟩
    interval_cases u <;> rfl
  have hstarts : StartsBody plainEnvironment twiceProgram 4 6 :=
    ⟨_, _, ⟨rfl, _, _, rfl⟩,
      .inr ⟨twiceOffer, hprogress.mono (by decide) (by decide), ⟨_, _, _, _, rfl, rfl, rfl⟩, rfl⟩⟩
  have hsecond : (trace plainEnvironment twiceProgram 17).Selects twiceOffer [.sphere 1.0] :=
    .inl ⟨_, _, _, _, rfl, rfl, rfl⟩
  exact ⟨⟨hprogress, hstarts, hsecond⟩, fun t ht => honce 4 t 6 ht hstarts,
    (hselects 4 _ 17 _ hprogress hsecond).2.1⟩

end Evaluation

end SolidScript
