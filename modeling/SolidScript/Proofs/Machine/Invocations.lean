import SolidScript.Proofs.Machine.Slots

/-!
# Invocations of modules in the course of a run

An id is given out again when the generations of its slot have all been used, so the frame of a
module does not tell for good which invocation it belongs to. It does so while the module is in
progress: then every offer that a task is done with comes from exactly one invocation.
-/

namespace SolidScript

open List Nat

open Machine (running)

/-- How far the body of an invocation has been run. -/
def Offspring.rank : Offspring → Nat
  | pending => 0
  | forcing => 1
  | ready _ => 2

namespace Machine

variable {env : Environment} {program : Program} {m : Machine} {offer : Offer}

/-! ## Runs -/

/-- The machine that runs a program after so many steps. Between pulls, what was reported is handed
over. -/
def trace (env : Environment) (program : Program) (n : Nat) : Machine :=
  (fun m => (m.move env).next)^[n] (.start program)

variable (n : Nat) {gs : List (Geometry Float)}

lemma trace_succ : trace env program (n + 1) = ((trace env program n).move env).next :=
  Function.iterate_succ_apply' _ _ _

lemma trace_add (i : Nat) :
    trace env program (n + i) = (fun m => (m.move env).next)^[i] (trace env program n) := by
  rw [add_comm]
  exact Function.iterate_add_apply _ i n _

lemma reachable_trace : Reachable env program (trace env program n) := Reachable.start.iterate n

lemma Reachable.exists_trace (h : Reachable env program m) : ∃ n, trace env program n = m := by
  induction h with
  | start => exact ⟨0, rfl⟩
  | next _ ih =>
    obtain ⟨n, rfl⟩ := ih
    exact ⟨n + 1, trace_succ n⟩

lemma fits_trace : (trace env program n).Fits env fun _ => True :=
  (reachable_trace n).fits (raises_any env)

lemma turns_trace (id : FrameId) :
    (trace env program n).Turns id ((trace env program n).slot id)
      ((trace env program (n + 1)).slot id) := by
  rw [trace_succ]
  exact (reachable_trace n).turns id

/-! ## Invocations in progress -/

/-- At step `s` a module was invoked with an offer, and before step `t` its frame has not been
left. -/
structure InProgress (env : Environment) (program : Program) (s : Nat) (offer : Offer) (t : Nat) :
    Prop where
  invoked : (trace env program s).Invokes offer
  lt : s < t
  alive (u : Nat) (hs : s < u) (ht : u ≤ t) : ((trace env program u).slot offer.frame).isSome

/-- The frame of a module is a fresh one. -/
lemma Invokes.slot_eq_none (h : m.Invokes offer) (hs : Arena.WellFormed m.world.scopes) :
    m.slot offer.frame = none := by
  obtain ⟨ctx, closure, names, specials, -, -, hframe⟩ := h
  have hfresh : Arena.get? m.world.scopes (m.world.openInside closure.frame).1 = none :=
    Arena.get?_push_id hs _
  rw [slot, Scopes.slot, hframe, hfresh]
  rfl

/-- A step invokes one module at most. -/
lemma Invokes.unique {offer' : Offer} (h : m.Invokes offer) (h' : m.Invokes offer') :
    offer = offer' := by
  obtain ⟨ctx, closure, names, specials, hcurrent, hcaller, hframe⟩ := h
  obtain ⟨ctx', closure', names', specials', hcurrent', hcaller', hframe'⟩ := h'
  obtain ⟨site, body, caller, frame⟩ := offer
  obtain ⟨site', body', caller', frame'⟩ := offer'
  cases hcurrent.symm.trans hcurrent'
  cases hcaller.trans hcaller'.symm
  cases hframe.trans hframe'.symm
  rfl

namespace InProgress

variable {s s' t u : Nat} {offer' : Offer}

variable (h : InProgress env program s offer t)
include h

lemma mono (hs : s < u) (ht : u ≤ t) : InProgress env program s offer u :=
  ⟨h.invoked, hs, fun v hv hvu => h.alive v hv (hvu.trans ht)⟩

lemma succ (hsome : ((trace env program (t + 1)).slot offer.frame).isSome) :
    InProgress env program s offer (t + 1) := by
  refine ⟨h.invoked, h.lt.trans t.lt_succ_self, fun u hs ht => ?_⟩
  rcases le_or_eq_of_le_succ ht with ht | rfl
  · exact h.alive u hs ht
  · exact hsome

/-- While a module is in progress, no other one is invoked in its frame. -/
lemma not_lt (h' : InProgress env program s' offer' t)
    (hframe : offer.frame = offer'.frame) : ¬s < s' := by
  intro hlt
  have hnone := h'.invoked.slot_eq_none (fits_trace s').sound.wellFormed
  have hsome := h.alive s' hlt h'.lt.le
  rw [hframe, hnone] at hsome
  exact absurd hsome Bool.false_ne_true

/-- A frame belongs to one invocation at a time. -/
lemma unique (h' : InProgress env program s' offer' t)
    (hframe : offer.frame = offer'.frame) : s = s' ∧ offer = offer' := by
  have hs : s = s' :=
    Nat.le_antisymm (Nat.not_lt.mp (h'.not_lt h hframe.symm)) (Nat.not_lt.mp (h.not_lt h' hframe))
  subst hs
  exact ⟨rfl, h.invoked.unique h'.invoked⟩

end InProgress

/-! ## Offers -/

/-- The modules that were given the offers of a task are in progress. -/
lemma isSome_slot_of_offers {P : RuntimeError → Prop} {s : Scopes} {ts : List Task}
    (h : Task.AllFit env P s ts) {t : Task} (ht : t ∈ ts) (hoffer : offer ∈ t.offers) :
    (s.slot offer.frame).isSome := by
  have hlive {f : Frame} (hf : Arena.get? s offer.frame = some f) (hsome : f.children.isSome) :
      (s.slot offer.frame).isSome := by
    rw [Scopes.slot, hf]
    exact hsome
  have hctx {K : List Task} {ctx : Context} (hfits : ctx.Fits s K) (hmem : offer ∈ ctx.offers) :
      (s.slot offer.frame).isSome := by
    obtain ⟨-, f, hf, hsome⟩ := hfits.linked.exists_frame hmem
    exact hlive hf hsome
  have hcall {K : List Task} {c : Call} (hfits : c.Fits s K) (hmem : offer ∈ c.offers) :
      (s.slot offer.frame).isSome := by
    cases c with
    | function closure site => exact absurd hmem not_mem_nil
    | module ctx closure site body => exact hctx hfits.2 hmem
  induction ts with
  | nil => exact absurd ht not_mem_nil
  | cons first K ih =>
    rcases mem_cons.mp ht with rfl | ht
    · cases t with
      | block | branch | loop | rounds | ask => exact hctx h.1 hoffer
      | operate => exact hctx h.1.1 hoffer
      | enter | start => exact hcall h.1 hoffer
      | keep kept =>
        obtain rfl := mem_singleton.mp hoffer
        obtain ⟨⟨f, hf, hsome⟩, -⟩ := h.1
        exact hlive hf hsome
      | _ => exact absurd hoffer not_mem_nil
    · exact ih h.2 ht

/-- What a module is invoked with is offered to its body. -/
lemma tasks_invoke (m : Machine) (ctx : Context) (closure : ModuleClosure) (site : CallSite)
    (body : Program) (names : List String) (specials : List (String × Value)) :
    let id := (m.world.openInside closure.frame).1
    ((Task.start (.module ctx closure site body) names specials).perform env m).tasks =
      .block ⟨id, ⟨site, body, ctx.frame, id⟩ :: ctx.offers⟩ closure.definition.body ::
        .leave id (some (.module ctx closure site body)) :: m.tasks := rfl

/-- Offers of tasks are handed on, or made by the step. -/
lemma offers_next {t' : Task} (ht' : t' ∈ (m.move env).next.tasks) (hoffer : offer ∈ t'.offers) :
    (∃ t ∈ m.tasks, offer ∈ t.offers) ∨ m.Invokes offer := by
  rcases mem_tasks_next ht' with hold | ⟨t, K, herror, htasks, hbegets | ⟨-, id, c, rfl⟩⟩
  · exact .inl ⟨t', hold, hoffer⟩
  · rcases hbegets.offers offer hoffer with hold | hmade
    · exact .inl ⟨t, htasks ▸ mem_cons_self, hold⟩
    · -- only a module that is invoked is made an offer, and only the task that runs its body has it
      obtain ⟨w, vs, cs, rfl⟩ := Machine.eq_running herror htasks
      cases t with
      | start c names specials =>
        cases c with
        | function closure site => exact hmade.elim
        | module ctx closure site body =>
          have htasks :
              t' ∈ ((Task.start (.module ctx closure site body) names specials).perform env
                (running w K vs cs)).tasks :=
            ht'
          rw [tasks_invoke] at htasks
          rcases mem_cons.mp htasks with rfl | htasks
          · rcases mem_cons.mp hoffer with rfl | hold
            · exact .inr ⟨ctx, closure, names, specials, rfl, rfl, rfl⟩
            · exact .inl ⟨_, mem_cons_self, hold⟩
          · rcases mem_cons.mp htasks with rfl | htasks
            · exact absurd hoffer not_mem_nil
            · exact .inl ⟨t', mem_cons_of_mem _ htasks, hoffer⟩
      | _ => exact hmade.elim
  · exact absurd hoffer not_mem_nil

/-- Every offer of a task comes from an invocation that is in progress. -/
theorem exists_inProgress {n : Nat} {t : Task} (ht : t ∈ (trace env program n).tasks)
    (hoffer : offer ∈ t.offers) : ∃ s, InProgress env program s offer n := by
  induction n generalizing t with
  | zero =>
    rcases mem_cons.mp ht with rfl | ht
    · exact absurd hoffer not_mem_nil
    · obtain rfl := mem_singleton.mp ht
      exact absurd hoffer not_mem_nil
  | succ n ih =>
    have hsome := isSome_slot_of_offers (fits_trace (n + 1)).fits ht hoffer
    rw [trace_succ] at ht
    rcases offers_next ht hoffer with ⟨t', ht', hold⟩ | hinvokes
    · obtain ⟨s, hs⟩ := ih ht' hold
      exact ⟨s, hs.succ hsome⟩
    · refine ⟨n, hinvokes, n.lt_succ_self, fun u hn hu => ?_⟩
      obtain rfl : u = n + 1 := le_antisymm hu hn
      exact hsome

/-! ## Children in the course of an invocation -/

/-- While a frame is not left, its body is only run further. -/
lemma Turns.eq_or_lt {id : FrameId} {x y : Offspring} (h : m.Turns id (some x) (some y)) :
    x = y ∨ x.rank < y.rank := by
  cases h with
  | same => exact .inl rfl
  | taken | kept => exact .inr (lt_succ_self _)

lemma Takes.slot_next (h : m.Takes offer) (hfits : m.Fits env fun _ => True) :
    (m.move env).next.slot offer.frame = some .forcing := by
  obtain ⟨outer, hasks⟩ := h
  have hpending : m.slot offer.frame = some .pending := hfits.slot_of_asks hasks
  obtain ⟨ctx, site, keywords, hcurrent, hoffers, hfound⟩ := hasks
  obtain ⟨w, K, vs, cs, rfl⟩ := exists_running hcurrent
  show ((Task.ask ctx site keywords).perform env (running w K vs cs)).slot offer.frame = _
  rw [perform_ask_of_pending env K vs cs hoffers hfound,
    slot_takeUp hfits.sound.wellFormed ctx site keywords hpending]
  exact if_pos rfl

lemma Keeps.slot_next (h : m.Keeps offer gs) (hfits : m.Fits env fun _ => True) :
    (m.move env).next.slot offer.frame = some (.ready gs) := by
  obtain ⟨site, args, hcurrent, rfl⟩ := h
  obtain ⟨w, K, vs, cs, rfl⟩ := exists_running hcurrent
  obtain ⟨⟨f, hf, -⟩, -⟩ := hfits.fits.1
  show ((Task.keep offer site args).perform env (running w K vs cs)).slot offer.frame = _
  rw [slot_keep hfits.sound.wellFormed (Option.isSome_of_eq_some hf)]
  exact if_pos rfl

lemma Keeps.slot (h : m.Keeps offer gs) (hforces : m.Forces) :
    m.slot offer.frame = some .forcing := by
  obtain ⟨site, args, K, htasks⟩ := h.exists_tasks
  refine hforces.forcing offer.frame ?_
  rw [htasks]
  exact mem_cons_self

namespace InProgress

variable {s t u v : Nat}

/-- When a module has just been invoked, its body has not been run. -/
lemma slot_first (h : InProgress env program s offer t) :
    (trace env program (s + 1)).slot offer.frame = some .pending := by
  obtain ⟨ctx, closure, names, specials, hcurrent, -, hframe⟩ := h.invoked
  have hfits : (trace env program s).Fits env fun _ => True := fits_trace s
  rw [trace_succ]
  generalize trace env program s = m at *
  obtain ⟨w, K, vs, cs, rfl⟩ := exists_running hcurrent
  show ((Task.start (.module ctx closure offer.site offer.body) names specials).perform env
    (running w K vs cs)).slot
    offer.frame = _
  rw [slot_invoke hfits.sound.wellFormed]
  exact if_pos hframe

/-- In the course of an invocation, its body is only run further. -/
lemma eq_or_lt (h : InProgress env program s offer v) (hs : s < u) (huv : u ≤ v) {x y : Offspring}
    (hx : (trace env program u).slot offer.frame = some x)
    (hy : (trace env program v).slot offer.frame = some y) : x = y ∨ x.rank < y.rank := by
  induction v, huv using le_induction generalizing y with
  | base => exact .inl (Option.some.inj (hx.symm.trans hy))
  | succ v huv ih =>
    have hv := h.mono (hs.trans_le huv) v.le_succ
    obtain ⟨z, hz⟩ := Option.isSome_iff_exists.mp (hv.alive v hv.lt le_rfl)
    have hturns : (trace env program v).Turns offer.frame _ _ := turns_trace v offer.frame
    rw [hz, hy] at hturns
    rcases ih hv hz with rfl | hlt
    · exact hturns.eq_or_lt
    · rcases hturns.eq_or_lt with rfl | hlt'
      · exact .inr hlt
      · exact .inr (hlt.trans hlt')

variable (h : InProgress env program s offer t)
include h

/-- An offer of a task that is done while a module is in progress in its frame is the one that this
module was given. -/
lemma eq_of_mem_offers {task : Task} (htask : task ∈ (trace env program t).tasks) {offer' : Offer}
    (hoffer' : offer' ∈ task.offers) (hframe : offer'.frame = offer.frame) : offer' = offer := by
  obtain ⟨s', hs'⟩ := exists_inProgress htask hoffer'
  exact (hs'.unique h hframe).2

lemma eq_of_takes {offer' : Offer} (htakes : (trace env program t).Takes offer')
    (hframe : offer'.frame = offer.frame) : offer' = offer := by
  obtain ⟨outer, hasks⟩ := htakes
  obtain ⟨task, htask, hoffer'⟩ := hasks.exists_task
  exact h.eq_of_mem_offers htask hoffer' hframe

lemma eq_of_keeps {offer' : Offer} (hkeeps : (trace env program t).Keeps offer' gs)
    (hframe : offer'.frame = offer.frame) : offer' = offer := by
  obtain ⟨site, args, K, htasks⟩ := hkeeps.exists_tasks
  exact h.eq_of_mem_offers (htasks ▸ mem_cons_self) mem_cons_self hframe

/-- An offer is taken up at most once. -/
theorem taken_once (htakes : (trace env program t).Takes offer)
    (hu : InProgress env program s offer u) (htakes' : (trace env program u).Takes offer) :
    t = u := by
  -- a body that is being run is not pending any more
  have hnot {t u : Nat} (h : InProgress env program s offer t)
    (htakes : (trace env program t).Takes offer)
      (hu : InProgress env program s offer u) (htakes' : (trace env program u).Takes offer) :
      ¬t < u := by
    intro hlt
    obtain ⟨outer, hasks⟩ := htakes'
    have hforcing := htakes.slot_next (fits_trace t)
    rw [← trace_succ] at hforcing
    rcases hu.eq_or_lt (h.lt.trans t.lt_succ_self) hlt hforcing
      ((fits_trace u).slot_of_asks hasks) with heq | hlt'
    · cases heq
    · exact absurd hlt' (Nat.not_lt_zero _)
  exact Nat.le_antisymm (Nat.not_lt.mp (hnot hu htakes' h htakes))
    (Nat.not_lt.mp (hnot h htakes hu htakes'))

/-- A body that is being run, or has been run, was taken up before. -/
theorem exists_taken {x : Offspring} (hx : (trace env program t).slot offer.frame = some x)
    (hrank : 0 < x.rank) :
    ∃ u, u < t ∧ InProgress env program s offer u ∧ (trace env program u).Takes offer := by
  induction t generalizing x with
  | zero => exact absurd h.lt (not_lt_zero s)
  | succ t ih =>
    rcases eq_or_lt_of_le (le_of_lt_succ h.lt) with rfl | hlt
    · cases h.slot_first.symm.trans hx
      exact absurd hrank (lt_irrefl 0)
    · have ht := h.mono hlt t.le_succ
      obtain ⟨y, hy⟩ := Option.isSome_iff_exists.mp (ht.alive t hlt le_rfl)
      have hearlier (hrank : 0 < y.rank) :
          ∃ u, u < t + 1 ∧ InProgress env program s offer u ∧
            (trace env program u).Takes offer := by
        obtain ⟨u, hu, hprogress, htakes⟩ := ih ht hy hrank
        exact ⟨u, hu.trans t.lt_succ_self, hprogress, htakes⟩
      have hturns : (trace env program t).Turns offer.frame _ _ := turns_trace t offer.frame
      rw [hy, hx] at hturns
      cases hturns with
      | same => exact hearlier hrank
      | taken htakes hframe => exact ⟨t, t.lt_succ_self, ht, ht.eq_of_takes htakes hframe ▸ htakes⟩
      | kept => exact hearlier one_pos

/-- What the frame of a module has ready was kept before. -/
theorem exists_kept (hready : (trace env program t).slot offer.frame = some (.ready gs)) :
    ∃ u, u < t ∧ InProgress env program s offer u ∧ (trace env program u).Keeps offer gs := by
  induction t with
  | zero => exact absurd h.lt (not_lt_zero s)
  | succ t ih =>
    rcases eq_or_lt_of_le (le_of_lt_succ h.lt) with rfl | hlt
    · cases h.slot_first.symm.trans hready
    · have ht := h.mono hlt t.le_succ
      obtain ⟨y, hy⟩ := Option.isSome_iff_exists.mp (ht.alive t hlt le_rfl)
      have hturns : (trace env program t).Turns offer.frame _ _ := turns_trace t offer.frame
      rw [hy, hready] at hturns
      cases hturns with
      | same =>
        obtain ⟨u, hu, hprogress, hkeeps⟩ := ih ht hy
        exact ⟨u, hu.trans t.lt_succ_self, hprogress, hkeeps⟩
      | kept hkeeps hframe => exact ⟨t, t.lt_succ_self, ht, ht.eq_of_keeps hkeeps hframe ▸ hkeeps⟩

end InProgress

end Machine

end SolidScript
