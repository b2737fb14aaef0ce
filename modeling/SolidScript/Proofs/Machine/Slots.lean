import SolidScript.Proofs.Machine.Acts

/-!
# How the children of a module come about

The frame of a module keeps how far the body of its invocation has been run: not yet, it is being
run, or it has yielded so much. Steps change this in one order only. The module is invoked, a call
of `children` takes the body up, what has been collected is kept, and at last the frame is left.
-/

namespace SolidScript

open Arena List SolidScript.Task Scopes

open Machine (running failing)

/-! ## Slots -/

variable {state : Offspring}

namespace Scopes

variable {s : Scopes} {id : FrameId}

/-- What the frame of an id keeps as the children of a module; nothing unless a module's frame is
alive there. -/
def slot (s : Scopes) (id : FrameId) : Option Offspring := (Arena.get? s id).bind Frame.children

/-- A fresh frame keeps no children. -/
lemma slot_enter (hs : WellFormed s) (parent : Option FrameId) (j : FrameId) :
    (s.enter parent).2.slot j = s.slot j := by
  unfold slot
  rw [get?_enter hs]
  split
  · rename_i heq
    subst heq
    have hfresh : get? s (s.enter parent).1 = none := get?_push_id hs _
    rw [hfresh]
    rfl
  · rfl

/-- To bind a name is no matter of children. -/
lemma slot_write {c : Change} (hc : ∀ f, (c.apply id f).children = f.children) (j : FrameId) :
    (s.write id c).slot j = s.slot j := by
  unfold slot
  rw [get?_write]
  split
  · rename_i heq
    subst heq
    cases get? s j with
    | none => rfl
    | some f => exact hc f
  · rfl

lemma slot_write_children (hid : (get? s id).isSome) (state : Offspring) (j : FrameId) :
    (s.write id (.children state)).slot j = if j = id then some state else s.slot j := by
  unfold slot
  rw [get?_write]
  split
  · obtain ⟨f, hf⟩ := Option.isSome_iff_exists.mp hid
    rw [hf]
    rfl
  · rfl

lemma slot_release (j : FrameId) : slot (release s id) j = if j = id then none else s.slot j := by
  unfold slot
  rw [get?_release]
  split <;> rfl

lemma isSome_of_slot (h : s.slot id = some state) : (get? s id).isSome := by
  unfold slot at h
  cases hf : get? s id with
  | none =>
    rw [hf] at h
    exact absurd h (Option.some_ne_none state).symm
  | some f => rfl

end Scopes

/-- A task that neither leaves a block nor sets the children of a module. -/
def Task.mild : Task → Bool
  | .leave _ _ | .start (.module _ _ _ _) _ _ | .ask _ _ _ | .keep _ _ _ => false
  | _ => true

namespace Task

variable {S : Stock} {t : Task} {m m' : Machine}

lemma not_sets_of_mild (ht : t.mild) (state : Offspring) : ¬t.Sets state := by
  cases t with
  | start c => cases c <;> first | exact id | exact absurd ht Bool.false_ne_true
  | leave | ask | keep => exact absurd ht Bool.false_ne_true
  | _ => exact id

/-- Mild tasks leave alone what frames keep as children. -/
lemma Act.slot (h : t.Act S m m') (ht : t.mild) (hs : WellFormed m.world.scopes) :
    WellFormed m'.world.scopes ∧ ∀ id, m'.world.scopes.slot id = m.world.scopes.slot id := by
  cases h with
  | hear hw =>
    rw [hw.scopes]
    exact ⟨hs, fun _ => rfl⟩
  | @write frame c hc =>
    refine ⟨hs.modify _, slot_write fun f => ?_⟩
    cases c with
    | children state => exact absurd hc (not_sets_of_mild ht state)
    | _ => rfl
  | block _ parent c => exact ⟨hs.push _, slot_enter hs _⟩
  | leave hleave =>
    subst hleave
    exact absurd ht Bool.false_ne_true
  | _ => exact ⟨hs, fun _ => rfl⟩

lemma Acts.slot (h : t.Acts S m m') (ht : t.mild) (hs : WellFormed m.world.scopes) :
    WellFormed m'.world.scopes ∧ ∀ id, m'.world.scopes.slot id = m.world.scopes.slot id := by
  induction h with
  | refl => exact ⟨hs, fun _ => rfl⟩
  | tail _ hact ih =>
    obtain ⟨hs', hslot⟩ := hact.slot ht ih.1
    exact ⟨hs', fun id => (hslot id).trans (ih.2 id)⟩

lemma Performs.slot (h : t.Performs S m m') (ht : t.mild) (hs : WellFormed m.world.scopes)
    (id : FrameId) : m'.world.scopes.slot id = m.world.scopes.slot id := by
  rcases h with h | ⟨m₁, e, h, -, rfl⟩
  · exact (h.slot ht hs).2 id
  · exact (h.slot ht hs).2 id

end Task

/-! ## Steps that matter -/

namespace Machine

variable {env : Environment} {program : Program} {m : Machine}

/-- What a frame keeps as the children of a module. -/
abbrev slot (m : Machine) (id : FrameId) : Option Offspring := m.world.scopes.slot id

/-- The task that the next step performs. -/
def current? (m : Machine) : Option Task :=
  match m.error with
  | none => m.tasks.head?
  | some _ => none

variable {t : Task} {offer : Offer} {P : RuntimeError → Prop}

lemma current?_eq_some : m.current? = some t ↔ m.error = none ∧ ∃ K, m.tasks = t :: K := by
  obtain ⟨w, ts, vs, cs, error⟩ := m
  cases error with
  | some e => simp [current?]
  | none => cases ts <;> simp [current?]

lemma exists_running (h : m.current? = some t) : ∃ w K vs cs, m = running w (t :: K) vs cs := by
  obtain ⟨herror, K, htasks⟩ := current?_eq_some.mp h
  obtain ⟨w, vs, cs, rfl⟩ := Machine.eq_running herror htasks
  exact ⟨w, K, vs, cs, rfl⟩

/-- The step invokes a module: it runs the module's body, in the frame of the offer. -/
def Invokes (m : Machine) (offer : Offer) : Prop :=
  ∃ ctx closure names specials, m.current? =
    some (.start (.module ctx closure offer.site offer.body) names specials) ∧
    offer.caller = ctx.frame ∧ offer.frame = (m.world.openInside closure.frame).1

/-- The step is a call of `children` for an offer, with other offers around it, and finds it in some
state. -/
def Asks (m : Machine) (offer : Offer) (outer : List Offer) (state : Offspring) : Prop :=
  ∃ ctx site keywords, m.current? = some (.ask ctx site keywords) ∧ ctx.offers = offer :: outer ∧
    m.world.scopes.children? ctx.frame = some state

variable {outer : List Offer}

lemma Asks.exists_task (h : m.Asks offer outer state) : ∃ t ∈ m.tasks, offer ∈ t.offers := by
  obtain ⟨ctx, site, keywords, hcurrent, hoffers, -⟩ := h
  obtain ⟨w, K, vs, cs, rfl⟩ := exists_running hcurrent
  refine ⟨_, mem_cons_self, ?_⟩
  show offer ∈ ctx.offers
  rw [hoffers]
  exact mem_cons_self

/-- The step takes up an offer: it runs the body of the invocation. -/
def Takes (m : Machine) (offer : Offer) : Prop := ∃ outer, m.Asks offer outer .pending

/-- The step keeps what the body of an invocation has yielded. -/
def Keeps (m : Machine) (offer : Offer) (gs : List (Geometry Float)) : Prop :=
  ∃ site args, m.current? = some (.keep offer site args) ∧ m.collected.headD [] = gs

lemma Keeps.exists_tasks {gs : List (Geometry Float)}
    (h : m.Keeps offer gs) : ∃ site args K, m.tasks = .keep offer site args :: K := by
  obtain ⟨site, args, hcurrent, -⟩ := h
  obtain ⟨-, K, htasks⟩ := current?_eq_some.mp hcurrent
  exact ⟨site, args, K, htasks⟩

/-- What a step can make of what a frame keeps. -/
inductive Turns (m : Machine) (id : FrameId) : Option Offspring → Option Offspring → Prop where
  | same (state : Option Offspring) : Turns m id state state
  /-- The frame is left. -/
  | left (state : Option Offspring) : Turns m id state none
  | invoked {offer : Offer} (h : m.Invokes offer) (hid : offer.frame = id) :
    Turns m id none (some .pending)
  | taken {offer : Offer} (h : m.Takes offer) (hid : offer.frame = id) :
    Turns m id (some .pending) (some .forcing)
  | kept {offer : Offer} {gs : List (Geometry Float)} (h : m.Keeps offer gs)
    (hid : offer.frame = id) :
    Turns m id (some .forcing) (some (.ready gs))

/-- Wherever a task is to keep the children of a module, these are being built, and no other task is
to keep them. -/
structure Forces (m : Machine) : Prop where
  forcing (id : FrameId) (hid : id ∈ forced m.tasks) : m.slot id = some .forcing
  nodup : (forced m.tasks).Nodup

/-! ## One step -/

section

variable {w : World} {K : List Task} {vs : List Value} {cs : List (List (Geometry Float))}

lemma turns_leave (m : Machine) (j : FrameId) (c : Option Call) (id : FrameId) :
    m.Turns id (m.slot id) ((m.world.leave j c).scopes.slot id) := by
  have hscopes : (m.world.leave j c).scopes = release m.world.scopes j := by cases c <;> rfl
  rw [hscopes, slot_release]
  split
  · exact .left _
  · exact .same _

/-- A module is invoked: its frame is a fresh one. -/
lemma slot_invoke (hs : WellFormed w.scopes) (ctx : Context) (closure : ModuleClosure)
    (site : CallSite) (body : Program) (names : List String) (specials : List (String × Value))
    (id : FrameId) :
    ((Task.start (.module ctx closure site body) names specials).perform env
      (running w K vs cs)).slot id =
      if id = (w.openInside closure.frame).1 then some .pending else w.scopes.slot id := by
  let j : FrameId := (w.openInside closure.frame).1
  let entered : Scopes := (w.scopes.enter (some closure.frame)).2
  let bound : Scopes :=
    entered.write j (.values (names.zip (vs.take names.length).reverse ++ specials))
  have hentered : get? entered j = some { parent := some closure.frame } := by
    rw [get?_enter hs]
    exact if_pos rfl
  have hbound : (get? bound j).isSome := by
    rw [get?_write_self _ hentered]
    rfl
  show (bound.write j (.children .pending)).slot id = _
  rw [slot_write_children hbound, slot_write (fun _ => rfl), slot_enter hs]

/-- The machine that a call of `children` leads to if it takes up an offer. -/
def takeUp (w : World) (K : List Task) (vs : List Value) (cs : List (List (Geometry Float)))
    (ctx : Context) (site : CallSite) (keywords : List (Option String)) (offer : Offer)
    (outer : List Offer) : Machine :=
  (running ((w.visit ctx.frame .lookUp).write offer.frame (.children .forcing))
    (.keep offer site (.ofValues keywords (vs.take keywords.length).reverse) :: K)
    (vs.drop keywords.length)
    ([] :: cs)).body offer.caller offer.body outer

/-- What a call of `children` does is decided by the offers and by what the frames around keep. -/
lemma perform_ask_eq (env : Environment) (w : World) (K : List Task) (vs : List Value)
    (cs : List (List (Geometry Float))) (ctx : Context) (site : CallSite)
    (keywords : List (Option String)) :
    let m := running (w.visit ctx.frame .lookUp) K (vs.drop keywords.length) cs
    let args := Arguments.ofValues keywords (vs.take keywords.length).reverse
    (Task.ask ctx site keywords).perform env (running w K vs cs) =
      match ctx.offers, w.scopes.children? ctx.frame with
      | [], _ => m.nothingOffered site
      | _ :: _, none => m.nothingOffered site
      | _ :: _, some (.ready gs) => m.select gs site args
      | offer :: _, some .forcing => m.raise offer.site.reused
      | offer :: outer, some .pending =>
        ((m.write offer.frame (.children .forcing)).gather.todo [.keep offer site args]).body
          offer.caller offer.body outer :=
  rfl

/-- A call of `children` takes up an offer that has not been taken up. -/
lemma perform_ask_of_pending (env : Environment) (K : List Task) (vs : List Value)
    (cs : List (List (Geometry Float))) {ctx : Context} (hoffers : ctx.offers = offer :: outer)
    (hfound : w.scopes.children? ctx.frame = some .pending) (site : CallSite)
    (keywords : List (Option String)) :
    (Task.ask ctx site keywords).perform env
      (running w K vs cs) = takeUp w K vs cs ctx site keywords offer outer := by
  rw [perform_ask_eq, hoffers, hfound]
  rfl

/-- A call of `children` takes up an offer, or sets no children. -/
lemma perform_ask (env : Environment) (w : World) (K : List Task) (vs : List Value)
    (cs : List (List (Geometry Float))) (ctx : Context) (site : CallSite)
    (keywords : List (Option String)) :
    (∃ offer outer, ctx.offers = offer :: outer ∧ w.scopes.children? ctx.frame = some .pending ∧
        (Task.ask ctx site keywords).perform env
        (running w K vs cs) = takeUp w K vs cs ctx site keywords offer outer) ∨
      Task.drop.Performs .any (running w K vs cs)
      ((Task.ask ctx site keywords).perform env (running w K vs cs)) := by
  let m : Machine := running (w.visit ctx.frame .lookUp) K (vs.drop keywords.length) cs
  have hm : Task.drop.Acts .any (running w K vs cs) m :=
    (Task.Acts.refl.step (.operands _ (vs.drop keywords.length))).step
      (.hear _ (.visit w ctx.frame .lookUp))
  rw [perform_ask_eq]
  split
  · exact .inr (hm.nothingOffered site)
  · exact .inr (hm.nothingOffered site)
  · exact .inr (hm.select (fun _ _ => trivial) site _)
  · exact .inr (hm.raise (.inl trivial))
  · rename_i offer outer hoffers hfound
    exact .inl ⟨offer, outer, hoffers, hfound, rfl⟩

lemma slot_body (hs : WellFormed m.world.scopes) (parent : FrameId) (block : Program)
    (offers : List Offer) (id : FrameId) : (m.body parent block offers).slot id = m.slot id := by
  unfold Machine.body
  split
  · rfl
  · exact slot_enter hs _ id

lemma forced_body (m : Machine) (parent : FrameId) (block : Program) (offers : List Offer) :
    forced (m.body parent block offers).tasks = forced m.tasks := by
  unfold Machine.body
  split
  · rfl
  · rfl

lemma slot_takeUp (hs : WellFormed w.scopes) (ctx : Context) (site : CallSite)
    (keywords : List (Option String)) (hoffer : w.scopes.slot offer.frame = some .pending)
    (outer : List Offer) (id : FrameId) :
    (takeUp w K vs cs ctx site keywords offer outer).slot id =
      if id = offer.frame then some .forcing else w.scopes.slot id := by
  rw [takeUp, slot_body (hs.modify _)]
  exact slot_write_children (isSome_of_slot hoffer) .forcing id

lemma slot_keep (hs : WellFormed w.scopes) (hoffer : (get? w.scopes offer.frame).isSome)
    (site : CallSite) (args : Arguments) (id : FrameId) :
    ((keep offer site args).perform env (running w K vs cs)).slot id =
      if id = offer.frame then some (.ready (cs.headD [])) else w.scopes.slot id := by
  have hselect (m : Machine) : drop.Performs .any m (m.select (cs.headD []) site args) :=
    Task.Acts.select .refl (fun _ _ => trivial) site args
  show ((running (w.write offer.frame (.children (.ready (cs.headD [])))) K vs cs.tail).select
    (cs.headD []) site args).slot
    id = _
  rw [slot, (hselect _).slot rfl (hs.modify _)]
  exact slot_write_children hoffer _ id

end

/-- What a call of `children` finds is what the frame of the offer keeps. -/
lemma Fits.slot_of_asks (h : m.Fits env P) (hasks : m.Asks offer outer state) :
    m.slot offer.frame = some state := by
  obtain ⟨⟨frame, offers⟩, site, keywords, hcurrent, rfl, hfound⟩ := hasks
  obtain ⟨w, K, vs, cs, rfl⟩ := exists_running hcurrent
  have hlinked := h.fits.1.linked.1
  rw [Scopes.Home.children?_eq h.sound hlinked] at hfound
  exact hfound

lemma Fits.turns_perform {w : World} {K : List Task} {vs : List Value}
    {cs : List (List (Geometry Float))} (h : (running w (t :: K) vs cs).Fits env P)
    (hforces : (running w (t :: K) vs cs).Forces) (id : FrameId) :
    (running w (t :: K) vs cs).Turns id (w.scopes.slot id)
      ((t.perform env (running w K vs cs)).slot id) := by
  have hs : WellFormed w.scopes := h.sound.wellFormed
  have hmild (ht : t.mild) :
      (running w (t :: K) vs cs).Turns id (w.scopes.slot id)
      ((t.perform env (running w K vs cs)).slot id) := by
    rw [slot, (t.performs env _).slot ht hs]
    exact .same _
  cases t with
  | leave j c => exact turns_leave (running w _ vs cs) j c id
  | start c names specials =>
    cases c with
    | function closure site => exact hmild rfl
    | module ctx closure site body =>
      rw [slot_invoke hs]
      split
      · rename_i hid
        have hfresh : w.scopes.slot id = none := by
          have hnone : get? w.scopes (w.openInside closure.frame).1 = none := get?_push_id hs _
          rw [hid, Scopes.slot, hnone]
          rfl
        rw [hfresh]
        have hinvokes :
          (running w (.start (.module ctx closure site body) names specials :: K) vs cs).Invokes
            ⟨site, body, ctx.frame, id⟩ := ⟨ctx, closure, names, specials, rfl, rfl, hid⟩
        exact .invoked hinvokes rfl
      · exact .same _
  | ask ctx site keywords =>
    rcases perform_ask env w K vs cs ctx site keywords with
      ⟨offer, outer, hoffers, hfound, hperform⟩ | hperforms
    · have hasks : (running w (.ask ctx site keywords :: K) vs cs).Asks offer outer .pending :=
        ⟨ctx, site, keywords, rfl, hoffers, hfound⟩
      have hpending : w.scopes.slot offer.frame = some .pending := h.slot_of_asks hasks
      rw [hperform, slot_takeUp hs ctx site keywords hpending]
      split
      · rename_i hid
        rw [hid, hpending]
        exact .taken ⟨outer, hasks⟩ rfl
      · exact .same _
    · rw [slot, hperforms.slot rfl hs]
      exact .same _
  | keep offer site args =>
    have hforcing : w.scopes.slot offer.frame = some .forcing :=
      hforces.forcing offer.frame mem_cons_self
    rw [slot_keep hs (Scopes.isSome_of_slot hforcing)]
    split
    · rename_i hid
      rw [hid, hforcing]
      exact .kept ⟨site, args, rfl, rfl⟩ rfl
    · exact .same _
  | _ => exact hmild rfl

/-- One step turns what a frame keeps in one of these ways. -/
lemma Fits.turns (h : m.Fits env P) (hforces : m.Forces)
    (id : FrameId) : m.Turns id (m.slot id) ((m.move env).next.slot id) := by
  rcases move_cases env m with ⟨e, t, K, herror, htasks, hmove⟩ | ⟨e, herror, htasks, hmove⟩ |
    ⟨t, K, herror, htasks, hmove⟩ | ⟨g, gs, K, herror, htasks, hmove⟩ | ⟨herror, htasks, hmove⟩
  all_goals rw [hmove]
  · cases t with
    | leave j c => exact turns_leave m j c id
    | _ => exact .same _
  · exact .same _
  · obtain ⟨w, vs, cs, rfl⟩ := Machine.eq_running herror htasks
    exact h.turns_perform hforces id
  · exact .same _
  · exact .same _

/-! ## Any number of steps -/

/-- Where a task is to keep children, there is a module's frame. -/
lemma isSome_slot_of_forced {s : Scopes} {ts : List Task} (h : Task.AllFit env P s ts)
    {id : FrameId} (hid : id ∈ forced ts) : (s.slot id).isSome := by
  induction ts with
  | nil => exact absurd hid not_mem_nil
  | cons t K ih =>
    obtain ⟨t', ht', hforced⟩ := mem_filterMap.mp hid
    rcases mem_cons.mp ht' with rfl | ht'
    · cases t' with
      | keep offer site args =>
        obtain ⟨⟨f, hf, hchildren⟩, -⟩ := h.1
        obtain rfl : offer.frame = id := Option.some.inj hforced
        rw [Scopes.slot, hf]
        exact hchildren
      | _ => exact absurd hforced (Option.some_ne_none id).symm
    · exact ih h.2 (mem_filterMap.mpr ⟨t', ht', hforced⟩)

/-- Which children are to be kept does not change without a call of `children`. -/
lemma forced_acts {S : Stock} {m' : Machine} (h : t.Acts S m m')
    (ht : ∀ ctx site keywords, t ≠ .ask ctx site keywords) : forced m'.tasks = forced m.tasks := by
  induction h with
  | refl => rfl
  | tail _ hact ih =>
    rw [← ih]
    cases hact with
    | @todo t' hloose =>
      cases t' with
      | keep => nomatch hloose
      | _ => rfl
    | force hask => exact absurd hask (ht _ _ _)
    | _ => rfl

lemma forced_performs {S : Stock} {m' : Machine} (h : t.Performs S m m')
    (ht : ∀ ctx site keywords, t ≠ .ask ctx site keywords) : forced m'.tasks = forced m.tasks := by
  rcases h with h | ⟨m₁, e, h, -, rfl⟩
  · exact forced_acts h ht
  · show forced m₁.tasks = _
    exact forced_acts h ht

lemma forced_tail_sublist (ts : List Task) : (forced ts.tail).Sublist (forced ts) :=
  (tail_sublist ts).filterMap _

namespace Forces

variable {P : RuntimeError → Prop}

/-- Children that were to be kept before, by a task further on, are still being built. -/
lemma forcing_next (hforces : m.Forces) (h : m.Fits env P) {id : FrameId}
    (hid : id ∈ forced m.tasks.tail) (hsome : ((m.move env).next.slot id).isSome) :
    (m.move env).next.slot id = some .forcing := by
  have hforcing := hforces.forcing id ((forced_tail_sublist m.tasks).subset hid)
  have hturns := h.turns hforces id
  rw [hforcing] at hturns
  generalize (m.move env).next.slot id = after at hturns hsome
  cases hturns with
  | same => rfl
  | left => exact absurd hsome Bool.false_ne_true
  | kept hkeeps hoffer =>
    -- the task that keeps them is the first one, and there is no other
    obtain ⟨site, args, K, htasks⟩ := hkeeps.exists_tasks
    have hnodup := hforces.nodup
    rw [htasks] at hnodup hid
    exact absurd (hoffer ▸ hid) (nodup_cons.mp hnodup).1

/-- A step after which the same children are to be kept as before, or those but the first. -/
lemma next_of_forced_eq (hforces : m.Forces) (h : m.Fits env P)
    (hnext : (m.move env).next.Fits env P)
    (heq : forced (m.move env).next.tasks = forced m.tasks.tail) :
    (m.move env).next.Forces where
  forcing _ hid := hforces.forcing_next h (heq ▸ hid) (isSome_slot_of_forced hnext.fits hid)
  nodup := heq ▸ hforces.nodup.sublist (forced_tail_sublist m.tasks)

lemma takeUp {w : World} {K : List Task} {vs : List Value} {cs : List (List (Geometry Float))}
    {ctx : Context} {site : CallSite} {keywords : List (Option String)}
    (hforces : (running w (.ask ctx site keywords :: K) vs cs).Forces)
    (h : (running w (.ask ctx site keywords :: K) vs cs).Fits env P)
    (hoffers : ctx.offers = offer :: outer)
    (hfound : w.scopes.children? ctx.frame = some .pending) :
    (Machine.takeUp w K vs cs ctx site keywords offer outer).Forces := by
  have hasks : (running w (.ask ctx site keywords :: K) vs cs).Asks offer outer .pending :=
    ⟨ctx, site, keywords, rfl, hoffers, hfound⟩
  have hpending : w.scopes.slot offer.frame = some .pending := h.slot_of_asks hasks
  have hforced : forced (Machine.takeUp w K vs cs ctx site keywords offer outer).tasks =
      offer.frame :: forced K := forced_body _ _ _ _
  have hne : ∀ id ∈ forced K, id ≠ offer.frame := by
    rintro id hid rfl
    have hforcing := hforces.forcing offer.frame hid
    rw [slot, hpending] at hforcing
    nomatch hforcing
  refine ⟨fun id hid => ?_, ?_⟩
  · rw [slot_takeUp h.sound.wellFormed ctx site keywords hpending]
    rw [hforced] at hid
    rcases mem_cons.mp hid with rfl | hid
    · exact if_pos rfl
    · rw [if_neg (hne id hid)]
      exact hforces.forcing id hid
  · rw [hforced]
    exact nodup_cons.mpr ⟨fun hid => hne _ hid rfl, hforces.nodup⟩

lemma next (hforces : m.Forces) (h : m.Fits env P)
    (hnext : (m.move env).next.Fits env P) : (m.move env).next.Forces := by
  have hsame := hforces.next_of_forced_eq h hnext
  rcases move_cases env m with ⟨e, t, K, herror, htasks, hmove⟩ | ⟨e, herror, htasks, hmove⟩ |
    ⟨t, K, herror, htasks, hmove⟩ | ⟨g, gs, K, herror, htasks, hmove⟩ | ⟨herror, htasks, hmove⟩
  all_goals rw [hmove] at hsame ⊢
  · refine hsame ?_
    rw [htasks]
    exact congrArg Task.forced (tasks_abandon t e _)
  · refine hsame ?_
    show Task.forced m.tasks = _
    rw [htasks]
    rfl
  · obtain ⟨w, vs, cs, rfl⟩ := Machine.eq_running herror htasks
    have hperforms := fun ht => hsame (forced_performs (t.performs env (running w K vs cs)) ht)
    cases t with
    | ask ctx site keywords =>
      rcases perform_ask env w K vs cs ctx site keywords with
        ⟨offer, outer, hoffers, hfound, hperform⟩ | hdrop
      · have htaken := hforces.takeUp h hoffers hfound
        rw [← hperform] at htaken
        exact htaken
      · exact hsame (forced_performs hdrop nofun)
    | _ => exact hperforms nofun
  · refine hsame ?_
    rw [htasks]
    rfl
  · refine hsame ?_
    show Task.forced m.tasks = _
    rw [htasks]
    rfl

end Forces

/-- Wherever a task is to keep children, they are being built. -/
theorem Reachable.forces (h : Reachable env program m) : m.Forces := by
  induction h with
  | start => exact ⟨forall_mem_nil _, nodup_nil⟩
  | next h ih => exact ih.next (h.fits (raises_any env)) (h.next.fits (raises_any env))

/-- Every step of a program turns what a frame keeps in one of these ways. -/
theorem Reachable.turns (h : Reachable env program m) (id : FrameId) :
    m.Turns id (m.slot id) ((m.move env).next.slot id) :=
  (h.fits (raises_any env)).turns h.forces id

end Machine

end SolidScript
