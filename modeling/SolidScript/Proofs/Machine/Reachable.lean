import SolidScript.Proofs.Machine.Invariant
import SolidScript.Proofs.Machine.Termination

/-!
# Every step keeps the invariant

One lemma for each thing that a machine does, then one case for each expression, statement and task.
What a machine has come to after any number of steps is a machine for which the invariant holds.
-/

namespace SolidScript

open SolidScript.Task List Scopes Option Context

open Machine (running failing)

variable {env : Environment} {P : RuntimeError → Prop} {s : Scopes} {K : List Task}

/-! ## Contexts -/

variable {parent : FrameId} {offers : List Offer}

lemma Linked.enter (hs : Arena.WellFormed s) {blocks : List FrameId}
    (h : Linked s blocks parent offers) :
    Linked (s.enter (some parent)).2 ((s.enter (some parent)).1 :: blocks) (s.enter (some parent)).1
      offers := by
  cases offers with
  | nil => exact Home.enter hs h
  | cons offer outer =>
    exact ⟨Home.enter hs h.1, h.2.transfer (.enter hs _) (subset_cons_self _ _)⟩

namespace Context.Fits

variable {ctx : Context}

lemma frame_mem (h : ctx.Fits s K) : ctx.frame ∈ blocks K := h.linked.frame_mem

lemma cons (h : ctx.Fits s K) {t : Task} (ht : t.IsLight) (hwaiting : t.IsWaiting) :
    ctx.Fits s (t :: K) where
  linked := by
    rw [ht.blocks]
    exact h.linked
  nodup := h.nodup
  unforced := by
    rw [ht.forced]
    exact h.unforced
  waiting := forall_mem_cons.mpr ⟨hwaiting, h.waiting⟩

lemma inside (hs : Arena.WellFormed s) (h : Fits s K ⟨parent, offers⟩) :
    Fits (s.enter (some parent)).2 (.leave (s.enter (some parent)).1 none :: K)
      ⟨(s.enter (some parent)).1, offers⟩ where
  linked := h.linked.enter hs
  nodup := h.nodup
  unforced := h.unforced
  waiting := forall_mem_cons.mpr ⟨trivial, h.waiting⟩

/-- The context in which an offer is taken up. The body is not among those that may be asked for
then. -/
lemma outside {frame : FrameId} {offer : Offer} {outer : List Offer}
    (h : Fits s K ⟨frame, offer :: outer⟩) (site : CallSite) (args : Arguments) :
    Fits s (.keep offer site args :: K) ⟨offer.caller, outer⟩ where
  linked := h.linked.2
  nodup := (nodup_cons.mp h.nodup).2
  unforced o ho hforced := by
    rcases mem_cons.mp hforced with heq | hforced
    · exact (nodup_cons.mp h.nodup).1 (heq ▸ mem_map_of_mem ho)
    · exact h.unforced o (mem_cons_of_mem _ ho) hforced
  waiting := forall_mem_cons.mpr ⟨trivial, h.waiting⟩

/-- The context of a module's body: a further offer is made, which the fresh frame is to keep. -/
lemma offer (h : ctx.Fits s K) (hforced : forced K ⊆ blocks K) {id : FrameId} (hid : id ∉ blocks K)
    {s' : Scopes} (hagree : Agree (blocks K) s s') {f : Frame}
    (hf : Arena.get? s' id = some f) (hchildren : f.children.isSome) (site : CallSite)
    (body : Program) (closure : ModuleClosure) :
    Fits s' (.leave id (some (.module ctx closure site body)) :: K)
      ⟨id, ⟨site, body, ctx.frame, id⟩ :: ctx.offers⟩ where
  linked := ⟨.here mem_cons_self hf hchildren, h.linked.transfer hagree (subset_cons_self _ _)⟩
  nodup := by
    refine nodup_cons.mpr ⟨fun hmem => ?_, h.nodup⟩
    obtain ⟨o, ho, heq⟩ := mem_map.mp hmem
    have hin := (h.linked.exists_frame ho).1
    rw [heq] at hin
    exact hid hin
  unforced o ho hmem := by
    rcases mem_cons.mp ho with rfl | ho
    · exact hid (hforced hmem)
    · exact h.unforced o ho hmem
  waiting := forall_mem_cons.mpr ⟨trivial, h.waiting⟩

/-- Where statements are run, the module around is none whose children are being built. -/
lemma children?_ne {w : World} (hfit : Fit env P w K none) (h : ctx.Fits w.scopes K) :
    w.scopes.children? ctx.frame ≠ some .forcing := by
  obtain ⟨frame, offers⟩ := ctx
  intro hforcing
  cases offers with
  | nil =>
    rw [Home.children?_eq hfit.sound h.linked] at hforcing
    exact absurd hforcing (some_ne_none _).symm
  | cons offer outer =>
    rw [Home.children?_eq hfit.sound h.linked.1, bind_some] at hforcing
    obtain ⟨f, hf, hchildren⟩ := bind_eq_some_iff.mp hforcing
    exact h.unforced offer mem_cons_self (hfit.forced rfl _ f hf hchildren)

end Context.Fits

/-! ## What a machine does -/

lemma Call.Fits.home_mem {c : Call} (h : c.Fits s K) : c.home ∈ blocks K := by
  cases c with
  | function closure site => exact h
  | module ctx closure site body => exact h.1

lemma Task.AllFit.forced_subset {ts : List Task} (h : AllFit env P s ts) :
    forced ts ⊆ blocks ts := by
  induction ts with
  | nil => exact Subset.refl _
  | cons t K ih =>
    intro id hid
    obtain ⟨t', ht', hforced⟩ := mem_filterMap.mp hid
    rcases mem_cons.mp ht' with rfl | ht'
    · cases t' with
      | keep offer => exact some.inj hforced ▸ h.1.2.1
      | _ => exact absurd hforced (some_ne_none id).symm
    · exact blocks_subset t K (ih h.2 (mem_filterMap.mpr ⟨t', ht', hforced⟩))

namespace Machine

/-- What a machine comes to after a computation: it goes on with the result, or gives up. -/
lemma compute_cases {m : Machine} {α : Type} {x : Eval α} {A : α → World → Prop}
    {E : RuntimeError → World → Prop} {R : Machine → Prop} {f : α → Machine → Machine}
    (hx : x.Holds m.world A E) (hok : ∀ a w, A a w → R (f a { m with world := w }))
    (herror : ∀ e w, E e w → R ({ m with world := w }.raise e)) : R (m.compute x f) := by
  unfold Machine.compute
  cases hr : x m.world with
  | ok a w => exact hok a w (hx.of_ok hr)
  | error e w => exact herror e w (hx.of_error hr)

/-- The invariant of a machine. -/
abbrev Fits (env : Environment) (P : RuntimeError → Prop) (m : Machine) : Prop :=
  Fit env P m.world m.tasks m.error

namespace Fits

variable {m : Machine}

variable {frame : FrameId} {t : Task} {ctx : Context} {w : World} {vs : List Value}
  {cs : List (List (Geometry Float))}

/-- Operands are evaluated, and then there is a task that needs them. -/
lemma evaluate (h : m.Fits env P) (hframe : frame ∈ blocks m.tasks) (es : List Expr)
    (ht : t.IsLight) (hfits : t.Fits env P m.world.scopes m.tasks) :
    (m.evaluate frame es t).Fits env P := by
  have hexprs := (Fit.cons h ht hfits).operands (es.map (.expr frame)) fun t' ht' => by
    obtain ⟨e, -, rfl⟩ := mem_map.mp ht'
    refine ⟨trivial, fun K' hK' => ?_⟩
    show frame ∈ blocks K'
    rw [hK', ht.blocks]
    exact hframe
  show Fit env P m.world (es.map (.expr frame) ++ [t] ++ m.tasks) m.error
  rw [append_assoc]
  exact hexprs.1

lemma compute (h : m.Fits env P) {α : Type} {x : Eval α} {Q : α → Prop} (hx : x.Quiet Q P)
    {f : α → Machine → Machine}
    (hf : ∀ a w, Q a → m.world.Unmoved w → { m with world := w }.Fits env P →
      (f a { m with world := w }).Fits env P) : (m.compute x f).Fits env P :=
  compute_cases (hx m.world)
    (fun a w hw => hf a w hw.2 hw.1.toUnmoved (Fit.unmoved h hw.1.toUnmoved))
    fun _ _ hw => (Fit.unmoved h hw.1.toUnmoved).raise hw.2

lemma emit (h : m.Fits env P) (hwaiting : ∀ t ∈ m.tasks, t.IsWaiting) (gs : List (Geometry Float)) :
    (m.todo [.emit gs]).Fits env P :=
  Fit.cons h trivial hwaiting

lemma body (h : m.Fits env P) (herror : m.error = none)
    (hctx : Context.Fits m.world.scopes m.tasks ⟨parent, offers⟩) (block : Program) :
    (m.body parent block offers).Fits env P := by
  obtain ⟨w, K, vs, cs, error⟩ := m
  obtain rfl : error = none := herror
  unfold Machine.body
  split
  · exact h
  · have hinside := Fit.inside (c := none) h hctx.frame_mem rfl rfl rfl rfl h.fits
    exact Fit.cons hinside trivial (hctx.inside h.sound.wellFormed)

lemma carryOut (h : m.Fits env P) (herror : m.error = none) (hctx : ctx.Fits m.world.scopes m.tasks)
    {site : CallSite} (block : Program) {plan : Plan} (hplan : plan.Raises P site) :
    (m.carryOut ctx site block plan).Fits env P := by
  cases plan with
  | shape g => exact emit h hctx.waiting [g]
  | relay => exact body h herror hctx block
  | fold join change =>
    have hfold : (m.gather.todo [.fold site join change]).Fits env P :=
      Fit.cons h trivial ⟨hplan, hctx.waiting⟩
    exact body hfold herror (hctx.cons trivial trivial) block

lemma select (h : m.Fits env P) (hwaiting : ∀ t ∈ m.tasks, t.IsWaiting) (gs : List (Geometry Float))
    (site : CallSite) (args : Arguments) : (m.select gs site args).Fits env P :=
  compute h (.reporting _) fun selected _ _ _ hfit => emit hfit hwaiting selected

lemma ask (h : m.Fits env P) (herror : m.error = none) (hctx : ctx.Fits m.world.scopes m.tasks)
    (site : CallSite) (args : Arguments) : (m.ask ctx site args).Fits env P := by
  obtain ⟨w, K, vs, cs, error⟩ := m
  obtain rfl : error = none := herror
  have hvisit : Fit env P (w.visit ctx.frame .lookUp) K none := Fit.unmoved h ⟨rfl, rfl, rfl⟩
  have hnothing : ∀ m : Machine, m.Fits env P → (m.nothingOffered site).Fits env P := fun m hm =>
    compute hm (.warn _ _) fun _ _ _ _ hfit => hfit
  obtain ⟨frame, offers⟩ := ctx
  have hne : w.scopes.children? frame ≠ some .forcing := hctx.children?_ne h
  unfold Machine.ask Machine.compute Eval.lookUp
  dsimp only
  cases offers with
  | nil => exact hnothing _ hvisit
  | cons offer outer =>
    cases hfound : w.scopes.children? frame with
    | none => exact hnothing _ hvisit
    | some state =>
      cases state with
      | forcing => exact absurd hfound hne
      | ready gs => exact select (m := ⟨_, K, vs, cs, none⟩) hvisit hctx.waiting gs site args
      | pending =>
        -- the module is marked first, so the context of the body has to survive that
        obtain ⟨hmem, hslot⟩ := hctx.linked.exists_frame mem_cons_self
        have hkeep : Fit env P _ (.keep offer site args :: K) none :=
          hvisit.keep ⟨hslot, hmem, hctx.waiting⟩
        have hcaller := (hctx.outside site args).transfer (.write_children .forcing hslot)
        exact body (m := ⟨_, _, vs, [] :: cs, none⟩) hkeep rfl hcaller offer.body

lemma operand {f : Value → Machine → Machine} (h : ∀ v vs, (f v (running w K vs cs)).Fits env P) :
    ((running w K vs cs).withOperand f).Fits env P :=
  h _ _

lemma round (h : Fit env P w K none) (hctx : ctx.Fits w.scopes K) (vars : LoopRange)
    (block : Program) (n i : Nat) :
    (perform env (running w K vs cs) (.rounds ctx vars block (n + 1) i)).Fits env P := by
  have hrest : Fit env P w (.rounds ctx vars block n (i + 1) :: K) none := h.cons trivial hctx
  have hctx' : ctx.Fits w.scopes (.rounds ctx vars block n (i + 1) :: K) :=
    hctx.cons trivial trivial
  have hinside : Fit env P _ (.leave _ none :: .rounds ctx vars block n (i + 1) :: K) none :=
    hrest.inside hctx'.frame_mem rfl rfl rfl rfl hrest.fits
  have hbound :
      Fit env P ((w.openInside ctx.frame).2.write (w.openInside ctx.frame).1
        (.values (vars.bindings i))) _ none :=
    hinside.write_name fun _ => rfl
  refine hbound.cons (t := .block _ _) trivial ?_
  exact (hctx'.inside h.sound.wellFormed).transfer (.write _ fun f _ _ => rfl)

/-- The body of a call is run in a fresh frame, which holds the parameters. -/
lemma start {c : Call} {names : List String} {specials : List (String × Value)}
    (h : Fit env P w (.start c names specials :: K) none) (bound : List (String × Value)) :
    ((running w K vs cs).inside c.home (some c)
      fun id m => c.begin (m.write id (.values bound)) id).Fits env P := by
  have hfits : c.Fits w.scopes K := h.fits.1
  have hcalls : calls (.leave (w.openInside c.home).1 (some c) :: K) =
      calls (.start c names specials :: K) := by
    unfold calls
    rw [countP_cons_of_pos rfl, countP_cons_of_pos rfl]
  have hinside : Fit env P _ (.leave _ (some c) :: K) none :=
    h.inside hfits.home_mem rfl rfl hcalls rfl h.fits.2
  have hbound :
      Fit env P ((w.openInside c.home).2.write (w.openInside c.home).1 (.values bound)) _ none :=
    hinside.write_name fun _ => rfl
  cases c with
  | function closure site => exact hbound.cons (t := .expr _ _) trivial mem_cons_self
  | module ctx closure site body =>
    have hid : (w.openInside closure.frame).1 ∉ blocks K := hinside.sound.nested.2.1
    have hpending := hbound.write (c := .children .pending) (.write_of_not_mem hid _)
      fun f hforcing _ => absurd (some.inj hforcing) Offspring.noConfusion
    obtain ⟨f, hf⟩ := hbound.sound.exists_frame mem_cons_self
    refine hpending.cons (t := .block _ _) trivial ?_
    -- nothing was bound in any frame that was there before
    have hagree := (Agree.enter h.sound.wellFormed (some closure.frame)).trans
      ((Agree.write_of_not_mem hid (.values bound)).trans
        (.write_of_not_mem hid (.children .pending)))
    exact hfits.2.offer h.fits.2.forced_subset hid hagree
      (get?_write_self (.children .pending) hf) rfl site body
      closure

variable (hP : Raises env P)

include hP

lemma enter (h : m.Fits env P) (herror : m.error = none) {c : Call}
    (hc : c.Fits m.world.scopes m.tasks) (args : Arguments) : (m.enter env c args).Fits env P := by
  obtain ⟨w, K, vs, cs, error⟩ := m
  obtain rfl : error = none := herror
  unfold Machine.enter
  split
  · exact Fit.raise h (hP.deep _ _)
  · rename_i hroom
    have hopen := fun names specials => Fit.openCall h (Nat.lt_of_not_le hroom) hc names specials
    unfold Machine.supply
    split
    · rename_i e he
      obtain ⟨detail, rfl⟩ := Parameters.prepare_error he
      exact ((hopen [] []).cons (t := .located c.pos) trivial trivial).raise (hP.binding _ _)
    · rename_i filled specials _
      have hlocated :=
        (hopen (filled.map (·.1.name)) specials).cons (t := .located c.pos) trivial trivial
      have hparams := hlocated.operands
        (filled.map fun given => .param c.name c.home given.1 given.2) fun t ht => by
        obtain ⟨_, -, rfl⟩ := mem_map.mp ht
        refine ⟨trivial, fun K' hK' => ?_⟩
        show c.home ∈ blocks K'
        rw [hK']
        exact hc.home_mem
      simp only [Machine.todo, append_assoc, cons_append, nil_append]
      exact hparams.1

lemma callee (h : m.Fits env P) (herror : m.error = none) (hframe : frame ∈ blocks m.tasks)
    (site : CallSite) (args : Arguments) :
    (m.compute (Eval.lookUp frame (env.callee? · · site.name)) fun callee m =>
      Callee.begin env site args m callee).Fits env P := by
  have hvisit : ({ m with world := m.world.visit frame .lookUp } : Machine).Fits env P :=
    Fit.unmoved h ⟨rfl, rfl, rfl⟩
  show (Callee.begin env site args _ (env.callee? m.world.scopes frame site.name)).Fits env P
  cases hcallee : env.callee? m.world.scopes frame site.name with
  | none => exact Fit.raise hvisit (hP.unknown _ _ _)
  | some callee =>
    cases callee with
    | builtin f => exact compute hvisit (.reporting _) fun _ _ _ _ hfit => hfit
    | own closure =>
      refine enter hP hvisit herror ?_ args
      exact h.sound.function?_frame_mem hframe (function?_of_callee? hcallee)

lemma expr (h : m.Fits env P) (hframe : frame ∈ blocks m.tasks) (e : Expr) :
    (e.begin frame m).Fits env P := by
  cases e with
  | number | string | bool | undefined => exact h
  | var pos name =>
    exact compute h (.readVariable frame name pos (hP.undefined name pos)) fun _ _ _ _ hfit => hfit
  | vector | index | binary | negate | not | compare | range | rangeBy =>
    exact evaluate h hframe _ trivial trivial
  | and | or | cond | call => exact evaluate h hframe _ trivial hframe

lemma invoke (h : m.Fits env P) (hctx : ctx.Fits m.world.scopes m.tasks) (site : CallSite)
    (args : List Argument) (block : Program) {found : Option ModuleClosure}
    (hfound : ∀ closure, found = some closure → closure.frame ∈ blocks m.tasks) :
    (m.invoke env ctx site args block found).Fits env P := by
  unfold Machine.invoke
  cases found with
  | some closure => exact evaluate h hctx.frame_mem _ trivial ⟨hfound closure rfl, hctx⟩
  | none =>
    dsimp only
    split
    · exact evaluate h hctx.frame_mem _ trivial hctx
    · split
      · exact Fit.raise h (hP.unknown _ _ _)
      · rename_i operator hoperator
        exact evaluate h hctx.frame_mem _ trivial ⟨hctx, hP.operator hoperator⟩

lemma statement (h : m.Fits env P) (herror : m.error = none)
    (hctx : ctx.Fits m.world.scopes m.tasks) (stmt : Statement) :
    (stmt.begin env ctx m).Fits env P := by
  obtain ⟨w, K, vs, cs, error⟩ := m
  obtain rfl : error = none := herror
  cases stmt with
  | assign pos name value => exact evaluate h hctx.frame_mem _ trivial hctx.frame_mem
  | evaluate pos value => exact evaluate h hctx.frame_mem _ trivial trivial
  | defineModule | defineFunction => exact Fit.write_name h fun _ => rfl
  | branch | loop => exact evaluate h hctx.frame_mem _ trivial hctx
  | invoke pos name args block =>
    have hvisit : Fit env P (w.visit ctx.frame .lookUp) K none := Fit.unmoved h ⟨rfl, rfl, rfl⟩
    refine invoke hP (m := ⟨w.visit ctx.frame .lookUp, K, vs, cs, none⟩) hvisit hctx ⟨name, pos⟩
      args block ?_
    exact fun closure hfound => (h.sound.exists_of_module? hctx.frame_mem hfound).1

/-- A task is performed. -/
theorem perform (h : Fit env P w (t :: K) none) :
    (t.perform env (running w K vs cs)).Fits env P := by
  have hK (ht : t.IsLight) : Fit env P w K none := h.tail ht
  cases t with
  | expr frame e => exact expr hP (m := running w K vs cs) (hK trivial) h.fits.1 e
  | apply op n =>
    exact compute (m := running w K (vs.drop n) cs) (hK trivial) (.apply op _)
      fun _ _ _ _ hfit => hfit
  | and frame right =>
    refine operand fun a vs => ?_
    split
    · exact evaluate (hK trivial) h.fits.1 _ trivial trivial
    · exact hK trivial
  | or frame right =>
    refine operand fun a vs => ?_
    split
    · exact hK trivial
    · exact evaluate (hK trivial) h.fits.1 _ trivial trivial
  | choose frame yes no => exact Fit.cons (t := .expr _ _) (hK trivial) trivial h.fits.1
  | call frame site keywords =>
    exact callee hP (m := running w K _ cs) (hK trivial) rfl h.fits.1 site _
  | param callee frame p given =>
    obtain ⟨name, default⟩ := p
    cases given with
    | some v => exact hK trivial
    | none =>
      cases default with
      | some e => exact (hK trivial).cons (t := .expr _ _) trivial h.fits.1
      | none => exact (hK trivial).raise (hP.binding _ _)
  | located pos => exact hK trivial
  | start c names specials => exact start h _
  | leave id c => exact h.leave
  | block ctx rest =>
    cases rest with
    | nil => exact hK trivial
    | cons stmt rest =>
      have hvisit : Fit env P (w.visit ctx.frame (.run stmt)) (.block ctx rest :: K) none :=
        (hK trivial).cons (t := .block ctx rest) trivial h.fits.1 |>.unmoved ⟨rfl, rfl, rfl⟩
      have hctx : ctx.Fits w.scopes (.block ctx rest :: K) :=
        Fits.cons h.fits.1 trivial trivial
      exact statement hP (m := running _ _ vs cs) hvisit rfl hctx stmt
  | bind frame name => exact (hK trivial).write_name fun _ => rfl
  | drop => exact hK trivial
  | branch ctx yes no =>
    refine operand fun c vs => ?_
    split
    · exact body (m := running w K vs cs) (hK trivial) rfl h.fits.1 yes
    · exact body (m := running w K vs cs) (hK trivial) rfl h.fits.1 no
  | loop ctx names block => exact (hK trivial).cons (t := .rounds _ _ _ _ _) trivial h.fits.1
  | rounds ctx vars block n i =>
    cases n with
    | zero => exact hK trivial
    | succ n => exact round (hK trivial) h.fits.1 vars block n i
  | enter c keywords => exact enter hP (m := running w K _ cs) (hK trivial) rfl h.fits.1 _
  | operate ctx site keywords block operator =>
    refine compute (m := running w K _ cs) (hK trivial)
      (.checking (h.fits.1.2 site _).1 (h.fits.1.2 site _).2) fun plan w' hplan hw hfit => ?_
    have hctx : ctx.Fits w'.scopes K := hw.scopes ▸ h.fits.1.1
    exact carryOut (m := running w' K _ cs) hfit rfl hctx block hplan
  | ask ctx site keywords => exact ask (m := running w K _ cs) (hK trivial) rfl h.fits.1 site _
  | emit gs =>
    cases gs with
    | nil => exact hK trivial
    | cons g gs => exact emit (m := running w K vs _) (hK trivial) h.fits.1 gs
  | fold site join change =>
    show ((running w K vs cs.tail).settle (Plan.joined site join change (cs.headD []))).Fits env P
    cases hjoined : Plan.joined site join change (cs.headD []) with
    | error e => exact (hK trivial).raise (h.fits.1.1 _ e hjoined)
    | ok joined =>
      cases joined with
      | none => exact hK trivial
      | some g => exact emit (m := running w K vs cs.tail) (hK trivial) h.fits.1.2 [g]
  | keep offer site args => exact select (m := running _ K vs _) (h.kept _) h.fits.1.2.2 _ site args

/-- A task is given up. -/
theorem abandon {e : RuntimeError} (h : Fit env P m.world (t :: m.tasks) (some e))
    (herror : m.error = some e) : (t.abandon e m).Fits env P := by
  obtain ⟨w, K, vs, cs, error⟩ := m
  obtain rfl : error = some e := herror
  cases t with
  | located pos => exact (h.tail trivial).raise (hP.located (h.raised e rfl) pos)
  | start c names specials => exact h.closeCall
  | leave id c => exact h.leave
  | keep offer site args =>
    -- the children will not be kept, but then nothing can ask for them any more
    exact { h with fits := h.fits.2, forced := fun hnone => absurd hnone (some_ne_none e) }
  | _ => exact h.tail trivial

end Fits

end Machine

/-! ## Steps -/

/-- The machine that goes on after a step. Between pulls, what was reported is handed over. -/
def Move.next : Move → Machine
  | step m => m
  | item _ m => m.withLog {}
  | failed _ m => m.withLog {}
  | finished m => m.withLog {}

namespace Machine

/-- The machines that a program comes to. -/
inductive Reachable (env : Environment) (program : Program) : Machine → Prop where
  | start : Reachable env program (.start program)
  | next {m : Machine} (h : Reachable env program m) : Reachable env program (m.move env).next

/-- Steps lead to machines that can be reached. -/
lemma Reachable.iterate {program : Program} {m : Machine} (h : Reachable env program m) (n : Nat) :
    Reachable env program ((fun m => (m.move env).next)^[n] m) := by
  induction n generalizing m with
  | zero => exact h
  | succ n ih => exact ih h.next

/-- What a step does. A task is given up or performed, an item is handed out, or there is nothing
left to do. -/
lemma move_cases (env : Environment) (m : Machine) :
    (∃ e t K, m.error = some e ∧ m.tasks = t :: K ∧
      m.move env = .step (t.abandon e { m with tasks := K })) ∨
      (∃ e, m.error = some e ∧ m.tasks = [] ∧ m.move env = .failed e { m with error := none }) ∨
      (∃ t K, m.error = none ∧ m.tasks = t :: K ∧
      m.move env = .step (t.perform env { m with tasks := K })) ∨
      (∃ g gs K, m.error = none ∧ m.tasks = .emit (g :: gs) :: K ∧
        m.move env = .item g { m with tasks := .emit gs :: K }) ∨
      m.error = none ∧ m.tasks = [] ∧ m.move env = .finished m := by
  obtain ⟨w, ts, vs, cs, error⟩ := m
  cases error with
  | some e =>
    cases ts with
    | nil => exact .inr (.inl ⟨e, rfl, rfl, rfl⟩)
    | cons t K => exact .inl ⟨e, t, K, rfl, rfl, rfl⟩
  | none =>
    cases ts with
    | nil => exact .inr (.inr (.inr (.inr ⟨rfl, rfl, rfl⟩)))
    | cons t K =>
      cases t with
      | emit gs =>
        cases gs with
        | nil => exact .inr (.inr (.inl ⟨_, K, rfl, rfl, rfl⟩))
        | cons g gs =>
          cases cs with
          | nil => exact .inr (.inr (.inr (.inl ⟨g, gs, K, rfl, rfl, rfl⟩)))
          | cons c cs => exact .inr (.inr (.inl ⟨_, K, rfl, rfl, rfl⟩))
      | _ => exact .inr (.inr (.inl ⟨_, K, rfl, rfl, rfl⟩))

/-- Every step keeps the invariant. -/
theorem Fits.next (hP : Raises env P) {m : Machine} (h : m.Fits env P) :
    (m.move env).next.Fits env P := by
  rcases move_cases env m with ⟨e, t, K, herror, htasks, hmove⟩ | ⟨e, herror, htasks, hmove⟩ |
    ⟨t, K, herror, htasks, hmove⟩ | ⟨g, gs, K, herror, htasks, hmove⟩ | ⟨herror, htasks, hmove⟩
  all_goals rw [hmove]
  · rw [Fits, herror, htasks] at h
    exact Fits.abandon (m := { m with tasks := K }) hP h herror
  · rw [Fits, herror, htasks] at h
    have hidle : Fit env P m.world m.tasks none := htasks ▸ h.lower
    exact hidle.unmoved ⟨rfl, rfl, rfl⟩
  · rw [Fits, herror, htasks] at h
    obtain ⟨w, ts, vs, cs, error⟩ := m
    obtain rfl : error = none := herror
    exact Fits.perform hP h
  · -- an item is handed out, and the others are still to come
    rw [Fits, herror, htasks] at h
    have hrest : Fit env P m.world (.emit gs :: K) none := (h.tail trivial).cons trivial h.fits.1
    have hnone : Fit env P m.world (.emit gs :: K) m.error := herror ▸ hrest
    exact hnone.unmoved ⟨rfl, rfl, rfl⟩
  · exact Fit.unmoved h ⟨rfl, rfl, rfl⟩

lemma fits_start (env : Environment) (P : RuntimeError → Prop) (program : Program) :
    (start program).Fits env P := by
  have hsound : (Scopes.enter {} none).2.Sound [(Scopes.enter {} none).1] :=
    Scopes.sound_empty.enter fun p hp => absurd hp (some_ne_none p).symm
  have hroot : Fit env P (World.openBlock {} none).2 [.leave (World.openBlock {} none).1 none]
      none := by
    refine ⟨hsound, rfl, rfl, rfl, Nat.zero_le _, ⟨trivial, trivial⟩, fun _ id f hf hforcing => ?_,
      fun e he => ?_⟩
    · -- the only frame is that of the program, which is no module
      rw [show (World.openBlock {} none).2.scopes = (Scopes.enter {} none).2 from rfl,
        Scopes.get?_enter Arena.wellFormed_empty] at hf
      split at hf
      · exact absurd (some.inj hf ▸ hforcing) (some_ne_none _).symm
      · exact absurd (Scopes.sound_empty.mem_of_get? hf) not_mem_nil
    · exact absurd he (some_ne_none e).symm
  have hhome : Scopes.Home (Scopes.enter {} none).2 [(Scopes.enter {} none).1]
      (Scopes.enter {} none).1 none :=
    .root (f := { parent := none }) mem_cons_self rfl rfl rfl
  refine hroot.cons (t := .block _ _) trivial ⟨hhome, nodup_nil, ?_, ?_⟩
  · exact forall_mem_nil _
  · exact forall_mem_cons.mpr ⟨trivial, forall_mem_nil _⟩

/-- The invariant is true all along. -/
theorem Reachable.fits (hP : Raises env P) {program : Program} {m : Machine}
    (h : Reachable env program m) : m.Fits env P := by
  induction h with
  | start => exact fits_start env P program
  | next _ ih => exact ih.next hP

end Machine

/-! ## Pulls -/

/-- Any error at all. -/
lemma raises_any (env : Environment) : Raises env fun _ => True where
  undefined _ _ := trivial
  unknown _ _ _ := trivial
  binding _ _ := trivial
  deep _ _ := trivial
  located _ _ := trivial
  operator _ site _ := ⟨fun plan _ => plan.raises_any site, fun _ _ => trivial⟩

/-- What a pull finds with a step, if it is over then. -/
def Move.found? : Move → Option (Stream.Pulled RuntimeError (Geometry Float))
  | step _ => none
  | item g _ => some (.item g)
  | failed e _ => some (.failed e)
  | finished _ => some .finished

/-- What is left to do when a pull is over: nothing but statements, and nothing at all behind the
last item. An error that is found is as `P` says. -/
def Move.Rests (P : RuntimeError → Prop) : Move → Prop
  | step _ => True
  | item _ m => ∀ t ∈ m.tasks, t.IsWaiting
  | failed e m => P e ∧ m.tasks = []
  | finished m => m.tasks = []

namespace Machine

variable {program : Program} {m m' : Machine}

lemma Fits.rests (h : m.Fits env P) : (m.move env).Rests P := by
  rcases move_cases env m with ⟨e, t, K, -, -, hmove⟩ | ⟨e, herror, htasks, hmove⟩
    | ⟨t, K, -, -, hmove⟩ |
    ⟨g, gs, K, -, htasks, hmove⟩ | ⟨-, htasks, hmove⟩
  all_goals rw [hmove]
  · trivial
  · exact ⟨h.raised e herror, htasks⟩
  · trivial
  · rw [Fits, htasks] at h
    exact forall_mem_cons.mpr ⟨trivial, h.fits.1⟩
  · exact htasks

variable {found : Stream.Pulled RuntimeError (Geometry Float)}

/-- What a pull finds is found by a step from a machine that can be reached. -/
lemma Reachable.exists_of_pull (h : Reachable env program m) {n : Nat} {log : Log}
    (hpull : m.pull env n = some (found, log, m')) :
    ∃ m₁, Reachable env program m₁ ∧ (m₁.move env).found? = some found ∧
      m' = (m₁.move env).next := by
  induction n generalizing m with
  | zero => cases hpull
  | succ n ih =>
    have hnext : Reachable env program (m.move env).next := h.next
    rw [Machine.pull] at hpull
    cases hmove : m.move env with
    | step m₁ =>
      rw [hmove] at hpull hnext
      exact ih hnext hpull
    | item | failed | finished =>
      rw [hmove] at hpull
      cases hpull
      exact ⟨m, h, by rw [hmove]; rfl, by rw [hmove]; rfl⟩

/-- What a pull leads to can be reached, and little is left to do there. -/
lemma Reachable.pull (hP : Raises env P) (h : Reachable env program m) {n : Nat} {log : Log}
    (hpull : m.pull env n = some (found, log, m')) :
    Reachable env program m' ∧ (∀ t ∈ m'.tasks, t.IsWaiting) ∧
      ((∀ g, found ≠ .item g) → m'.tasks = []) ∧
      ∀ e, found = .failed e → P e := by
  obtain ⟨m₁, hm₁, hfound, rfl⟩ := h.exists_of_pull hpull
  have hrests : (m₁.move env).Rests P := (hm₁.fits hP).rests
  have hidle : ∀ m : Machine, m.tasks = [] → ∀ t ∈ m.tasks, t.IsWaiting := fun m hm t ht =>
    absurd (hm ▸ ht) not_mem_nil
  refine ⟨hm₁.next, ?_⟩
  cases hmove : m₁.move env with
  | step =>
    rw [hmove] at hfound
    cases hfound
  | item g m₂ =>
    rw [hmove] at hfound hrests
    cases hfound
    exact ⟨hrests, fun hno => absurd rfl (hno g), by rintro e ⟨⟩⟩
  | failed e m₂ =>
    rw [hmove] at hfound hrests
    cases hfound
    exact ⟨hidle m₂ hrests.2, fun _ => hrests.2, fun _ he => by cases he; exact hrests.1⟩
  | finished m₂ =>
    rw [hmove] at hfound hrests
    cases hfound
    exact ⟨hidle m₂ hrests, fun _ => hrests, by rintro e ⟨⟩⟩

namespace After

lemma reachable {k : Nat} (h : After env program k m) : Reachable env program m := by
  induction h with
  | start => exact .start
  | pull _ hpull ih => exact (ih.pull (raises_any env) hpull).1

/-- Between pulls there are only statements to go on with. -/
lemma waiting {k : Nat} (h : After env program k m) : ∀ t ∈ m.tasks, t.IsWaiting := by
  cases h with
  | start => exact forall_mem_cons.mpr ⟨trivial, forall_mem_singleton.mpr trivial⟩
  | pull h hpull => exact (h.reachable.pull (raises_any env) hpull).2.1

end After

end Machine

end SolidScript
