import SolidScript.Proofs.Machine.Stock

/-!
# What a task can do

Whatever task is performed, what happens is a sequence of a few acts: operands are taken and left,
something is reported, further tasks are put in front, something is bound in a frame, a block or a
call is begun. Which tasks can be put in front and what can be bound depends on the task. What every
act keeps, every task keeps.
-/

namespace SolidScript

open List SolidScript.Task Option

/-! ## Acts -/

/-- The offers that a call is begun with. -/
def Call.offers : Call → List Offer
  | function _ _ => []
  | module ctx _ _ _ => ctx.offers

namespace Task

/-- The offers that a task is done with. -/
def offers : Task → List Offer
  | .block ctx _ | .branch ctx _ _ | .loop ctx _ _ | .rounds ctx _ _ _ _ | .operate ctx _ _ _ _
  | .ask ctx _ _ => ctx.offers
  | .enter c _ | .start c _ _ => c.offers
  | .keep offer _ _ => [offer]
  | _ => []

/-- The offer that a task makes to a module: the body of the invocation, to be run where the
invocation stands. -/
def Offers : Task → Offer → Prop
  | .start (.module ctx _ site body) _ _, offer =>
    offer.site = site ∧ offer.body = body ∧ offer.caller = ctx.frame
  | _, _ => False

/-- Whether a task waits for what is collected. -/
def gathers : Task → Bool
  | .fold _ _ _ | .keep _ _ _ => true
  | _ => false

/-- Whether a task can be put in front without anything else that belongs to it. -/
def isLoose : Task → Bool
  | .leave _ _ | .param _ _ _ _ | .fold _ _ _ | .keep _ _ _ => false
  | _ => true

/-- Whether a task can begin a block. -/
def opens : Task → Bool
  | .start _ _ _ | .branch _ _ _ | .rounds _ _ _ _ _ | .operate _ _ _ _ _ | .ask _ _ _ => true
  | _ => false

/-- How a task can set the children of a module. -/
def Sets : Task → Offspring → Prop
  | .start (.module _ _ _ _) _ _, .pending => True
  | .ask _ _ _, .forcing => True
  | .keep _ _ _, .ready _ => True
  | _, _ => False

/-- What a task can bind in a frame. -/
def Writes (t : Task) : Change → Prop
  | .children state => t.Sets state
  | _ => True

/-- One of the things that are done to perform a task, with what may be held. -/
inductive Act (S : Stock) (t : Task) : Machine → Machine → Prop where
  | hear (m : Machine) {w : World} (hw : m.world.Heard w) : Act S t m { m with world := w }
  | operands (m : Machine) (vs : List Value) : Act S t m { m with values := vs }
  /-- The offers of a task that is put in front are those of this one, or made by it. -/
  | todo (m : Machine) {t' : Task} (hloose : t'.isLoose)
    (hoffers : ∀ offer ∈ t'.offers, offer ∈ t.offers ∨ t.Offers offer)
    (h : t'.Stocked S) : Act S t m (m.todo [t'])
  /-- Wherever a parameter is to be given its value, an error will get a place. -/
  | param (m : Machine) (callee : String) (frame : FrameId) {p : Param} (hp : p.Within S.place)
    (given : Option Value)
    (hlocates : Task.Locates m.tasks) : Act S t m (m.todo [.param callee frame p given])
  | write (m : Machine) (frame : FrameId) {c : Change} (hc : t.Writes c) (h : c.Stocked S) :
    Act S t m (m.write frame c)
  | call (m : Machine) (name : String) : Act S t m { m with world := m.world.openCall name }
  | block (m : Machine) (hopens : t.opens) (parent : FrameId) (c : Option Call) :
    Act S t m { m with
      world := (m.world.openInside parent).2
      tasks := .leave (m.world.openInside parent).1 c :: m.tasks }
  | leave (m : Machine) {id : FrameId} {c : Option Call} (ht : t = .leave id c) :
    Act S t m { m with world := m.world.leave id c }
  /-- An item is added to what is being collected. -/
  | collect (m : Machine) {g : Geometry Float} (hg : S.geometry g) :
    Act S t m { m with collected := m.collected.modifyHead (· ++ [g]) }
  /-- Children are collected from now on, to be joined. -/
  | gather (m : Machine) {site : CallSite} {join : Geometry Float → Geometry Float → Geometry Float}
    {change : Geometry Float → Except RuntimeError (Geometry Float)}
    (h : (fold site join change).Stocked S) :
    Act S t m (m.gather.todo [.fold site join change])
  /-- Children are collected from now on, to be kept. -/
  | force (m : Machine) {ctx : Context} {site : CallSite} {keywords : List (Option String)}
    (ht : t = .ask ctx site keywords) {offer : Offer} (hoffer : offer ∈ ctx.offers)
    (args : Arguments) :
    Act S t m (m.gather.todo [.keep offer site args])
  /-- What the task itself has waited for is taken off. -/
  | collected (m : Machine) (hgathers : t.gathers) :
    Act S t m { m with collected := m.collected.tail }

/-- Any number of acts. -/
def Acts (S : Stock) (t : Task) : Machine → Machine → Prop := Relation.ReflTransGen (Act S t)

/-- Any number of acts, after which everything may be given up. -/
def Performs (S : Stock) (t : Task) (m m' : Machine) : Prop :=
  t.Acts S m m' ∨ ∃ m₁ e, t.Acts S m m₁ ∧ e.Stocked S m₁.tasks ∧ m' = m₁.raise e

section

variable {env : Environment} {S : Stock} {t : Task} {m₀ m : Machine}

lemma Performs.acts (h : t.Acts S m₀ m) : t.Performs S m₀ m := .inl h

namespace Acts

lemma refl : t.Acts S m m := Relation.ReflTransGen.refl

variable (h : t.Acts S m₀ m) {ctx : Context} (frame : FrameId) {α : Type}

include h

lemma step {m' : Machine} (hact : t.Act S m m') : t.Acts S m₀ m' :=
  Relation.ReflTransGen.tail h hact

lemma push (v : Value) : t.Acts S m₀ (m.push v) := h.step (.operands m _)

lemma raise {e : RuntimeError} (he : e.Stocked S m.tasks) : t.Performs S m₀ (m.raise e) :=
  .inr ⟨m, e, h, he, rfl⟩

/-- A task is put in front. -/
lemma cons {u : Task} (hloose : u.isLoose) (hoffers : u.offers ⊆ t.offers) (hu : u.Stocked S) :
    t.Acts S m₀ (m.todo [u]) := h.step (.todo m hloose (fun _ ho => .inl (hoffers ho)) hu)

lemma todo {ts : List Task} (hts : ∀ t' ∈ ts, ∀ us, t.Act S (m.todo us) ((m.todo us).todo [t'])) :
    t.Acts S m₀ (m.todo ts) := by
  induction ts with
  | nil => exact h
  | cons t' ts ih =>
    obtain ⟨ht', hts⟩ := forall_mem_cons.mp hts
    exact (ih hts).step (ht' ts)

lemma write {c : Change} (hc : t.Writes c) (hs : c.Stocked S) : t.Acts S m₀ (m.write frame c) :=
  h.step (.write m frame hc hs)

/-- Nothing but the operands changes where some of them are taken. -/
lemma withOperands {n : Nat} {f : List Value → Machine → Machine}
    (hf : ∀ vs vs', t.Acts S m₀ { m with values := vs' } →
      t.Performs S m₀ (f vs { m with values := vs' })) : t.Performs S m₀ (m.withOperands n f) :=
  hf _ _ (h.step (.operands m _))

/-- An operand is taken. -/
lemma withOperand {f : Value → Machine → Machine}
    (hf : ∀ v m', t.Acts S m₀ m' → t.Performs S m₀ (f v m')) : t.Performs S m₀ (m.withOperand f) :=
  h.withOperands fun _ _ hm => hf _ _ hm

lemma compute {x : Eval α} {Q : α → Prop} (hx : x.Quiet Q S.error) {f : α → Machine → Machine}
    (hf : ∀ a m', Q a → t.Acts S m₀ m' → t.Performs S m₀ (f a m')) :
    t.Performs S m₀ (m.compute x f) :=
  Machine.compute_cases (hx m.world) (fun a _ hw => hf a _ hw.2 (h.step (.hear m hw.1)))
    fun _ _ hw => (h.step (.hear m hw.1)).raise (.inl hw.2)

lemma lookUp {find? : Scopes → FrameId → Option α} {f : Option α → Machine → Machine}
    (hf : ∀ m', t.Acts S m₀ m' → t.Performs S m₀ (f (find? m.world.scopes frame) m')) :
    t.Performs S m₀ (m.compute (Eval.lookUp frame find?) f) :=
  hf _ (h.step (.hear m (.visit _ frame .lookUp)))

lemma reporting (x : Reporting α) {f : α → Machine → Machine}
    (hf : ∀ m', t.Acts S m₀ m' → t.Performs S m₀ (f x.value m')) :
    t.Performs S m₀ (m.compute (Eval.reporting x) f) :=
  hf _ (h.step (.hear m ⟨⟨rfl, rfl, rfl⟩, _, rfl⟩))

/-- A frame is opened, to be left later. -/
lemma inside (hopens : t.opens) (parent : FrameId) (c : Option Call)
    {f : FrameId → Machine → Machine} (hf : ∀ id m', t.Acts S m₀ m' → t.Acts S m₀ (f id m')) :
    t.Acts S m₀ (m.inside parent c f) :=
  hf _ _ (h.step (.block m hopens parent c))

lemma body (hopens : t.opens) (parent : FrameId) {block : Program} (hblock : block.Within S.place)
    {offers : List Offer} (hs : ∀ offer ∈ offers, offer.Stocked S) (hoffers : offers ⊆ t.offers) :
    t.Acts S m₀ (m.body parent block offers) := by
  unfold Machine.body
  split
  · exact h
  · exact h.inside hopens parent none fun id _ hm =>
      hm.cons (u := .block ⟨id, offers⟩ block) rfl hoffers ⟨hs, hblock⟩

lemma evaluate {es : List Expr} (hes : ∀ e ∈ es, e.Within S.place) {t' : Task} (hloose : t'.isLoose)
    (hoffers : t'.offers ⊆ t.offers) (ht' : t'.Stocked S) :
    t.Acts S m₀ (m.evaluate frame es t') := by
  rw [Machine.evaluate, Machine.todo_append]
  refine (h.cons hloose hoffers ht').todo fun t'' ht'' us => ?_
  obtain ⟨e, he, rfl⟩ := mem_map.mp ht''
  exact .todo _ rfl (forall_mem_nil _) (hes e he)

lemma emit {gs : List (Geometry Float)} (hgs : ∀ g ∈ gs, S.geometry g) :
    t.Acts S m₀ (m.todo [.emit gs]) :=
  h.cons rfl (nil_subset _) hgs

/-- Children are selected. -/
lemma select {gs : List (Geometry Float)} (hgs : ∀ g ∈ gs, S.geometry g) (site : CallSite)
    (args : Arguments) : t.Performs S m₀ (m.select gs site args) :=
  h.reporting _ fun _ hm => .acts (hm.emit fun g hg => hgs g (mem_of_mem_selectChildren hg))

lemma nothingOffered (site : CallSite) : t.Performs S m₀ (m.nothingOffered site) :=
  h.compute (.warn _ _) fun _ _ _ hm => .acts hm

variable (hS : S.Lawful env)

include hS

lemma enter {c : Call} (hc : c.Stocked S) (hoffers : c.offers ⊆ t.offers) (args : Arguments) :
    t.Performs S m₀ (m.enter env c args) := by
  have hbegun (names : List String) (specials : List (String × Value)) : t.Acts S m₀
      (Machine.todo { m with world := m.world.openCall c.name }
        [.located c.pos, .start c names specials]) := by
    have hstart := (h.step (.call m c.name)).cons (u := .start c names specials) rfl hoffers hc
    exact hstart.cons (u := .located c.pos) rfl (nil_subset _) hc.site
  unfold Machine.enter
  split
  · exact h.raise (.inl (hS.located hc.site _))
  · unfold Machine.supply
    split
    · -- the error has no place yet, but the call is there to give it one
      rename_i e he
      obtain ⟨detail, rfl⟩ := Parameters.prepare_error he
      exact (hbegun _ _).raise (.inr ⟨rfl, c.pos, mem_cons_self⟩)
    · rename_i filled specials hfilled
      rw [Machine.todo_append]
      refine .acts ((hbegun _ _).todo fun t' ht' us => ?_)
      obtain ⟨f, hf, rfl⟩ := mem_map.mp ht'
      have hparam : f.1 ∈ c.params := Parameters.map_fst_prepare hfilled ▸ mem_map_of_mem hf
      exact .param _ _ _ (hc.params f.1 hparam) _ (Locates.append ⟨c.pos, mem_cons_self⟩ us)

lemma ask {site : CallSite} {keywords : List (Option String)} (ht : t = .ask ctx site keywords)
    (hctx : ctx.Stocked S) (hscopes : m.world.scopes.Stocked S) (args : Arguments) :
    t.Performs S m₀ (m.ask ctx site args) := by
  subst ht
  refine h.lookUp ctx.frame fun m hm => ?_
  split
  · exact hm.nothingOffered site
  · exact hm.nothingOffered site
  · rename_i hfound
    exact hm.select (hscopes.of_children? hfound) site args
  · rename_i offer outer hoffers _
    exact hm.raise (.inl (hS.located (hctx offer (hoffers ▸ mem_cons_self)).1 _))
  · rename_i offer outer hoffers _
    have hsubset : offer :: outer ⊆ ctx.offers := hoffers ▸ Subset.refl _
    have hforcing := hm.write offer.frame (c := .children .forcing) trivial trivial
    have hgather := hforcing.step (.force _ rfl (hsubset mem_cons_self) args)
    obtain ⟨hoffer, houter⟩ := forall_mem_cons.mp fun o ho => hctx o (hsubset ho)
    exact .acts (hgather.body rfl _ hoffer.2 houter (subset_of_cons_subset hsubset))

/-- A plan is carried out. -/
lemma carryOut (hopens : t.opens) (hctx : ctx.Stocked S) (hoffers : ctx.offers ⊆ t.offers)
    {site : CallSite} (hsite : S.place site.pos) {block : Program} (hblock : block.Within S.place)
    {plan : Plan} (hplan : S.plan site plan) : t.Acts S m₀ (m.carryOut ctx site block plan) := by
  have hkeeps := hS.keeps hplan
  cases plan with
  | shape g => exact h.emit (forall_mem_singleton.mpr hkeeps)
  | relay => exact h.body hopens _ hblock hctx hoffers
  | fold join change => exact (h.step (.gather m ⟨hsite, hplan⟩)).body hopens _ hblock hctx hoffers

lemma expr {e : Expr} (he : e.Within S.place) : t.Performs S m₀ (e.begin frame m) := by
  have hself := he.self
  have hparts : ∀ part ∈ e.parts, part.Within S.place := fun _ => he.part
  cases e with
  | number | string | bool | undefined => exact .acts (h.push _)
  | var pos name =>
    exact h.compute (.readVariable frame name pos (hS.located hself _)) fun v _ _ hm =>
      .acts (hm.push v)
  | vector | index | binary | negate | not | compare | range | rangeBy =>
    exact .acts (h.evaluate frame hparts rfl (nil_subset _) trivial)
  | and pos left right | or pos left right =>
    obtain ⟨hleft, hright⟩ := forall_mem_cons.mp hparts
    have hright : right.Within S.place := hright right mem_cons_self
    exact .acts (h.evaluate frame (forall_mem_singleton.mpr hleft) rfl (nil_subset _) hright)
  | cond pos condition yes no =>
    obtain ⟨hcondition, hbranches⟩ := forall_mem_cons.mp hparts
    obtain ⟨hyes, hno⟩ := forall_mem_cons.mp hbranches
    exact .acts (h.evaluate frame (forall_mem_singleton.mpr hcondition) rfl (nil_subset _)
      ⟨hyes, forall_mem_singleton.mp hno⟩)
  | call pos name args => exact .acts (h.evaluate frame hparts rfl (nil_subset _) hself)

lemma callee {site : CallSite} (hsite : S.place site.pos) (args : Arguments)
    {callee : Option Callee}
    (hcallee : ∀ closure, callee = some (.own closure) → closure.definition.Within S.place) :
    t.Performs S m₀ (Callee.begin env site args m callee) := by
  rcases callee with _ | ⟨closure⟩ | ⟨f⟩
  · exact h.raise (.inl (hS.located hsite _))
  · exact h.enter hS (c := .function closure site) ⟨hsite, hcallee closure rfl⟩ (nil_subset _) args
  · rw [Callee.begin]
    exact h.reporting _ fun _ hm => .acts (hm.push _)

/-- A statement is begun. -/
lemma statement (hctx : ctx.Stocked S) (hoffers : ctx.offers ⊆ t.offers)
    (hscopes : m.world.scopes.Stocked S) {stmt : Statement} (hstmt : stmt.Within S.place) :
    t.Performs S m₀ (stmt.begin env ctx m) := by
  have hexprs := hstmt.exprs
  have hblocks := hstmt.blocks
  cases stmt with
  | assign | evaluate => exact .acts (h.evaluate _ hexprs rfl (nil_subset _) trivial)
  | defineModule => exact .acts (h.write _ trivial hstmt.moduleDef)
  | defineFunction => exact .acts (h.write _ trivial hstmt.functionDef)
  | branch pos condition yes no =>
    obtain ⟨hyes, hno⟩ := forall_mem_cons.mp hblocks
    exact .acts (h.evaluate _ hexprs rfl hoffers ⟨hctx, hyes, hno no mem_cons_self⟩)
  | loop pos bindings block =>
    exact .acts (h.evaluate _ hexprs rfl hoffers ⟨hctx, hblocks block mem_cons_self⟩)
  | invoke pos name args block =>
    have hblock : Program.Within S.place block := hblocks block mem_cons_self
    rw [Statement.begin]
    refine h.lookUp ctx.frame fun m hm => ?_
    unfold Machine.invoke
    dsimp only
    split
    · rename_i closure hfound
      exact .acts
        (hm.evaluate _ hexprs rfl hoffers ⟨hstmt.self, hscopes.module? hfound, hctx, hblock⟩)
    · split
      · exact .acts (hm.evaluate _ hexprs rfl hoffers hctx)
      · split
        · exact hm.raise (.inl (hS.located hstmt.self _))
        · rename_i operator hoperator
          exact .acts
            (hm.evaluate _ hexprs rfl hoffers ⟨hctx, hstmt.self, hblock, hS.operator hoperator⟩)

end Acts

/-! ### Tasks that are performed in several acts -/

variable {ctx : Context}

lemma performs_param (env : Environment) {callee : String} {frame : FrameId} {p : Param}
    {given : Option Value} (ht : (param callee frame p given).Stocked S)
    (hparam : ∀ e : RuntimeError, e.pos = none → e.Stocked S m.tasks) :
    (param callee frame p given).Performs S m
      ((param callee frame p given).perform env m) := by
  have hrefl : (param callee frame p given).Acts S m m := .refl
  obtain ⟨name, default⟩ := p
  cases given with
  | some v => exact .acts (hrefl.push v)
  | none =>
    cases default with
    | some e => exact .acts (hrefl.cons rfl (nil_subset _) (ht e rfl))
    | none => exact hrefl.raise (hparam _ rfl)

/-- A call binds its values in a fresh frame; the body of a module is offered what stands behind
it. -/
lemma performs_start (env : Environment) {c : Call} {names : List String}
    {specials : List (String × Value)} (ht : (start c names specials).Stocked S) :
    (start c names specials).Performs S m ((start c names specials).perform env m) := by
  rw [perform]
  refine Acts.refl.withOperands fun vs _ h => .acts (h.inside rfl c.home (some c) fun id m h => ?_)
  have hbound := h.write id (c := .values (names.zip vs ++ specials)) trivial trivial
  cases c with
  | function closure site => exact hbound.cons rfl (nil_subset _) ht.2.body
  | module ctx closure site body =>
    obtain ⟨hsite, hdefinition, hctx, hbody⟩ := ht
    have hpending := hbound.write id (c := .children .pending) trivial trivial
    have hoffers : Context.Stocked S ⟨id, ⟨site, body, ctx.frame, id⟩ :: ctx.offers⟩ :=
      forall_mem_cons.mpr ⟨⟨hsite, hbody⟩, hctx⟩
    refine hpending.step (.todo _ rfl (fun offer hoffer => ?_) ⟨hoffers, hdefinition.body⟩)
    rcases mem_cons.mp hoffer with rfl | hoffer
    · exact .inr ⟨rfl, rfl, rfl⟩
    · exact .inl hoffer

lemma performs_block {block : Program} (hS : S.Lawful env) (hscopes : m.world.scopes.Stocked S)
    (ht : (Task.block ctx block).Stocked S) :
    (Task.block ctx block).Performs S m ((Task.block ctx block).perform env m) := by
  have hrefl : (Task.block ctx block).Acts S m m := .refl
  cases block with
  | nil => exact .acts hrefl
  | cons stmt rest =>
    obtain ⟨hctx, hblock⟩ := ht
    obtain ⟨hstmt, hrest⟩ := hblock.cons
    have hnext := hrefl.cons (u := .block ctx rest) rfl (Subset.refl _) ⟨hctx, hrest⟩
    have hvisit := hnext.step (.hear _ (.visit _ ctx.frame (.run stmt)))
    exact hvisit.statement hS hctx (Subset.refl _) hscopes hstmt

lemma performs_rounds (env : Environment) {vars : LoopRange} {block : Program} {n i : Nat}
    (ht : (rounds ctx vars block n i).Stocked S) :
    (rounds ctx vars block n i).Performs S m
      ((rounds ctx vars block n i).perform env m) := by
  have hrefl : (rounds ctx vars block n i).Acts S m m := .refl
  cases n with
  | zero => exact .acts hrefl
  | succ n =>
    have hrest := hrefl.cons (u := .rounds ctx vars block n (i + 1)) rfl (Subset.refl _) ht
    rw [perform]
    refine .acts (hrest.inside rfl ctx.frame none fun id m h => ?_)
    exact (h.write id (c := .values (vars.bindings i)) trivial trivial).cons rfl (Subset.refl _) ht

/-- This is the one place where new geometry is made from what was collected. -/
lemma performs_fold {site : CallSite} {join : Geometry Float → Geometry Float → Geometry Float}
    {change : Geometry Float → Except RuntimeError (Geometry Float)} (hS : S.Lawful env)
    (hhead : ∀ g ∈ m.collected.headD [], S.geometry g) (ht : (fold site join change).Stocked S) :
    (fold site join change).Performs S m ((fold site join change).perform env m) := by
  have htail := Acts.refl.step (.collected m (t := .fold site join change) (S := S) rfl)
  show Performs S _ m (({ m with collected := m.collected.tail } : Machine).settle
    (Plan.joined site join change (m.collected.headD [])))
  cases hjoined : Plan.joined site join change (m.collected.headD []) with
  | error e => exact htail.raise (.inl (hS.raises ht.1 ht.2 _ e hjoined))
  | ok joined =>
    cases joined with
    | none => exact .acts htail
    | some g =>
      have hg : S.geometry g := hS.keeps ht.2 _ g hhead hjoined
      exact .acts (htail.emit (forall_mem_singleton.mpr hg))

/-- Whatever the task, it is performed by acts. -/
theorem performs_stocked (hS : S.Lawful env) (hscopes : m.world.scopes.Stocked S)
    (hcollected : ∀ gs ∈ m.collected, ∀ g ∈ gs, S.geometry g) (ht : t.Stocked S)
    (hparam : ∀ callee frame p given, t = .param callee frame p given →
      ∀ e : RuntimeError, e.pos = none → e.Stocked S m.tasks) :
    t.Performs S m (t.perform env m) := by
  have hrefl : t.Acts S m m := .refl
  have hhead : ∀ g ∈ m.collected.headD [], S.geometry g := by
    cases hcs : m.collected with
    | nil => exact forall_mem_nil _
    | cons gs cs => exact hcollected gs (hcs ▸ mem_cons_self)
  rw [perform.eq_def]
  cases t with
  | param callee frame p given => exact performs_param env ht (hparam _ _ _ _ rfl)
  | start c names specials => exact performs_start env ht
  | block ctx block => exact performs_block hS hscopes ht
  | rounds ctx vars block n i => exact performs_rounds env ht
  | fold site join change => exact performs_fold hS hhead ht
  | expr frame e => exact hrefl.expr frame hS ht
  | apply op n =>
    exact hrefl.withOperands fun vs _ h => h.compute (.apply op vs) fun v _ _ hm =>
      .acts (hm.push v)
  | and frame right =>
    refine hrefl.withOperand fun a m h => ?_
    split
    · exact .acts (h.evaluate frame (forall_mem_singleton.mpr ht) rfl (nil_subset _) trivial)
    · exact .acts (h.push _)
  | or frame right =>
    refine hrefl.withOperand fun a m h => ?_
    split
    · exact .acts (h.push _)
    · exact .acts (h.evaluate frame (forall_mem_singleton.mpr ht) rfl (nil_subset _) trivial)
  | choose frame yes no =>
    refine hrefl.withOperand fun c m h => .acts (h.cons rfl (nil_subset _) ?_)
    show Expr.Within S.place (if c.isTruthy then yes else no)
    split
    · exact ht.1
    · exact ht.2
  | call frame site keywords =>
    refine hrefl.withOperands fun vs _ h => h.lookUp frame fun _ hm => ?_
    exact hm.callee hS ht _ fun _ hclosure => hscopes.callee? hclosure
  | located pos => exact .acts hrefl
  | leave id c => exact .acts (hrefl.step (.leave m rfl))
  | bind frame name =>
    exact hrefl.withOperand fun v m h =>
      .acts (h.write frame (c := .values [(name, v)]) trivial trivial)
  | drop => exact hrefl.withOperand fun _ m h => .acts h
  | branch ctx yes no =>
    refine hrefl.withOperand fun c m h => ?_
    split
    · exact .acts (h.body rfl _ ht.2.1 ht.1 (Subset.refl _))
    · exact .acts (h.body rfl _ ht.2.2 ht.1 (Subset.refl _))
  | loop ctx names block =>
    exact hrefl.withOperands fun vs _ h => .acts (h.cons rfl (Subset.refl _) ht)
  | enter c keywords => exact hrefl.withOperands fun vs _ h => h.enter hS ht (Subset.refl _) _
  | operate ctx site keywords block operator =>
    obtain ⟨hctx, hsite, hblock, hoperator⟩ := ht
    refine hrefl.withOperands fun vs _ h => ?_
    refine h.compute (.checking (fun _ => hS.plan hoperator) fun _ => hS.refusal hoperator hsite)
      fun plan _ hplan hm => ?_
    exact .acts (hm.carryOut hS rfl hctx (Subset.refl _) hsite hblock hplan)
  | ask ctx site keywords => exact hrefl.withOperands fun vs _ h => h.ask hS rfl ht hscopes _
  | emit gs =>
    cases gs with
    | nil => exact .acts hrefl
    | cons g gs =>
      obtain ⟨hg, hgs⟩ := forall_mem_cons.mp ht
      exact .acts ((hrefl.step (.collect m hg)).emit hgs)
  | keep offer site args =>
    -- what was collected is kept with the frame, and selected from at once
    have htail := hrefl.step (.collected m rfl)
    exact (htail.write offer.frame (c := .children (.ready _)) trivial hhead).select hhead site args

end

end Task

/-! ## Anything at all -/

/-- Anything but operators may be held. -/
def Stock.withOperators (operator : Builtin.Operator → Prop) : Stock where
  place _ := True
  operator := operator
  plan _ _ := True
  geometry _ := True
  error _ := True

lemma Stock.lawful_withOperators (env : Environment) {P : Builtin.Operator → Prop}
    (h : ∀ name operator, env.registry.operators.lookup name = some operator → P operator) :
    (Stock.withOperators P).Lawful env where
  operator hoperator := h _ _ hoperator
  plan _ _ _ _ _ := trivial
  refusal _ _ _ _ _ _ := trivial
  keeps _ := Plan.keeps_any _ _
  raises _ _ _ := Plan.raises_any _ _
  located _ _ := trivial

/-- Anything at all may be held. -/
abbrev Stock.any : Stock := .withOperators fun _ => True

lemma Task.stocked_any (t : Task) : t.Stocked .any := by
  have hcall (c : Call) : c.Stocked .any := by
    cases c with
    | function => exact ⟨trivial, fun _ _ _ _ _ _ => trivial, fun _ _ => trivial⟩
    | module =>
      exact ⟨trivial, ⟨fun _ _ _ _ _ _ => trivial, fun _ _ => trivial⟩,
        fun _ _ => ⟨trivial, fun _ _ => trivial⟩, fun _ _ => trivial⟩
  cases t with
  | start c | enter c => exact hcall c
  | choose => exact ⟨fun _ _ => trivial, fun _ _ => trivial⟩
  | param => exact fun _ _ _ _ => trivial
  | block | loop | rounds => exact ⟨fun _ _ => ⟨trivial, fun _ _ => trivial⟩, fun _ _ => trivial⟩
  | branch =>
    exact ⟨fun _ _ => ⟨trivial, fun _ _ => trivial⟩, fun _ _ => trivial, fun _ _ => trivial⟩
  | operate =>
    exact ⟨fun _ _ => ⟨trivial, fun _ _ => trivial⟩, trivial, fun _ _ => trivial, trivial⟩
  | ask => exact fun _ _ => ⟨trivial, fun _ _ => trivial⟩
  | fold => exact ⟨trivial, trivial⟩
  | expr | and | or | emit => exact fun _ _ => trivial
  | _ => trivial

namespace Task

/-- Whatever the task and the machine, it is performed by acts. -/
theorem performs (env : Environment) (m : Machine) (t : Task) :
    t.Performs .any m (t.perform env m) := by
  have hframe (f : Frame) : f.Stocked .any :=
    ⟨fun _ _ => ⟨fun _ _ _ _ _ _ => trivial, fun _ _ => trivial⟩,
      fun _ _ => ⟨fun _ _ _ _ _ _ => trivial, fun _ _ => trivial⟩, fun _ _ _ _ => trivial⟩
  exact performs_stocked (Stock.lawful_withOperators env fun _ _ _ => trivial)
    (fun _ f _ => hframe f)
    (fun _ _ _ _ => trivial) t.stocked_any fun _ _ _ _ _ _ _ => .inl trivial

/-! ## What acts keep -/

variable {S : Stock} {t : Task} {m m' : Machine}

/-- An act only adds to the log. -/
lemma Act.log (h : t.Act S m m') : ∃ more, m'.world.log = m.world.log ++ more := by
  have hsame {w : World} (hw : w.log = m.world.log) : ∃ more, w.log = m.world.log ++ more :=
    ⟨{}, hw.trans (Log.append_empty _).symm⟩
  cases h with
  | hear hw => exact hw.log
  | @leave id c ht => cases c <;> exact hsame rfl
  | _ => exact hsame rfl

lemma Acts.log (h : t.Acts S m m') : ∃ more, m'.world.log = m.world.log ++ more := by
  induction h with
  | refl => exact ⟨{}, (Log.append_empty _).symm⟩
  | tail _ hact ih =>
    obtain ⟨more, hmore⟩ := ih
    obtain ⟨more', hmore'⟩ := hact.log
    exact ⟨more ++ more', by rw [hmore', hmore, Log.append_assoc]⟩

/-- What has been reported stays reported. -/
lemma Performs.log (h : t.Performs S m m') : ∃ more, m'.world.log = m.world.log ++ more := by
  rcases h with h | ⟨m₁, e, h, -, rfl⟩
  · exact h.log
  · exact h.log

/-- A task that another one can put in front. It ends nothing, and its offers are those of the other
one or made by it. -/
structure Begets (t t' : Task) : Prop where
  frame? : t'.frame? = none
  offers : ∀ offer ∈ t'.offers, offer ∈ t.offers ∨ t.Offers offer

lemma Acts.mem_tasks (h : t.Acts S m m') {t' : Task} (ht' : t' ∈ m'.tasks) :
    t' ∈ m.tasks ∨ t.Begets t' ∨ t.opens ∧ ∃ id c, t' = .leave id c := by
  induction h with
  | refl => exact .inl ht'
  | tail _ hact ih =>
    cases hact with
    | todo hloose hoffers =>
      rcases mem_cons.mp ht' with rfl | ht'
      · have hframe : t'.frame? = none := by cases t' <;> first | rfl | cases hloose
        exact .inr (.inl ⟨hframe, hoffers⟩)
      · exact ih ht'
    | param | gather =>
      rcases mem_cons.mp ht' with rfl | ht'
      · exact .inr (.inl ⟨rfl, forall_mem_nil _⟩)
      · exact ih ht'
    | force ht hoffer args =>
      rcases mem_cons.mp ht' with rfl | ht'
      · subst ht
        exact .inr (.inl ⟨rfl, forall_mem_singleton.mpr (.inl hoffer)⟩)
      · exact ih ht'
    | block hopens parent c =>
      rcases mem_cons.mp ht' with rfl | ht'
      · exact .inr (.inr ⟨hopens, _, _, rfl⟩)
      · exact ih ht'
    | _ => exact ih ht'

/-- Tasks that are there afterwards were there before, can be put in front, or leave a block. -/
lemma Performs.mem_tasks (h : t.Performs S m m') {t' : Task} (ht' : t' ∈ m'.tasks) :
    t' ∈ m.tasks ∨ t.Begets t' ∨ t.opens ∧ ∃ id c, t' = .leave id c := by
  rcases h with h | ⟨m₁, e, h, -, rfl⟩
  · exact h.mem_tasks ht'
  · exact h.mem_tasks (show t' ∈ m₁.tasks from ht')

end Task

namespace Machine

variable {env : Environment} {program : Program} {t : Task} {K : List Task} {m m' : Machine}
  {S : Stock}

/-! ### Steps -/

lemma log_abandon (t : Task) (e : RuntimeError) (m : Machine) :
    (t.abandon e m).world.log = m.world.log := by
  cases t with
  | leave id c => cases c <;> rfl
  | _ => rfl

lemma tasks_abandon (t : Task) (e : RuntimeError) (m : Machine) :
    (t.abandon e m).tasks = m.tasks := by
  cases t <;> rfl

/-- Once everything is given up, it stays so. -/
lemma error_abandon (t : Task) {e : RuntimeError} (herror : m.error = some e) :
    ∃ e', (t.abandon e m).error = some e' := by
  cases t with
  | located pos => exact ⟨_, rfl⟩
  | _ => exact ⟨e, herror⟩

/-- What has been reported stays reported with every step. -/
lemma log_of_step (h : m.move env = .step m') : ∃ more, m'.world.log = m.world.log ++ more := by
  rcases move_cases env m with ⟨e, t, K, -, -, hmove⟩ | ⟨e, -, -, hmove⟩ | ⟨t, K, -, -, hmove⟩
    | ⟨g, gs, K, -, -, hmove⟩ |
    ⟨-, -, hmove⟩
  all_goals
    rw [hmove] at h
    cases h
  · exact ⟨{}, (log_abandon t e _).trans (Log.append_empty _).symm⟩
  · exact (t.performs env { m with tasks := K }).log

/-- A pull reports what was reported before, and more. -/
lemma log_of_pull {n : Nat} {found : Stream.Pulled RuntimeError (Geometry Float)} {log : Log}
    (h : m.pull env n = some (found, log, m')) : ∃ more, log = m.world.log ++ more := by
  induction n generalizing m with
  | zero => exact absurd h (some_ne_none _).symm
  | succ n ih =>
    rw [Machine.pull] at h
    rcases move_cases env m with ⟨e, t, K, -, -, hmove⟩ | ⟨e, -, -, hmove⟩ | ⟨t, K, -, -, hmove⟩ |
      ⟨g, gs, K, -, -, hmove⟩ | ⟨-, -, hmove⟩
    case' inl | inr.inr.inl =>
      obtain ⟨more, hmore⟩ := log_of_step hmove
      rw [hmove] at h
      obtain ⟨more', hmore'⟩ := ih h
      exact ⟨more ++ more', by rw [hmore', hmore, Log.append_assoc]⟩
    all_goals
      rw [hmove] at h
      cases h
      exact ⟨{}, (Log.append_empty _).symm⟩

/-- Tasks that are there after a step were there before, are put in front by the first one, or leave
a block. -/
lemma mem_tasks_next {t' : Task} (h : t' ∈ (m.move env).next.tasks) :
    t' ∈ m.tasks ∨
      ∃ t K, m.error = none ∧ m.tasks = t :: K ∧
      (t.Begets t' ∨ t.opens ∧ ∃ id c, t' = .leave id c) := by
  rcases move_cases env m with ⟨e, t, K, -, htasks, hmove⟩ | ⟨e, -, -, hmove⟩
    | ⟨t, K, herror, htasks, hmove⟩ |
    ⟨g, gs, K, herror, htasks, hmove⟩ | ⟨-, -, hmove⟩
  all_goals rw [hmove] at h
  · have hK : t' ∈ (t.abandon e { m with tasks := K }).tasks := h
    rw [tasks_abandon] at hK
    exact .inl (htasks ▸ mem_cons_of_mem t hK)
  · exact .inl h
  · rcases (t.performs env { m with tasks := K }).mem_tasks h with hK | hnew
    · exact .inl (htasks ▸ mem_cons_of_mem t hK)
    · exact .inr ⟨t, K, herror, htasks, hnew⟩
  · rcases mem_cons.mp h with rfl | hK
    · exact .inr ⟨_, K, herror, htasks, .inl ⟨rfl, forall_mem_nil _⟩⟩
    · exact .inl (htasks ▸ mem_cons_of_mem _ hK)
  · exact .inl h

/-! ### What a machine holds -/

/-- Wherever a parameter is to be given its value, an error will get a place. -/
def Awaited : List Task → Prop
  | [] => True
  | .param _ _ _ _ :: K => Task.Locates K ∧ Awaited K
  | _ :: K => Awaited K

/-- All that a machine holds, the error for which everything is given up among it. -/
structure Stocked (S : Stock) (m : Machine) : Prop where
  wellFormed : Arena.WellFormed m.world.scopes
  scopes : m.world.scopes.Stocked S
  tasks (t : Task) (ht : t ∈ m.tasks) : t.Stocked S
  awaited : Awaited m.tasks
  collected (gs : List (Geometry Float)) (hgs : gs ∈ m.collected) : ∀ g ∈ gs, S.geometry g
  error (e : RuntimeError) (he : m.error = some e) : e.Stocked S m.tasks

namespace Stocked

variable (h : m.Stocked S)

include h

lemma cons (ht : t.Stocked S) (hawaited : Awaited (t :: m.tasks)) : (m.todo [t]).Stocked S where
  wellFormed := h.wellFormed
  scopes := h.scopes
  tasks := forall_mem_cons.mpr ⟨ht, h.tasks⟩
  awaited := hawaited
  collected := h.collected
  error e he := (h.error e he).imp_right fun hnone => ⟨hnone.1, hnone.2.append [t]⟩

lemma gather : m.gather.Stocked S :=
  { h with collected := forall_mem_cons.mpr ⟨forall_mem_nil _, h.collected⟩ }

lemma inside (parent : FrameId) (c : Option Call) :
    Stocked S { m with
      world := (m.world.openInside parent).2
      tasks := .leave (m.world.openInside parent).1 c :: m.tasks } := by
  have hworld : Stocked S { m with world := (m.world.openInside parent).2 } :=
    { h with wellFormed := h.wellFormed.push _, scopes := h.scopes.enter h.wellFormed _ }
  exact hworld.cons (t := .leave _ c) trivial h.awaited

lemma leave (id : FrameId) (c : Option Call) :
    Stocked S { m with world := m.world.leave id c } := by
  cases c <;> exact { h with wellFormed := h.wellFormed.release, scopes := h.scopes.release id }

/-- An item is collected for the innermost operator that gathers its children. -/
lemma collect {g : Geometry Float} (hg : S.geometry g) :
    Stocked S { m with collected := m.collected.modifyHead (· ++ [g]) } := by
  refine { h with collected := ?_ }
  have hcollected := h.collected
  cases hcs : m.collected with
  | nil => exact forall_mem_nil _
  | cons gs cs =>
    rw [hcs] at hcollected
    obtain ⟨hgs, hrest⟩ := forall_mem_cons.mp hcollected
    exact forall_mem_cons.mpr ⟨forall_mem_append.mpr ⟨hgs, forall_mem_singleton.mpr hg⟩, hrest⟩

lemma act (hact : t.Act S m m') : m'.Stocked S := by
  cases hact with
  | hear hw =>
    exact { h with wellFormed := hw.scopes ▸ h.wellFormed, scopes := hw.scopes ▸ h.scopes }
  | operands | call => exact { h with }
  | @todo t' hloose _ ht' =>
    exact h.cons ht' (by cases t' <;> first | exact h.awaited | nomatch hloose)
  | param _ _ hp _ hlocates => exact h.cons hp ⟨hlocates, h.awaited⟩
  | write frame _ hc =>
    exact { h with wellFormed := h.wellFormed.modify _, scopes := h.scopes.write frame hc }
  | block _ parent c => exact h.inside parent c
  | @leave id c => exact h.leave id c
  | collect hg => exact h.collect hg
  | gather ht' => exact h.gather.cons ht' h.awaited
  | force => exact h.gather.cons (t := .keep _ _ _) trivial h.awaited
  | collected => exact { h with collected := fun gs hgs => h.collected gs (mem_of_mem_tail hgs) }

lemma acts (hacts : t.Acts S m m') : m'.Stocked S := by
  induction hacts with
  | refl => exact h
  | tail _ hact ih => exact ih.act hact

/-- The first task is taken off. -/
lemma rest (htasks : m.tasks = t :: K) {o : Option RuntimeError}
    (herror : ∀ e, o = some e → e.Stocked S K) : Stocked S { m with tasks := K, error := o } where
  wellFormed := h.wellFormed
  scopes := h.scopes
  tasks u hu := h.tasks u (htasks ▸ mem_cons_of_mem t hu)
  awaited := by
    have hawaited := h.awaited
    rw [htasks] at hawaited
    cases t <;> first | exact hawaited.2 | exact hawaited
  collected := h.collected
  error := herror

variable (hS : S.Lawful env)

include hS

lemma perform (herror : m.error = none) (htasks : m.tasks = t :: K) :
    (t.perform env { m with tasks := K }).Stocked S := by
  have hnone : ∀ e, m.error = some e → e.Stocked S K := fun e he =>
    absurd (herror.symm.trans he) (some_ne_none e).symm
  have hK : Stocked S { m with tasks := K } := h.rest htasks hnone
  have hawaited := h.awaited
  rw [htasks] at hawaited
  have hparam : ∀ callee frame p given, t = .param callee frame p given →
      ∀ e : RuntimeError, e.pos = none → e.Stocked S K := by
    rintro callee frame p given rfl e he
    exact .inr ⟨he, hawaited.1⟩
  have ht := h.tasks t (htasks ▸ mem_cons_self)
  rcases t.performs_stocked hS hK.scopes hK.collected ht hparam with
    hacts | ⟨m₁, e, hacts, he, hraise⟩
  · exact hK.acts hacts
  · rw [hraise]
    exact { hK.acts hacts with
      collected := forall_mem_nil _, error := fun _ he' => some.inj he' ▸ he }

/-- A task is given up. An error without a place gets that of the first call that is waiting. -/
lemma abandon {e : RuntimeError} (herror : m.error = some e) (htasks : m.tasks = t :: K) :
    (t.abandon e { m with tasks := K }).Stocked S := by
  have ht : t.Stocked S := h.tasks t (htasks ▸ mem_cons_self)
  have he := h.error e herror
  rw [htasks] at he
  have hrest (hne : ∀ pos, t ≠ .located pos) : Stocked S { m with tasks := K } := by
    refine h.rest htasks (o := m.error) fun e' he' => ?_
    cases some.inj (herror.symm.trans he')
    refine he.imp_right fun hnone => ⟨hnone.1, ?_⟩
    obtain ⟨pos, hpos⟩ := hnone.2
    exact ⟨pos, (mem_cons.mp hpos).resolve_left fun heq => hne pos heq.symm⟩
  cases t with
  | located pos =>
    refine h.rest htasks (o := some (e.orAt pos)) fun e' he' => .inl ?_
    cases some.inj he'
    obtain ⟨cause, _ | place⟩ := e
    · exact hS.located ht cause
    · exact he.resolve_right fun hnone => nomatch hnone.1
  | leave id c => exact (hrest fun _ heq => nomatch heq).leave id c
  | start c names specials => exact { hrest fun _ heq => nomatch heq with }
  | _ => exact hrest fun _ heq => nomatch heq

/-- Every step keeps to it. -/
theorem next : (m.move env).next.Stocked S := by
  rcases move_cases env m with ⟨e, t, K, herror, htasks, hmove⟩ | ⟨e, -, -, hmove⟩
    | ⟨t, K, herror, htasks, hmove⟩ |
    ⟨g, gs, K, herror, htasks, hmove⟩ | ⟨-, -, hmove⟩
  all_goals rw [hmove]
  · exact h.abandon hS herror htasks
  · exact { h with error := fun _ he => nomatch he }
  · exact h.perform hS herror htasks
  · have hitems : Task.Stocked S (.emit (g :: gs)) := h.tasks _ (htasks ▸ mem_cons_self)
    have hK : Stocked S { m with tasks := K } := h.rest htasks (o := m.error) fun e he =>
      absurd (herror.symm.trans he) (some_ne_none e).symm
    exact { hK.cons (t := .emit gs) (forall_mem_cons.mp hitems).2 hK.awaited with }
  · exact { h with }

end Stocked

/-- All that a machine holds comes from the program or from operators. -/
theorem Reachable.stocked (hS : S.Lawful env) (hprogram : program.Within S.place)
    (h : Reachable env program m) : m.Stocked S := by
  induction h with
  | start =>
    have hempty : Scopes.Stocked S {} :=
      fun _ _ hf => absurd (Scopes.sound_empty.mem_of_get? hf) not_mem_nil
    refine ⟨Arena.wellFormed_empty.push _, hempty.enter Arena.wellFormed_empty none, ?_, trivial,
      forall_mem_nil _, fun _ he => nomatch he⟩
    exact forall_mem_cons.mpr ⟨⟨nofun, hprogram⟩, forall_mem_singleton.mpr trivial⟩
  | next _ ih => exact ih.next hS

end Machine

end SolidScript
