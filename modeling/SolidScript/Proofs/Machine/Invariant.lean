import SolidScript.Proofs.Builtin.Errors
import SolidScript.Proofs.Evaluation.Safety
import SolidScript.Proofs.Machine.Values
import SolidScript.Proofs.Scope.Home

/-!
# What is true of a machine all along

Everything that is in progress has a task that will end it: a block has one that leaves it, a call
one that ends it, and the body of an invocation that is being run one that keeps what it yields. So
the tasks tell which frames are alive, how many calls are in progress, and which children are being
built.
-/

namespace SolidScript

open Scopes List Option Arena

open Machine (running failing)

/-! ## What tasks are to end -/

namespace Task

/-- The frame of the block that a task is to end. -/
def frame? : Task → Option FrameId
  | .leave id _ => some id
  | _ => none

/-- What a task is to end, innermost first. -/
def activations : Task → List Activation
  | .leave id none => [.block id]
  | .leave id (some c) => [.block id, .call c.name]
  | .start c _ _ => [.call c.name]
  | _ => []

/-- Whether a task is to end a call. -/
def endsCall : Task → Bool
  | .leave _ (some _) => true
  | .start _ _ _ => true
  | _ => false

/-- The module whose children a task is to keep. -/
def forced? : Task → Option FrameId
  | .keep offer _ _ => some offer.frame
  | _ => none

def blocks (ts : List Task) : List FrameId := ts.filterMap frame?

def stack (ts : List Task) : List Activation := ts.flatMap activations

/-- How many calls are in progress. -/
def calls (ts : List Task) : Nat := ts.countP endsCall

def forced (ts : List Task) : List FrameId := ts.filterMap forced?

/-- A task that ends nothing. -/
def IsLight : Task → Prop
  | .leave _ _ | .start _ _ _ | .keep _ _ _ => False
  | _ => True

/-- A task that may be waiting while a statement is run. No expression is being evaluated then, and
no function is being called. -/
def IsWaiting : Task → Prop
  | .block _ _ | .rounds _ _ _ _ _ | .emit _ | .fold _ _ _ | .keep _ _ _ => True
  | .leave _ none => True
  | .leave _ (some (.module _ _ _ _)) => True
  | _ => False

section

variable {t : Task} (K : List Task)

lemma IsLight.blocks (ht : t.IsLight) : blocks (t :: K) = blocks K := by
  cases t <;> first | rfl | cases ht

lemma IsLight.stack (ht : t.IsLight) : stack (t :: K) = stack K := by
  cases t <;> first | rfl | cases ht

lemma IsLight.calls (ht : t.IsLight) : calls (t :: K) = calls K := by
  cases t <;> first | rfl | cases ht

lemma IsLight.forced (ht : t.IsLight) : forced (t :: K) = forced K := by
  cases t <;> first | rfl | cases ht

end

end Task

/-! ## What tasks rely on -/

/-- The offers to the modules around a frame: the nearest module was given the first one, and around
the place where it was invoked the others are in force. -/
def Linked (s : Scopes) (blocks : List FrameId) : FrameId → List Offer → Prop
  | frame, [] => s.Home blocks frame none
  | frame, offer :: outer =>
    s.Home blocks frame (some offer.frame) ∧ Linked s blocks offer.caller outer

/-- A context in which statements can be run before some tasks. None of the bodies that may be asked
for is being run. -/
structure Context.Fits (s : Scopes) (K : List Task) (ctx : Context) : Prop where
  linked : Linked s (Task.blocks K) ctx.frame ctx.offers
  nodup : (ctx.offers.map Offer.frame).Nodup
  unforced (offer : Offer) (hoffer : offer ∈ ctx.offers) : offer.frame ∉ Task.forced K
  waiting (t : Task) (ht : t ∈ K) : t.IsWaiting

def Call.Fits (s : Scopes) (K : List Task) : Call → Prop
  | .function closure _ => closure.frame ∈ Task.blocks K
  | .module ctx closure _ _ => closure.frame ∈ Task.blocks K ∧ ctx.Fits s K

/-- What a task relies on, given the tasks behind it: the frames that it uses are alive. -/
def Task.Fits (env : Environment) (P : RuntimeError → Prop) (s : Scopes) (K : List Task) :
    Task → Prop
  | .expr frame _ | .and frame _ | .or frame _ | .choose frame _ _ | .call frame _ _
  | .param _ frame _ _
  | .bind frame _ => frame ∈ blocks K
  | .start c _ _ | .enter c _ => c.Fits s K
  | .block ctx _ | .branch ctx _ _ | .loop ctx _ _ | .rounds ctx _ _ _ _ | .ask ctx _ _ =>
    ctx.Fits s K
  | .operate ctx _ _ _ operator => ctx.Fits s K ∧ operator.Raises P env.host
  | .fold site join change => (Plan.fold join change).Raises P site ∧ ∀ t ∈ K, t.IsWaiting
  | .keep offer _ _ =>
    (∃ f, get? s offer.frame = some f ∧ f.children.isSome) ∧ offer.frame ∈ blocks K ∧
      ∀ t ∈ K, t.IsWaiting
  | .emit _ => ∀ t ∈ K, t.IsWaiting
  | .apply _ _ | .located _ | .drop | .leave _ _ => True

/-- Every task relies on nothing but what there is. -/
def Task.AllFit (env : Environment) (P : RuntimeError → Prop) (s : Scopes) : List Task → Prop
  | [] => True
  | t :: K => t.Fits env P s K ∧ AllFit env P s K

section

variable {env : Environment} {P : RuntimeError → Prop} {s s' : Scopes} {K : List Task}

variable {blocks : List FrameId} {frame : FrameId} {offers : List Offer}

lemma Linked.transfer {blocks' : List FrameId} (hagree : Agree blocks s s')
    (hsub : blocks ⊆ blocks') (h : Linked s blocks frame offers) :
    Linked s' blocks' frame offers := by
  induction offers generalizing frame with
  | nil => exact Home.transfer hagree hsub h
  | cons offer outer ih => exact ⟨h.1.transfer hagree hsub, ih h.2⟩

lemma Linked.frame_mem (h : Linked s blocks frame offers) : frame ∈ blocks := by
  cases offers with
  | nil => exact Home.mem h
  | cons offer outer => exact h.1.mem

/-- The modules that were given offers are in progress. -/
lemma Linked.exists_frame (h : Linked s blocks frame offers) {offer : Offer}
    (hoffer : offer ∈ offers) :
    offer.frame ∈ blocks ∧ ∃ f, get? s offer.frame = some f ∧ f.children.isSome := by
  induction offers generalizing frame with
  | nil => exact absurd hoffer not_mem_nil
  | cons first outer ih =>
    rcases mem_cons.mp hoffer with rfl | hoffer
    · exact h.1.exists_frame
    · exact ih h.2 hoffer

lemma Context.Fits.transfer {ctx : Context} (hagree : Agree (Task.blocks K) s s')
    (h : ctx.Fits s K) : ctx.Fits s' K :=
  ⟨h.linked.transfer hagree (List.Subset.refl _), h.nodup, h.unforced, h.waiting⟩

lemma Call.Fits.transfer {c : Call} (hagree : Agree (Task.blocks K) s s') (h : c.Fits s K) :
    c.Fits s' K := by
  cases c with
  | function closure site => exact h
  | module ctx closure site body => exact ⟨h.1, h.2.transfer hagree⟩

/-- What a task relies on does not change while the frames stay where they are. -/
lemma Task.Fits.transfer {t : Task} (hagree : Agree (Task.blocks K) s s') (h : t.Fits env P s K) :
    t.Fits env P s' K := by
  cases t with
  | start | enter => exact Call.Fits.transfer hagree h
  | block | branch | loop | rounds | ask => exact Context.Fits.transfer hagree h
  | operate => exact ⟨Context.Fits.transfer hagree h.1, h.2⟩
  | keep offer =>
    obtain ⟨⟨f, hf, hchildren⟩, hmem, hwaiting⟩ := h
    obtain ⟨f', hf', -, hsame⟩ := hagree _ hmem f hf
    exact ⟨⟨f', hf', hsame.trans hchildren⟩, hmem, hwaiting⟩
  | _ => exact h

lemma Task.blocks_subset (t : Task) (K : List Task) : Task.blocks K ⊆ Task.blocks (t :: K) := by
  intro id hid
  obtain ⟨t', ht', hframe⟩ := mem_filterMap.mp hid
  exact mem_filterMap.mpr ⟨t', mem_cons_of_mem t ht', hframe⟩

lemma Task.blocks_tail_subset (ts : List Task) : Task.blocks ts.tail ⊆ Task.blocks ts := by
  cases ts with
  | nil => exact List.Subset.refl _
  | cons t K => exact Task.blocks_subset t K

/-- The same of all tasks. The frame of a block matters to no task but those in front of the one
that ends it. -/
lemma Task.AllFit.transfer {ts : List Task} (hagree : Agree (Task.blocks ts.tail) s s')
    (h : Task.AllFit env P s ts) : Task.AllFit env P s' ts := by
  induction ts with
  | nil => trivial
  | cons t K ih =>
    exact ⟨h.1.transfer hagree, ih (hagree.mono (Task.blocks_tail_subset K)) h.2⟩

end

/-! ## The invariant -/

/-- A state, tasks and an error that go together. -/
structure Fit (env : Environment) (P : RuntimeError → Prop) (w : World) (ts : List Task)
    (error : Option RuntimeError) : Prop where
  sound : w.scopes.Sound (Task.blocks ts)
  live : w.scopes.live = (Task.blocks ts).length
  stack : w.stack = Task.stack ts
  depth : w.depth = Task.calls ts
  limit : w.depth ≤ env.host.settings.maxDepth
  fits : Task.AllFit env P w.scopes ts
  /-- Children are being built only as long as there is a task that will keep them. -/
  forced (herror : error = none) (id : FrameId) (f : Frame) (hf : get? w.scopes id = some f)
    (hforcing : f.children = some .forcing) : id ∈ Task.forced ts
  raised (e : RuntimeError) (herror : error = some e) : P e

/-- The errors of programs and of what is built in are as `P` says. Errors of children that are
asked for twice are not among them. -/
structure Raises (env : Environment) (P : RuntimeError → Prop) : Prop where
  undefined (name : String) (pos : Position) : P ⟨.undefinedVariable name, some pos⟩
  unknown (kind : Callable) (name : String) (pos : Position) : P ⟨.unknown kind name, some pos⟩
  binding (callee detail : String) : P (Parameters.failure callee detail)
  deep (name : String) (pos : Position) : P (tooDeep env name pos)
  located {e : RuntimeError} (he : P e) (pos : Position) : P (e.orAt pos)
  operator {name : String} {operator : Builtin.Operator}
    (h : env.registry.operators.lookup name = some operator) :
    operator.Raises P env.host

open SolidScript.Task

namespace Fit

variable {env : Environment} {P : RuntimeError → Prop} {w w' : World} {t : Task} {K ts : List Task}
  {error : Option RuntimeError}

/-- A state in which nothing has moved. -/
lemma unmoved (h : Fit env P w ts error) (hw : w.Unmoved w') : Fit env P w' ts error := by
  obtain ⟨hscopes, hstack, hdepth⟩ := hw
  refine ⟨?_, ?_, hstack.trans h.stack, hdepth.trans h.depth, hdepth ▸ h.limit, ?_, ?_, h.raised⟩
  · exact hscopes ▸ h.sound
  · exact hscopes ▸ h.live
  · exact hscopes ▸ h.fits
  · exact hscopes ▸ h.forced

lemma raise (h : Fit env P w ts error) {e : RuntimeError} (he : P e) : Fit env P w ts (some e) :=
  { h with
    forced := fun herror => absurd herror (some_ne_none e)
    raised := fun _ herror => some.inj herror ▸ he }

/-- Other tasks, which are to end the same. -/
lemma retask (h : Fit env P w ts error) (hblocks : blocks K = blocks ts)
    (hstack : Task.stack K = Task.stack ts) (hcalls : calls K = calls ts)
    (hforced : Task.forced K = Task.forced ts) (hfits : AllFit env P w.scopes K) :
    Fit env P w K error where
  sound := hblocks ▸ h.sound
  live := hblocks ▸ h.live
  stack := h.stack.trans hstack.symm
  depth := h.depth.trans hcalls.symm
  limit := h.limit
  fits := hfits
  forced := hforced ▸ h.forced
  raised := h.raised

lemma cons (h : Fit env P w K error) (ht : t.IsLight) (hfits : t.Fits env P w.scopes K) :
    Fit env P w (t :: K) error :=
  h.retask (ht.blocks K) (ht.stack K) (ht.calls K) (ht.forced K) ⟨hfits, h.fits⟩

lemma tail (h : Fit env P w (t :: K) error) (ht : t.IsLight) : Fit env P w K error :=
  h.retask (ht.blocks K).symm (ht.stack K).symm (ht.calls K).symm (ht.forced K).symm h.fits.2

/-- Operands are evaluated in a live frame before anything else. -/
lemma operands (h : Fit env P w K error) (ts : List Task) (hts : ∀ t ∈ ts, t.IsLight ∧
    ∀ K', blocks K' = blocks K → t.Fits env P w.scopes K') :
    Fit env P w (ts ++ K) error ∧ blocks (ts ++ K) = blocks K := by
  induction ts with
  | nil => exact ⟨h, rfl⟩
  | cons t ts ih =>
    obtain ⟨ht, hts⟩ := forall_mem_cons.mp hts
    obtain ⟨hfit, hblocks⟩ := ih hts
    refine ⟨hfit.cons ht.1 (ht.2 _ hblocks), ?_⟩
    exact (ht.1.blocks _).trans hblocks

/-- Something is bound. The frame is and stays that of a module, or is and stays none, unless it is
the one of the first task. -/
lemma write (h : Fit env P w ts none) {id : FrameId} {c : Change}
    (hc : Agree (blocks ts.tail) w.scopes (w.scopes.write id c))
    (hforcing : ∀ f, (c.apply id f).children = some .forcing → f.children ≠ some .forcing →
      id ∈ Task.forced ts) : Fit env P (w.write id c) ts none where
  sound := h.sound.write c
  live := (live_modify _).trans h.live
  stack := h.stack
  depth := h.depth
  limit := h.limit
  fits := h.fits.transfer hc
  forced herror j f hf hchildren := by
    rw [show (w.write id c).scopes = w.scopes.write id c from rfl, get?_write] at hf
    split at hf
    · rename_i heq
      subst heq
      obtain ⟨g, hg, rfl⟩ := map_eq_some_iff.mp hf
      -- children that were being built before still are, so only a change to that state is of
      -- interest
      by_cases hbefore : g.children = some .forcing
      · exact h.forced herror j g hg hbefore
      · exact hforcing g hchildren hbefore
    · exact h.forced herror j f hf hchildren
  raised := h.raised

/-- To bind a name is no matter of children. -/
lemma write_name (h : Fit env P w ts none) {id : FrameId} {c : Change}
    (hc : ∀ f : Frame, (c.apply id f).children = f.children) :
    Fit env P (w.write id c) ts none := by
  refine h.write (.write c fun f _ _ => congrArg isSome (hc f)) fun f hforcing hbefore => ?_
  rw [hc] at hforcing
  exact absurd hforcing hbefore

/-- A block is begun in a live frame. Its task takes the place of one that was to begin it, if there
was one. -/
lemma inside {parent : FrameId} {c : Option Call} (h : Fit env P w ts none)
    (hparent : parent ∈ blocks ts) (hblocks : blocks ts = blocks K)
    (hstack : activations (.leave (w.openInside parent).1 c) ++ Task.stack K =
      .block (w.openInside parent).1 :: Task.stack ts)
    (hcalls : calls (.leave (w.openInside parent).1 c :: K) = calls ts)
    (hforced : Task.forced ts = Task.forced K) (hfits : AllFit env P w.scopes K) :
    Fit env P (w.openInside parent).2 (.leave (w.openInside parent).1 c :: K) none where
  sound := by
    show (w.scopes.enter (some parent)).2.Sound ((w.scopes.enter (some parent)).1 :: blocks K)
    rw [← hblocks]
    exact h.sound.enter fun p hp => some.inj hp ▸ hparent
  live := by
    show (w.scopes.enter (some parent)).2.live = (blocks K).length + 1
    rw [← hblocks, ← h.live]
    exact live_push _
  stack := by
    show .block (w.openInside parent).1 :: w.stack = _
    rw [h.stack]
    exact hstack.symm
  depth := h.depth.trans hcalls.symm
  limit := h.limit
  fits := ⟨trivial, hfits.transfer (.enter h.sound.wellFormed _)⟩
  forced herror id f hf hforcing := by
    show id ∈ Task.forced K
    rw [← hforced]
    have hget := get?_enter h.sound.wellFormed (some parent) id
    rw [show (w.openInside parent).2.scopes = (w.scopes.enter (some parent)).2 from rfl, hget] at hf
    split at hf
    · -- a fresh frame is that of no module yet
      obtain rfl := some.inj hf
      exact absurd hforcing (some_ne_none _).symm
    · exact h.forced herror id f hf hforcing
  raised := h.raised

/-- A block is left, and with it the call whose body it is. -/
lemma leave {id : FrameId} {c : Option Call} (h : Fit env P w (.leave id c :: K) error) :
    Fit env P (w.leave id c) K error := by
  have hsound : w.scopes.Sound (id :: blocks K) := h.sound
  have hid : id ∉ blocks K := hsound.nested.2.1
  obtain ⟨f, hf⟩ := hsound.exists_frame mem_cons_self
  have hscopes : (w.leave id c).scopes = release w.scopes id := by
    cases c <;> rfl
  have hlive : (release w.scopes id).live = (blocks K).length := by
    have hbefore : w.scopes.live = (blocks K).length + 1 := h.live
    rw [live_release hf, hbefore]
    omega
  have hdepth : (w.leave id c).depth = calls K ∧ (w.leave id c).depth ≤ w.depth := by
    have hcalls := h.depth
    cases c with
    | none => exact ⟨hcalls.trans (countP_cons_of_neg Bool.false_ne_true), Nat.le_refl _⟩
    | some c =>
      rw [calls, countP_cons_of_pos rfl] at hcalls
      show w.depth - 1 = countP endsCall K ∧ w.depth - 1 ≤ w.depth
      omega
  refine ⟨?_, ?_, ?_, hdepth.1, hdepth.2.trans h.limit, ?_, ?_, h.raised⟩
  · rw [hscopes]
    exact hsound.release
  · rw [hscopes]
    exact hlive
  · cases c <;> simp [World.leave, World.closeBlock, World.closeCall, h.stack, Task.stack,
      activations]
  · -- no task behind this one relies on the frame that goes
    rw [hscopes]
    exact h.fits.2.transfer ((Agree.release hid).mono (blocks_tail_subset K))
  · intro herror j g hg hforcing
    rw [hscopes, get?_release] at hg
    split at hg
    · exact absurd hg (some_ne_none g).symm
    · exact h.forced herror j g hg hforcing

lemma openCall (h : Fit env P w K none) {c : Call} (hroom : w.depth < env.host.settings.maxDepth)
    (hc : c.Fits w.scopes K) (names : List String) (specials : List (String × Value)) :
    Fit env P (w.openCall c.name) (.start c names specials :: K) none :=
  { h with
    stack := congrArg (Activation.call c.name :: ·) h.stack
    depth := by
      rw [calls, countP_cons_of_pos rfl]
      exact congrArg (· + 1) h.depth
    limit := hroom
    fits := ⟨hc, h.fits⟩ }

/-- A call is over before its body was run. -/
lemma closeCall {c : Call} {names : List String} {specials : List (String × Value)}
    (h : Fit env P w (.start c names specials :: K) error) : Fit env P w.closeCall K error :=
  { h with
    stack := congrArg List.tail h.stack
    depth := by
      have hcalls := h.depth
      rw [calls, List.countP_cons_of_pos rfl] at hcalls
      show w.depth - 1 = List.countP endsCall K
      omega
    limit := (Nat.sub_le _ _).trans h.limit
    fits := h.fits.2 }

/-- The body of an invocation is run, and what it yields will be kept. -/
lemma keep (h : Fit env P w K none) {offer : Offer} {site : CallSite} {args : Arguments}
    (hfits : Fits env P w.scopes K (.keep offer site args)) :
    Fit env P (w.write offer.frame (.children .forcing)) (.keep offer site args :: K) none := by
  have hkeep : Fit env P w (.keep offer site args :: K) none :=
    { h with
      fits := ⟨hfits, h.fits⟩
      forced := fun herror id f hf hforcing =>
        mem_cons_of_mem _ (h.forced herror id f hf hforcing) }
  exact hkeep.write (.write_children _ hfits.1) fun _ _ _ => mem_cons_self

/-- What the body of an invocation yielded is kept. -/
lemma kept {offer : Offer} {site : CallSite} {args : Arguments}
    (h : Fit env P w (.keep offer site args :: K) none) (gs : List (Geometry Float)) :
    Fit env P (w.write offer.frame (.children (.ready gs))) K none where
  sound := h.sound.write _
  live := (live_modify _).trans h.live
  stack := h.stack
  depth := h.depth
  limit := h.limit
  fits := h.fits.2.transfer (.write_children _ h.fits.1.1)
  forced herror id f hf hforcing := by
    rw [show (w.write offer.frame (.children (.ready gs))).scopes =
      w.scopes.write offer.frame (.children (.ready gs)) from
      rfl, get?_write] at hf
    split at hf
    · obtain ⟨g, -, rfl⟩ := map_eq_some_iff.mp hf
      exact absurd (some.inj hforcing) Offspring.noConfusion
    · -- only the children of the innermost of these modules are done
      rename_i hne
      have hmem := h.forced herror id f hf hforcing
      exact (mem_cons.mp hmem).resolve_left hne
  raised := h.raised

/-- An error that has been handed out is no longer there, and neither are any frames. -/
lemma lower (h : Fit env P w [] error) : Fit env P w [] none :=
  { h with
    forced := fun _ _ _ hf _ => absurd (h.sound.mem_of_get? hf) not_mem_nil
    raised := fun e he => absurd he (some_ne_none e).symm }

end Fit

end SolidScript
