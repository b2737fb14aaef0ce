import SolidScript.Proofs.Evaluation.Computation
import SolidScript.Proofs.Evaluation.Holds
import SolidScript.Proofs.Scope.Nesting

/-!
# Computations leave the scopes as they were

To evaluate an expression is to look things up, to call functions in frames of their own, and to
report. Whatever frames come up in between are gone at the end, and all of them are alive while they
are used.
-/

namespace SolidScript

open Arena Option

/-- A use of a live frame, in scopes where no frame has lost its parent: there is a complete walk
outward, whatever is looked up from the frame is the first of its kind on that walk, and whatever is
bound in the frame is there afterwards. -/
structure Visit.Sound (v : Visit) : Prop where
  parent_live (id : FrameId) (f : Frame) (parent : FrameId) (hf : get? v.scopes id = some f)
    (hparent : f.parent = some parent) : (get? v.scopes parent).isSome
  looked_up : ∃ ids, Arena.Path v.scopes Frame.parent v.frame ids ∧
    ∀ (α : Type) (pick : Frame → Option α), find? v.scopes Frame.parent pick v.frame =
      ids.findSome? fun id => (get? v.scopes id).bind pick
  bound (c : Change) : ∃ f, get? v.scopes v.frame = some f ∧
    get? (v.scopes.write v.frame c) v.frame = some (c.apply v.frame f)

variable {name : String}

lemma mem_of_lookup {α : Type} {a : α} {bound : List (String × α)}
    (h : bound.lookup name = some a) : (name, a) ∈ bound := by
  obtain ⟨before, after, rfl, -⟩ := List.lookup_eq_some_iff.mp h
  exact List.mem_append_right before List.mem_cons_self

namespace Scopes.Sound

variable {s : Scopes} {blocks : List FrameId} {frame : FrameId}

/-- Frames of blocks in progress may be used. -/
lemma visit (h : s.Sound blocks) (hframe : frame ∈ blocks) (use : Use) :
    Visit.Sound ⟨s, frame, use⟩ := by
  obtain ⟨ids, hpath, hnodup, -⟩ := h.exists_path hframe
  obtain ⟨f, hf⟩ := h.exists_frame hframe
  refine ⟨fun id f parent hf hparent => ?_,
    ⟨ids, hpath, fun α pick => hpath.walk.find?_eq pick hnodup⟩, fun c => ?_⟩
  · exact (h.isSome_iff parent).mpr (h.parent_mem hf hparent)
  · exact ⟨f, hf, Scopes.get?_write_self c hf⟩

/-- What is found by a search stands in a live frame. -/
lemma exists_of_find? {α : Type} (h : s.Sound blocks) (hframe : frame ∈ blocks)
    {pick : Frame → Option α} {a : α} (hfound : find? s Frame.parent pick frame = some a) :
    ∃ id ∈ blocks, ∃ f, get? s id = some f ∧ pick f = some a := by
  obtain ⟨ids, hpath, hnodup, hsub⟩ := h.exists_path hframe
  rw [hpath.walk.find?_eq pick hnodup] at hfound
  obtain ⟨id, hid, hpick⟩ := List.exists_of_findSome?_eq_some hfound
  obtain ⟨f, hf, hpick⟩ := bind_eq_some_iff.mp hpick
  exact ⟨id, hsub hid, f, hf, hpick⟩

/-- A module that is found was defined in a live frame, and is kept there. -/
lemma exists_of_module? (h : s.Sound blocks) (hframe : frame ∈ blocks) {closure : ModuleClosure}
    (hfound : s.module? frame name = some closure) :
    closure.frame ∈ blocks ∧ ∃ f, get? s closure.frame = some f ∧ (name, closure) ∈
      f.modules := by
  obtain ⟨id, hid, f, hf, hlookup⟩ := h.exists_of_find? hframe hfound
  have hmem := mem_of_lookup hlookup
  have hhome : closure.frame = id := (h.atHome id f hf).1 _ hmem
  rw [hhome]
  exact ⟨hid, f, hf, hmem⟩

/-- A function that is found was defined in a live frame. -/
lemma function?_frame_mem (h : s.Sound blocks) (hframe : frame ∈ blocks) {closure : FunctionClosure}
    (hfound : s.function? frame name = some closure) : closure.frame ∈ blocks := by
  obtain ⟨id, hid, f, hf, hlookup⟩ := h.exists_of_find? hframe hfound
  rw [(h.atHome id f hf).2 _ (mem_of_lookup hlookup)]
  exact hid

end Scopes.Sound

/-- A function of the program that is called was found in the scopes. -/
lemma function?_of_callee? {env : Environment} {s : Scopes} {frame : FrameId}
    {closure : FunctionClosure} (h : env.callee? s frame name = some (.own closure)) :
    s.function? frame name = some closure := by
  unfold Environment.callee? at h
  split at h
  · rename_i found hfound
    rw [hfound, Callee.own.inj (some.inj h)]
  · obtain ⟨f, -, hf⟩ := map_eq_some_iff.mp h
    exact absurd hf Callee.noConfusion

/-- The use of a frame is not that of a statement. -/
def Use.IsPart : Use → Prop
  | .run _ => False
  | _ => True

/-- What a computation may do to the state: the frames are the same, up to an own one, nothing that
was begun is left open, and every frame that was used was alive. -/
structure Steady (own : Option FrameId) (blocks : List FrameId) (w w' : World) : Prop where
  sound : w'.scopes.Sound blocks
  get?_eq (id : FrameId) (hid : own ≠ some id) : get? w'.scopes id = get? w.scopes id
  stack : w'.stack = w.stack
  visits (v : Visit) (hv : w'.visits v) : w.visits v ∨ v.Sound ∧ v.use.IsPart

namespace Steady

variable {own : Option FrameId} {blocks : List FrameId} {w w' w'' : World}

lemma refl (h : w.scopes.Sound blocks) : Steady own blocks w w :=
  ⟨h, fun _ _ => rfl, rfl, fun _ hv => .inl hv⟩

lemma trans (h : Steady own blocks w w') (h' : Steady own blocks w' w'') :
    Steady own blocks w w'' where
  sound := h'.sound
  get?_eq id hid := (h'.get?_eq id hid).trans (h.get?_eq id hid)
  stack := h'.stack.trans h.stack
  visits v hv := by
    rcases h'.visits v hv with hv | hv
    · exact h.visits v hv
    · exact .inr hv

lemma mono (h : Steady none blocks w w') : Steady own blocks w w' where
  sound := h.sound
  get?_eq id _ := h.get?_eq id (some_ne_none id).symm
  stack := h.stack
  visits := h.visits

/-- A block that is begun and ended leaves the frames as they were. -/
lemma closeBlock {parent : FrameId} (hs : w.scopes.Sound blocks) (hparent : parent ∈ blocks)
    (h : Steady (some (w.openInside parent).1) ((w.openInside parent).1 :: blocks)
      (w.openInside parent).2 w') : Steady none blocks w (w'.closeBlock
      (w.openInside parent).1) where
  sound := h.sound.release
  get?_eq id _ := by
    show get? (release w'.scopes (w.openInside parent).1) id = _
    rw [get?_release]
    by_cases hid : id = (w.openInside parent).1
    · rw [if_pos hid, hid]
      exact (get?_push_id hs.wellFormed _).symm
    · rw [if_neg hid, h.get?_eq id fun heq => hid (some.inj heq).symm]
      exact (get?_push hs.wellFormed _ id).trans (if_neg hid)
  stack := congrArg List.tail h.stack
  visits v hv := by
    rcases h.visits v hv with (rfl | hv) | hv
    · exact .inr ⟨hs.visit hparent .enclose, trivial⟩
    · exact .inl hv
    · exact .inr hv

lemma write {frame : FrameId} (hs : w.scopes.Sound blocks) (hframe : frame ∈ blocks) (c : Change) :
    Steady (some frame) blocks w (w.write frame c) where
  sound := hs.write c
  get?_eq id hid := (Scopes.get?_write c id).trans (if_neg fun heq => hid (congrArg some heq.symm))
  stack := rfl
  visits v hv := by
    rcases hv with rfl | hv
    · exact .inr ⟨hs.visit hframe (.write c), trivial⟩
    · exact .inl hv

end Steady

namespace Eval

variable {α β : Type} {frame : FrameId}

/-- A computation that does no more than that when it begins in a live frame. -/
def SteadyIn (frame : FrameId) (α : Type) (x : Eval α) : Prop :=
  ∀ w blocks, w.scopes.Sound blocks → frame ∈ blocks →
    x.Holds w (fun _ => Steady none blocks w) fun _ => Steady none blocks w

namespace SteadyIn

lemma bind {x : Eval α} {f : α → Eval β} (hx : SteadyIn frame α x)
    (hf : ∀ a, SteadyIn frame β (f a)) : SteadyIn frame β (x >>= f) := by
  intro w blocks hs hframe
  refine (hx w blocks hs hframe).bind fun a w' hw => ?_
  exact (hf a w' blocks hw.sound hframe).mono (fun _ _ => hw.trans) fun _ _ => hw.trans

lemma closed (frame : FrameId) : Closed (SteadyIn frame) where
  pure _ _ _ hs _ := Steady.refl hs
  throw _ _ _ _ hs _ := Steady.refl hs
  warn _ _ _ _ hs _ := ⟨hs, fun _ _ => rfl, rfl, fun _ hv => .inl hv⟩
  bind := bind

variable (find? : Scopes → FrameId → Option α)

/-- A lookup is a use of its frame and nothing else. -/
lemma lookUp_holds {w : World} {blocks : List FrameId} (hs : w.scopes.Sound blocks)
    (hframe : frame ∈ blocks) (E : RuntimeError → World → Prop) :
    (Eval.lookUp frame find?).Holds w
      (fun found w' => found = find? w.scopes frame ∧ Steady none blocks w w') E := by
  refine ⟨rfl, hs, fun _ _ => rfl, rfl, fun v hv => ?_⟩
  rcases hv with rfl | hv
  · exact .inr ⟨hs.visit hframe .lookUp, trivial⟩
  · exact .inl hv

lemma lookUp : SteadyIn frame (Option α) (Eval.lookUp frame find?) :=
  fun _ _ hs hframe => (lookUp_holds find? hs hframe _).mono (fun _ _ h => h.2) fun _ _ h => h

lemma reporting (frame : FrameId) (x : Reporting α) : SteadyIn frame α (Eval.reporting x) :=
  fun _ _ hs _ => ⟨hs, fun _ _ => rfl, rfl, fun _ hv => .inl hv⟩

lemma checking (x : Check α) : SteadyIn frame α (Eval.checking x) := by
  intro w blocks hs _
  unfold Holds Eval.checking
  dsimp only
  cases x.run.value <;> exact ⟨hs, fun _ _ => rfl, rfl, fun _ hv => .inl hv⟩

lemma orAt {x : Eval α} (hx : SteadyIn frame α x) (pos : Position) :
    SteadyIn frame α (x.orAt pos) :=
  fun w blocks hs hframe => .orAt (hx w blocks hs hframe)

lemma inCall {x : Eval α} (name : String) (hx : SteadyIn frame α x) :
    SteadyIn frame α (Eval.inCall name x) := by
  intro w blocks hs hframe
  have hclose (w' : World) (h : Steady none blocks (w.openCall name) w') :
      Steady none blocks w w'.closeCall :=
    ⟨h.sound, h.get?_eq, congrArg List.tail h.stack, h.visits⟩
  have h := hx (w.openCall name) blocks hs hframe
  exact .inCall (h.mono (fun _ => hclose) fun _ => hclose)

/-- A computation in a frame of its own may do anything to that frame. -/
lemma inBlock {parent : FrameId} {x : FrameId → Eval α}
    (hx : ∀ id w blocks, w.scopes.Sound blocks → id ∈ blocks →
      (x id).Holds w (fun _ => Steady (some id) blocks w) fun _ => Steady (some id) blocks w) :
    SteadyIn parent α (Eval.inBlock parent x) := by
  intro w blocks hs hparent
  have hopen : (w.openInside parent).2.scopes.Sound ((w.openInside parent).1 :: blocks) :=
    hs.enter fun p hp => some.inj hp ▸ hparent
  exact .inBlock ((hx _ _ _ hopen List.mem_cons_self).mono
    (fun _ _ => Steady.closeBlock hs hparent) fun _ _ => Steady.closeBlock hs hparent)

variable {call : CallFunction}

lemma closedIn (hcall : ∀ frame site args, SteadyIn frame Value (call frame site args))
    (frame : FrameId) : ClosedIn (SteadyIn frame) call frame where
  toClosedUnder := closed frame
  value _ := lookUp _
  call := hcall frame

lemma callNamed (env : Environment) {own : FunctionClosure → CallSite → Arguments → Eval Value}
    (hown : ∀ closure site args, SteadyIn closure.frame Value (own closure site args))
    (frame : FrameId) (site : CallSite) (args : Arguments) :
    SteadyIn frame Value (callNamed env own frame site args) := by
  intro w blocks hs hframe
  refine (lookUp_holds _ hs hframe _).bind fun callee w' hw => ?_
  obtain ⟨hcallee, hw⟩ := hw
  refine Holds.mono ?_ (fun _ _ => hw.trans) fun _ _ => hw.trans
  split
  · -- a function of the program was defined in a frame that is still alive
    rename_i closure
    have hfound := function?_of_callee? hcallee.symm
    exact hown closure site args w' blocks hw.sound (hs.function?_frame_mem hframe hfound)
  · exact reporting frame _ w' blocks hw.sound hframe
  · exact Steady.refl hw.sound

lemma callClosure (hcall : ∀ frame site args, SteadyIn frame Value (call frame site args))
    (closure : FunctionClosure) (site : CallSite) (args : Arguments) :
    SteadyIn closure.frame Value (callClosure call closure site args) := by
  refine inCall site.name (bind (orAt ((closedIn hcall closure.frame).parameters _ _ _) site.pos)
    fun bound => ?_)
  refine inBlock fun id w blocks hs hid => ?_
  have hwrite := Steady.write hs hid (.values bound)
  exact ((closedIn hcall id).expr _ _ _ hwrite.sound hid).mono (fun _ _ h => hwrite.trans h.mono)
    fun _ _ h => hwrite.trans h.mono

/-- A call of a function leaves the scopes as they were, however deep it goes. -/
theorem callFunction (env : Environment) (left : Nat) :
    ∀ frame site args, SteadyIn frame Value (callFunction env left frame site args) := by
  induction left with
  | zero => exact callNamed env fun closure _ _ => (closed closure.frame).throw _
  | succ left ih => exact callNamed env (callClosure ih)

end SteadyIn

end Eval

end SolidScript
