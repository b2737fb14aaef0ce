import SolidScript.Proofs.Machine.Image

/-!
# Scopes inside another frame

A program can be run in a block of its own inside an empty frame. Its frames lie one place further
on then, and what had no frame around it has the empty one. Every operation on scopes does the same
there, and since nothing is bound in the empty frame, the same is found.
-/

namespace SolidScript

open List Arena Scopes

open Machine (StepsTo running failing)

/-! ## Frames -/

/-- The place one further on. -/
def FrameId.nest (id : FrameId) : FrameId := ⟨id.index + 1, id.generation⟩

/-- The frame around all others. -/
def FrameId.outermost : FrameId := ⟨0, 0⟩

lemma FrameId.nest_injective : Function.Injective FrameId.nest := by
  rintro ⟨i, g⟩ ⟨j, h⟩ heq
  cases heq
  rfl

lemma FrameId.nest_ne_outermost (id : FrameId) : id.nest ≠ .outermost := by
  rintro ⟨⟩

/-- A frame inside the outermost one. -/
def Frame.nest (f : Frame) : Frame :=
  { f with
    parent := some ((f.parent.map FrameId.nest).getD .outermost)
    modules := f.modules.map fun b => (b.1, b.2.rename FrameId.nest)
    functions := f.functions.map fun b => (b.1, b.2.rename FrameId.nest) }

def Slot.nest (slot : Slot Frame) : Slot Frame := ⟨slot.generation, slot.frame.map Frame.nest⟩

namespace Scopes

/-- Scopes inside an empty frame. -/
def nest (s : Scopes) : Scopes where
  slots := (⟨0, some { parent := none }⟩ :: s.slots.toList.map Slot.nest).toArray
  free := s.free.map (· + 1)
  live := s.live + 1

variable {s : Scopes} {id : FrameId}

lemma getElem?_nest (s : Scopes) (i : Nat) :
    s.nest.slots[i + 1]? = (s.slots[i]?).map Slot.nest := by
  simp [nest]

lemma get?_nest (s : Scopes) (id : FrameId) : get? s.nest id.nest = (get? s id).map Frame.nest := by
  unfold get?
  rw [show id.nest.index = id.index + 1 from rfl, getElem?_nest]
  cases s.slots[id.index]? with
  | none => rfl
  | some slot =>
    show (if slot.generation = id.generation then slot.frame.map Frame.nest else none) = _
    split
    · rename_i h
      simp [h]
    · rename_i h
      simp [h]

lemma get?_outermost (s : Scopes) : get? s.nest .outermost = some { parent := none } := rfl

/-- A slot is replaced. -/
lemma setIfInBounds_nest (s : Scopes) (i : Nat) (slot : Slot Frame) (free : List Nat) (live : Nat) :
    nest ⟨s.slots.setIfInBounds i slot, free, live⟩ =
      ⟨s.nest.slots.setIfInBounds (i + 1) slot.nest, free.map (· + 1), live + 1⟩ := by
  simp [nest, map_set]

lemma push_nest (s : Scopes) (f : Frame) :
    push s.nest f.nest = ((push s f).1.nest, nest (push s f).2) := by
  have hnest : s.nest.free = s.free.map (· + 1) := rfl
  unfold push
  rw [hnest]
  cases s.free with
  | nil =>
    have hsize : s.nest.slots.size = s.slots.size + 1 := by simp [nest]
    have hslots : (s.nest.slots.push ⟨0, some f.nest⟩) =
        (nest ⟨s.slots.push ⟨0, some f⟩, [], s.live + 1⟩).slots := by
      simp [nest, Slot.nest]
    dsimp only [map_nil]
    rw [hsize, hslots]
    rfl
  | cons index free =>
    have hgeneration : ((s.nest.slots[index + 1]?).map (·.generation + 1)).getD 0 =
        ((s.slots[index]?).map (·.generation + 1)).getD 0 := by
      rw [getElem?_nest, Option.map_map]
      rfl
    rw [map_cons]
    dsimp only
    rw [hgeneration, setIfInBounds_nest]
    rfl

lemma modify_nest (s : Scopes) (id : FrameId) {g g' : Frame → Frame}
    (hg : ∀ f, g' f.nest = (g f).nest) :
    Arena.modify s.nest id.nest g' = nest (Arena.modify s id g) := by
  unfold Arena.modify
  rw [get?_nest]
  cases Arena.get? s id with
  | none => rfl
  | some f =>
    dsimp only [Option.map_some]
    rw [setIfInBounds_nest, hg]
    rfl

/-- A frame goes, with the count of those that are alive. -/
lemma release_nest (hlive : 0 < s.live) : release s.nest id.nest = nest (release s id) := by
  unfold release
  rw [get?_nest]
  cases get? s id with
  | none => rfl
  | some f =>
    have hcount : s.nest.live - 1 = s.live - 1 + 1 := by
      show s.live + 1 - 1 = _
      omega
    dsimp only [Option.map_some]
    rw [setIfInBounds_nest, hcount]
    rfl

lemma enter_nest (s : Scopes) (parent : FrameId) :
    s.nest.enter (some parent.nest) =
      ((s.enter (some parent)).1.nest, (s.enter (some parent)).2.nest) :=
  push_nest s { parent := some parent }

/-- Values are bound as before. -/
lemma bindName_map {α β : Type} (g : α → β) (name : String) (value : α)
    (bound : List (String × α)) :
    bindName name (g value) (bound.map fun b => (b.1, g b.2)) = (bindName name value bound).map
      fun b => (b.1, g b.2) := by
  induction bound with
  | nil => rfl
  | cons b rest ih =>
    obtain ⟨other, v⟩ := b
    show (if other = name then _ else _) = map _ (if other = name then _ else _)
    split
    · rfl
    · rw [ih]
      rfl

lemma apply_nest (c : Change) (id : FrameId) (f : Frame) :
    c.apply id.nest f.nest = (c.apply id f).nest := by
  cases c with
  | values | children => rfl
  | module m =>
    have hmodules := bindName_map (ModuleClosure.rename FrameId.nest) m.name ⟨m, id⟩ f.modules
    exact congrArg (fun modules => ({ f.nest with modules } : Frame)) hmodules
  | function g =>
    have hfunctions := bindName_map (FunctionClosure.rename FrameId.nest) g.name ⟨g, id⟩ f.functions
    exact congrArg (fun functions => ({ f.nest with functions } : Frame)) hfunctions

/-- So writing is the same inside the new frame. -/
lemma write_nest (s : Scopes) (id : FrameId) (c : Change) :
    s.nest.write id.nest c = (s.write id c).nest :=
  modify_nest s id (apply_nest c id)

/-! ## Searching -/

/-- A walk outward ends in the outermost frame. -/
lemma path_nest {ids : List FrameId} (h : Arena.Path s Frame.parent id ids) :
    Arena.Path s.nest Frame.parent id.nest (ids.map FrameId.nest ++ [.outermost]) := by
  induction h with
  | @root id f hid hparent =>
    have hf : get? s.nest id.nest = some f.nest := by rw [get?_nest, hid]; rfl
    refine .step hf ?_ (.root (get?_outermost s) rfl)
    show some ((f.parent.map FrameId.nest).getD .outermost) = _
    rw [show f.parent = none from hparent]
    rfl
  | @step id outer f ids hid hparent _ ih =>
    have hf : get? s.nest id.nest = some f.nest := by rw [get?_nest, hid]; rfl
    refine .step hf ?_ ih
    show some ((f.parent.map FrameId.nest).getD .outermost) = _
    rw [show f.parent = some outer from hparent]
    rfl

/-- What is found along a walk is found in the nested scopes, since the outermost frame has
nothing. -/
lemma find?_nest {blocks : List FrameId} (hs : s.Sound blocks) (hid : id ∈ blocks) {α : Type}
    {pick pick' : Frame → Option α} {g : α → α} (hpick : ∀ f, pick' f.nest = (pick f).map g)
    (houtermost : pick' { parent := none } = none) :
    find? s.nest Frame.parent pick' id.nest = (find? s Frame.parent pick id).map g := by
  obtain ⟨ids, hpath, hnodup, -⟩ := hs.exists_path hid
  have hnodup' : (ids.map FrameId.nest ++ [FrameId.outermost]).Nodup := by
    refine (hnodup.map FrameId.nest_injective).append (nodup_singleton _) ?_
    simp only [disjoint_singleton, mem_map, not_exists, not_and]
    exact fun j _ => j.nest_ne_outermost
  have hframe (j : FrameId) : (get? s.nest j.nest).bind pick' =
      ((get? s j).bind pick).map g := by
    rw [get?_nest]
    cases get? s j with
    | none => rfl
    | some f => exact hpick f
  have hlast : [FrameId.outermost].findSome? (fun j => (get? s.nest j).bind pick') =
      none := by
    rw [findSome?_singleton, get?_outermost]
    exact houtermost
  rw [hpath.walk.find?_eq _ hnodup, (path_nest hpath).walk.find?_eq _ hnodup', findSome?_append,
    hlast, Option.or_none, findSome?_map, map_findSome?]
  exact congrArg (fun found => ids.findSome? found) (funext hframe)

lemma lookup_map {α β : Type} (g : α → β) (name : String) (bound : List (String × α)) :
    (bound.map fun b => (b.1, g b.2)).lookup name = (bound.lookup name).map g := by
  induction bound with
  | nil => rfl
  | cons b rest ih =>
    obtain ⟨other, v⟩ := b
    rw [map_cons, lookup_cons, lookup_cons]
    cases name == other with
    | true => rfl
    | false => exact ih

end Scopes

/-! ## States -/

def Activation.nest : Activation → Activation
  | block id => block id.nest
  | call name => call name

def Visit.nest (v : Visit) : Visit := ⟨v.scopes.nest, v.frame.nest, v.use⟩

/-- A state inside an empty frame, which some uses have been made of before. -/
def World.nest (before : Visit → Prop) (w : World) : World where
  scopes := w.scopes.nest
  log := w.log
  stack := w.stack.map Activation.nest ++ [.block .outermost]
  depth := w.depth
  visits v := before v ∨ ∃ u, w.visits u ∧ v = u.nest

namespace Image

variable {before : Visit → Prop} {ts : List Task}

/-- The same machine inside an empty frame, with further tasks behind its own. -/
def nest (before : Visit → Prop) (ts : List Task) : Image := ⟨FrameId.nest, World.nest before, ts⟩

lemma visit_nest (before : Visit → Prop) (w : World) (frame : FrameId) (use : Use) :
    (w.visit frame use).nest before = (w.nest before).visit frame.nest use := by
  have hvisits : ((w.visit frame use).nest before).visits =
      ((w.nest before).visit frame.nest use).visits := by
    funext v
    show (before v ∨ ∃ u, (u = ⟨w.scopes, frame, use⟩ ∨ w.visits u) ∧ v = u.nest) =
      (v = ⟨w.scopes.nest, frame.nest, use⟩ ∨ before v ∨ ∃ u, w.visits u ∧ v = u.nest)
    refine propext ⟨?_, ?_⟩
    · rintro (h | ⟨u, rfl | h, rfl⟩)
      · exact .inr (.inl h)
      · exact .inl rfl
      · exact .inr (.inr ⟨u, h, rfl⟩)
    · rintro (rfl | h | ⟨u, h, rfl⟩)
      · exact .inr ⟨⟨w.scopes, frame, use⟩, .inl rfl, rfl⟩
      · exact .inl h
      · exact .inr ⟨u, .inr h, rfl⟩
  exact congrArg (fun visits => ({ w.nest before with visits } : World)) hvisits

lemma lawful_nest : (nest before ts).Lawful where
  log _ := rfl
  depth _ := rfl
  withLog _ _ := rfl
  visit := visit_nest before
  write w frame c := by
    have hscopes := write_nest w.scopes frame c
    have hvisit := visit_nest before w frame (.write c)
    show ({ (w.visit frame (.write c)).nest before with
        scopes := (w.scopes.write frame c).nest } : World) =
      { (w.nest before).visit frame.nest (.write c) with
        scopes := w.scopes.nest.write frame.nest c }
    rw [hscopes, hvisit]
  openInside w parent := by
    have hvisit := visit_nest before w parent .enclose
    have henter := enter_nest w.scopes parent
    show ((w.nest before).visit parent.nest .enclose).openBlock (some parent.nest) = _
    rw [← hvisit]
    show ((w.scopes.nest.enter (some parent.nest)).1,
      ({ (w.visit parent .enclose).nest before with
        scopes := (w.scopes.nest.enter (some parent.nest)).2
        stack := .block (w.scopes.nest.enter (some parent.nest)).1 :: (w.nest before).stack
        } : World)) = _
    rw [henter]
    rfl
  openCall _ _ := rfl

/-- From every frame that is alive the same is found. -/
lemma sees_nest {s : Scopes} {blocks : List FrameId} (hs : s.Sound blocks) {frame : FrameId}
    (hframe : frame ∈ blocks) : (nest before ts).Sees s frame s.nest where
  value? _ := (find?_nest hs hframe (g := id) (fun _ => Option.map_id'.symm) rfl).trans
    Option.map_id'
  module? name := find?_nest hs hframe (fun f => lookup_map _ name f.modules) rfl
  function? name := find?_nest hs hframe (fun f => lookup_map _ name f.functions) rfl
  children? := (find?_nest hs hframe (g := id) (fun _ => Option.map_id'.symm) rfl).trans
    Option.map_id'

variable {env : Environment} {P : RuntimeError → Prop} {w : World} {t : Task} {K : List Task}
  {error : Option RuntimeError}

/-- The frame from which a task looks something up is alive. -/
lemma mem_blocks_of_reads (h : Fit env P w (t :: K) error) {frame : FrameId}
    (hframe : frame ∈ t.reads?) : frame ∈ Task.blocks (t :: K) := by
  refine Task.blocks_subset t K ?_
  cases t with
  | expr | call =>
    obtain rfl := Option.some.inj hframe
    exact h.fits.1
  | block | ask =>
    obtain rfl := Option.some.inj hframe
    exact h.fits.1.frame_mem
  | _ => exact absurd hframe (Option.not_mem_none _)

lemma tail_stack_nest (before : Visit → Prop) (hstack : w.stack ≠ []) :
    w.stack.tail.map Activation.nest ++ [Activation.block .outermost] =
      (w.nest before).stack.tail := by
  obtain ⟨a, rest, hstack⟩ := exists_cons_of_ne_nil hstack
  show _ = (w.stack.map Activation.nest ++ [Activation.block .outermost]).tail
  rw [hstack]
  rfl

lemma closeCall_nest (hstack : w.stack ≠ []) :
    w.closeCall.nest before = (w.nest before).closeCall :=
  congrArg (fun stack => ({ w.closeCall.nest before with stack } : World))
    (tail_stack_nest before hstack)

lemma closeBlock_nest (before : Visit → Prop) (hlive : 0 < w.scopes.live) (hstack : w.stack ≠ [])
    (id : FrameId) : (w.closeBlock id).nest before = (w.nest before).closeBlock id.nest := by
  show ({ w.nest before with
      scopes := Scopes.nest (release w.scopes id)
      stack := w.stack.tail.map Activation.nest ++ [.block .outermost] } : World) =
    { w.nest before with
      scopes := release w.scopes.nest id.nest
      stack := (w.nest before).stack.tail }
  rw [Scopes.release_nest hlive, tail_stack_nest before hstack]

/-- Where frames nest as they should, every task does the same. -/
lemma agrees_nest (h : Fit env P w (t :: K) error) : (nest before ts).Agrees w t where
  sees frame hframe := sees_nest h.sound (mem_blocks_of_reads h hframe)
  leave id c ht := by
    subst ht
    have hlive : 0 < w.scopes.live := by
      rw [h.live]
      exact Nat.succ_pos _
    have hstack : w.stack ≠ [] := by
      rw [h.stack]
      cases c <;> exact cons_ne_nil _ _
    have hblock := closeBlock_nest before hlive hstack id
    cases c with
    | none => exact hblock
    | some c =>
      -- the call is still there when the block is gone
      have hrest : (w.closeBlock id).stack ≠ [] := by
        show w.stack.tail ≠ []
        rw [h.stack]
        exact cons_ne_nil _ _
      exact (closeCall_nest hrest).trans (congrArg World.closeCall hblock)
  closeCall c names specials ht := by
    subst ht
    refine closeCall_nest ?_
    rw [h.stack]
    exact cons_ne_nil _ _

/-- A run is the same inside an empty frame. -/
theorem steps_nest (hP : Raises env P) {m m' : Machine} (h : m.Fits env P)
    (hsteps : StepsTo env m m') :
    StepsTo env ((nest before ts).machine m) ((nest before ts).machine m') := by
  have hboth : m'.Fits env P ∧
      StepsTo env ((nest before ts).machine m) ((nest before ts).machine m') := by
    induction hsteps with
    | refl => exact ⟨h, .refl⟩
    | @tail m₁ m₂ _ hstep ih =>
      obtain ⟨hfits, hnested⟩ := ih
      have hnext := hfits.next hP
      rw [hstep] at hnext
      refine ⟨hnext, hnested.tail (lawful_nest.step (fun t ht => ?_) hstep)⟩
      obtain ⟨K, hK⟩ : ∃ K, m₁.tasks = t :: K := head?_eq_some_iff.mp ht
      rw [Machine.Fits, hK] at hfits
      exact agrees_nest hfits
  exact hboth.2

end Image

end SolidScript
