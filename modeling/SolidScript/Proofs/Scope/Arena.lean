import Mathlib.Data.List.Nodup
import Mathlib.Data.Fintype.Card
import Mathlib.Tactic.Common
import SolidScript.Scope.Arena

/-!
# Laws of arenas

An arena is a partial map from ids to frames. Each operation is described by what it does to that
map, so that nothing else has to look at slots and generations.
-/

namespace SolidScript

open List Option

namespace Arena

variable {F : Type} {a : Arena F} {id : FrameId}

/-- Slots that are to be used again are vacant, and none is listed twice. -/
structure WellFormed (a : Arena F) : Prop where
  nodup : a.free.Nodup
  vacant (i : Nat) (hi : i ∈ a.free) : ∃ generation, a.slots[i]? = some ⟨generation, none⟩

lemma wellFormed_empty : WellFormed ({} : Arena F) where
  nodup := nodup_nil
  vacant _ hi := absurd hi not_mem_nil

lemma get?_eq_some {f : F} :
    a.get? id = some f ↔ a.slots[id.index]? = some ⟨id.generation, some f⟩ := by
  unfold get?
  cases a.slots[id.index]? with
  | none => simp
  | some slot =>
    obtain ⟨generation, frame⟩ := slot
    simp only [some.injEq, Slot.mk.injEq]
    split
    · simp_all
    · simp_all

/-- Live frames in one slot are the same. -/
lemma eq_of_index_eq {id' : FrameId} (h : (a.get? id).isSome) (h' : (a.get? id').isSome)
    (hindex : id.index = id'.index) : id = id' := by
  obtain ⟨f, hf⟩ := isSome_iff_exists.mp h
  obtain ⟨f', hf'⟩ := isSome_iff_exists.mp h'
  rw [get?_eq_some] at hf hf'
  rw [hindex, hf'] at hf
  have hgeneration : id'.generation = id.generation := congrArg Slot.generation (some.inj hf)
  cases id
  cases id'
  simp_all

lemma index_lt_size (h : (a.get? id).isSome) : id.index < a.slots.size := by
  obtain ⟨f, hf⟩ := isSome_iff_exists.mp h
  rw [get?_eq_some] at hf
  exact (Array.getElem?_eq_some_iff.mp hf).1

/-- Whatever is put into a slot is what the ids of that slot lead to. -/
lemma get?_setIfInBounds {i : Nat} (hi : i < a.slots.size) (slot : Slot F) (free : List Nat)
    (live : Nat) (j : FrameId) :
    (Arena.mk (a.slots.setIfInBounds i slot) free live).get? j =
      if j.index = i then (if slot.generation = j.generation then slot.frame else none)
      else a.get? j := by
  unfold get?
  dsimp only
  rw [Array.getElem?_setIfInBounds]
  by_cases h : j.index = i
  · subst h
    simp [hi]
  · simp [h, Ne.symm h]

/-! ## Push -/

lemma push_eq_of_free {index : Nat} {free : List Nat} (hfree : a.free = index :: free)
    {generation : UInt32} (hslot : a.slots[index]? = some ⟨generation, none⟩) (f : F) :
    a.push f = (⟨index, generation + 1⟩,
      ⟨a.slots.setIfInBounds index ⟨generation + 1, some f⟩, free, a.live + 1⟩) := by
  unfold push
  simp [hfree, hslot]

lemma push_eq_of_full (hfree : a.free = []) (f : F) :
    a.push f = (⟨a.slots.size, 0⟩, ⟨a.slots.push ⟨0, some f⟩, [], a.live + 1⟩) := by
  unfold push
  simp [hfree]

lemma get?_eq_none_of_vacant {generation : UInt32}
    (h : a.slots[id.index]? = some ⟨generation, none⟩) : a.get? id = none := by
  unfold get?
  simp [h]

/-- A new frame gets an id that leads nowhere before. -/
lemma get?_push_id (h : a.WellFormed) (f : F) : a.get? (a.push f).1 = none := by
  cases hfree : a.free with
  | cons index free =>
    obtain ⟨generation, hslot⟩ := h.vacant index (by rw [hfree]; exact mem_cons_self)
    rw [push_eq_of_free hfree hslot]
    exact get?_eq_none_of_vacant hslot
  | nil =>
    rw [push_eq_of_full hfree]
    simp [get?]

/-- Afterwards the id leads to the frame, and every other id to where it led. -/
lemma get?_push (h : a.WellFormed) (f : F) (j : FrameId) :
    (a.push f).2.get? j = if j = (a.push f).1 then some f else a.get? j := by
  cases hfree : a.free with
  | cons index free =>
    obtain ⟨generation, hslot⟩ := h.vacant index (by rw [hfree]; exact mem_cons_self)
    rw [push_eq_of_free hfree hslot, get?_setIfInBounds (Array.getElem?_eq_some_iff.mp hslot).1]
    by_cases hindex : j.index = index
    · -- other generations of the slot lead nowhere, before as after
      have hnone : a.get? j = none := get?_eq_none_of_vacant (hindex ▸ hslot)
      rw [if_pos hindex, hnone]
      obtain ⟨i, g⟩ := j
      simp only [FrameId.mk.injEq] at hindex ⊢
      simp [hindex, eq_comm]
    · have hne : j ≠ ⟨index, generation + 1⟩ := fun heq => hindex (congrArg FrameId.index heq)
      rw [if_neg hindex, if_neg hne]
  | nil =>
    rw [push_eq_of_full hfree]
    by_cases hj : j.index = a.slots.size
    · have hnone : a.get? j = none := by simp [get?, hj]
      rw [hnone]
      obtain ⟨i, g⟩ := j
      simp only at hj
      simp [get?, hj, eq_comm]
    · have hne : j ≠ ⟨a.slots.size, 0⟩ := fun heq => hj (congrArg FrameId.index heq)
      rw [if_neg hne]
      simp [get?, Array.getElem?_push, hj]

/-- Pushing keeps arenas well-formed. -/
lemma WellFormed.push (h : a.WellFormed) (f : F) : (a.push f).2.WellFormed := by
  cases hfree : a.free with
  | cons index free =>
    obtain ⟨generation, hslot⟩ := h.vacant index (by rw [hfree]; exact mem_cons_self)
    rw [push_eq_of_free hfree hslot]
    have hnodup := h.nodup
    rw [hfree, nodup_cons] at hnodup
    refine ⟨hnodup.2, fun i hi => ?_⟩
    have hne : index ≠ i := fun heq => hnodup.1 (heq ▸ hi)
    dsimp only
    rw [Array.getElem?_setIfInBounds_ne hne]
    exact h.vacant i (by rw [hfree]; exact mem_cons_of_mem index hi)
  | nil =>
    rw [push_eq_of_full hfree]
    exact ⟨nodup_nil, fun i hi => absurd hi not_mem_nil⟩

/-! ## Modify and release -/

/-- To put something in the place of a live frame concerns no other id. -/
lemma get?_replace {f : F} (hid : a.get? id = some f) (frame : Option F) (free : List Nat)
    (live : Nat) (j : FrameId) :
    (Arena.mk (a.slots.setIfInBounds id.index ⟨id.generation, frame⟩) free live).get? j =
      if j = id then frame else a.get? j := by
  have hslot := get?_eq_some.mp hid
  rw [get?_setIfInBounds (Array.getElem?_eq_some_iff.mp hslot).1]
  by_cases hj : j = id
  · subst hj
    simp
  · rw [if_neg hj]
    by_cases hindex : j.index = id.index
    · have hgeneration : id.generation ≠ j.generation := by
        intro heq
        apply hj
        cases j
        cases id
        simp_all
      simp [get?, hindex, hslot, hgeneration]
    · rw [if_neg hindex]

lemma get?_modify (f : F → F) (j : FrameId) :
    (a.modify id f).get? j = if j = id then (a.get? id).map f else a.get? j := by
  unfold modify
  cases hid : a.get? id with
  | some frame => exact get?_replace hid _ _ _ j
  | none =>
    by_cases hj : j = id
    · rw [if_pos hj, hj]
      exact hid
    · rw [if_neg hj]

/-- One frame goes. -/
lemma get?_release (j : FrameId) : (a.release id).get? j = if j = id then none else a.get? j := by
  unfold release
  cases hid : a.get? id with
  | some frame => exact get?_replace hid _ _ _ j
  | none =>
    by_cases hj : j = id
    · rw [if_pos hj, hj]
      exact hid
    · rw [if_neg hj]

/-- The slot of a live frame is not on the free list. -/
lemma WellFormed.ne_index (h : a.WellFormed) (hid : (a.get? id).isSome) {i : Nat}
    (hi : i ∈ a.free) : id.index ≠ i := by
  rintro rfl
  obtain ⟨generation, hslot⟩ := h.vacant id.index hi
  rw [get?_eq_none_of_vacant hslot] at hid
  exact absurd hid Bool.false_ne_true

lemma WellFormed.modify (h : a.WellFormed) (f : F → F) : (a.modify id f).WellFormed := by
  unfold Arena.modify
  cases hid : a.get? id with
  | none => exact h
  | some frame =>
    refine ⟨h.nodup, fun i hi => ?_⟩
    dsimp only
    rw [Array.getElem?_setIfInBounds_ne (h.ne_index (by rw [hid]; rfl) hi)]
    exact h.vacant i hi

lemma WellFormed.release (h : a.WellFormed) : (a.release id).WellFormed := by
  unfold Arena.release
  cases hid : a.get? id with
  | none => exact h
  | some frame =>
    have hlive : (a.get? id).isSome := by rw [hid]; rfl
    refine ⟨nodup_cons.mpr ⟨fun hi => h.ne_index hlive hi rfl, h.nodup⟩, fun i hi => ?_⟩
    dsimp only
    rcases mem_cons.mp hi with rfl | hi
    · exact ⟨id.generation, Array.getElem?_setIfInBounds_self_of_lt (index_lt_size hlive)⟩
    · rw [Array.getElem?_setIfInBounds_ne (h.ne_index hlive hi)]
      exact h.vacant i hi

/-! ## How many frames are alive -/

lemma live_push (f : F) : (a.push f).2.live = a.live + 1 := by
  unfold push
  cases a.free <;> rfl

lemma live_modify (f : F → F) : (a.modify id f).live = a.live := by
  unfold modify
  cases a.get? id <;> rfl

lemma live_release {f : F} (hid : a.get? id = some f) : (a.release id).live = a.live - 1 := by
  unfold release
  rw [hid]

/-! ## Search -/

section

variable {parent : F → Option FrameId}

/-- The frames that a walk from an id outward comes through, up to one without a parent or one whose
parent is gone. -/
inductive Walk (a : Arena F) (parent : F → Option FrameId) : FrameId → List FrameId → Prop where
  | gone {id : FrameId} (hid : a.get? id = none) : Walk a parent id []
  | root {id : FrameId} {f : F} (hid : a.get? id = some f) (hparent : parent f = none) :
    Walk a parent id [id]
  | step {id outer : FrameId} {f : F} {ids : List FrameId} (hid : a.get? id = some f)
    (hparent : parent f = some outer)
      (rest : Walk a parent outer ids) : Walk a parent id (id :: ids)

/-- The frames that a walk from a frame outward comes through, up to one without a parent. -/
inductive Path (a : Arena F) (parent : F → Option FrameId) : FrameId → List FrameId → Prop where
  | root {id : FrameId} {f : F} (hid : a.get? id = some f) (hparent : parent f = none) :
    Path a parent id [id]
  | step {id outer : FrameId} {f : F} {ids : List FrameId} (hid : a.get? id = some f)
    (hparent : parent f = some outer)
      (rest : Path a parent outer ids) : Path a parent id (id :: ids)

variable {ids : List FrameId}

lemma Walk.isSome (h : a.Walk parent id ids) {j : FrameId} (hj : j ∈ ids) : (a.get? j).isSome := by
  induction h with
  | gone hid => exact absurd hj not_mem_nil
  | root hid hparent =>
    rw [mem_singleton.mp hj, hid]
    rfl
  | step hid hparent rest ih =>
    rcases mem_cons.mp hj with rfl | hj
    · rw [hid]
      rfl
    · exact ih hj

/-- No walk is longer than there are slots, since it comes through each at most once. -/
lemma Walk.length_le (h : a.Walk parent id ids) (hnodup : ids.Nodup) :
    ids.length ≤ a.slots.size := by
  have hinjective : (ids.map FrameId.index).Nodup := by
    refine Nodup.map_on ?_ hnodup
    intro x hx y hy hindex
    exact eq_of_index_eq (h.isSome hx) (h.isSome hy) hindex
  have hbound : ids.map FrameId.index ⊆ range a.slots.size := by
    intro i hi
    obtain ⟨j, hj, rfl⟩ := mem_map.mp hi
    exact mem_range.mpr (index_lt_size (h.isSome hj))
  have hlength := (hinjective.subperm hbound).length_le
  rwa [length_map, length_range] at hlength

lemma Walk.findWithin_eq {α : Type} (pick : F → Option α) (h : a.Walk parent id ids) :
    ∀ fuel, ids.length ≤ fuel →
      a.findWithin parent pick fuel id = ids.findSome? fun j => (a.get? j).bind pick := by
  induction h with
  | gone hid =>
    rintro (_ | fuel) -
    · rfl
    · simp only [findWithin, hid, findSome?_nil]
  | root hid hparent =>
    rintro (_ | fuel) hfuel
    · exact absurd hfuel (Nat.not_succ_le_zero _)
    simp only [findWithin, hid, hparent, findSome?_cons, findSome?_nil, bind_some]
    cases pick _ <;> rfl
  | step hid hparent rest ih =>
    rintro (_ | fuel) hfuel
    · exact absurd hfuel (Nat.not_succ_le_zero _)
    simp only [findWithin, hid, hparent, findSome?_cons, bind_some,
      ih fuel (Nat.le_of_succ_le_succ hfuel)]
    cases pick _ <;> rfl

/-- A search finds the first of what there is to be found along the walk. -/
lemma Walk.find?_eq {α : Type} (pick : F → Option α) (h : a.Walk parent id ids)
    (hnodup : ids.Nodup) : a.find? parent pick id = ids.findSome? fun j => (a.get? j).bind pick :=
  h.findWithin_eq pick _ (h.length_le hnodup)

lemma Path.walk (h : a.Path parent id ids) : a.Walk parent id ids := by
  induction h with
  | root hid hparent => exact .root hid hparent
  | step hid hparent _ ih => exact .step hid hparent ih

lemma Path.mem_self (h : a.Path parent id ids) : id ∈ ids := by
  cases h <;> exact mem_cons_self

/-- A walk stays the same as long as its frames keep their parents. -/
lemma Path.transfer {b : Arena F} (h : a.Path parent id ids)
    (hkept : ∀ j ∈ ids, ∀ f, a.get? j = some f → ∃ f', b.get? j = some f' ∧ parent f' = parent f) :
    b.Path parent id ids := by
  induction h with
  | root hid hparent =>
    obtain ⟨f', hf', hparent'⟩ := hkept _ mem_cons_self _ hid
    exact .root hf' (hparent'.trans hparent)
  | step hid hparent rest ih =>
    obtain ⟨f', hf', hparent'⟩ := hkept _ mem_cons_self _ hid
    exact .step hf' (hparent'.trans hparent) (ih fun j hj => hkept j (mem_cons_of_mem _ hj))

end

end Arena

end SolidScript
