import Mathlib.Algebra.Group.Nat.Defs
import SolidScript.Proofs.Scope.Nesting

/-!
# Lifetimes of frames

Frames are entered, written to and released in any order, and ids of frames that are gone may be
used as if they were not. As long as no slot has gone through all generations, each id is given out
once, and a parent is older than what lies inside it.
-/

namespace SolidScript

open List Arena Frame

namespace Arena

variable {F : Type} {a b : Arena F} {parent : F → Option FrameId} {given gone : List FrameId}
  {id : FrameId}

/-! ## The free list and the number of frames -/

/-- The slots on the free list are the vacant ones, and the others are counted. -/
structure Tallied (a : Arena F) : Prop extends WellFormed a where
  listed (i : Nat) (generation : UInt32) (hi : a.slots[i]? = some ⟨generation, none⟩) : i ∈ a.free
  live_eq : a.live = a.slots.countP (·.frame.isSome)

lemma tallied_empty : Tallied ({} : Arena F) where
  toWellFormed := wellFormed_empty
  listed i generation hi := by simp at hi
  live_eq := rfl

/-- The frames are one fewer where one is taken out, and one more where one is put in. -/
lemma countP_setIfInBounds {slots : Array (Slot F)} {i : Nat} {old : Slot F}
    (hi : slots[i]? = some old) (new : Slot F) :
    (slots.setIfInBounds i new).countP (·.frame.isSome) + old.frame.isSome.toNat =
      slots.countP (·.frame.isSome) + new.frame.isSome.toNat := by
  obtain ⟨hlt, hold⟩ := Array.getElem?_eq_some_iff.mp hi
  have hpos (h : old.frame.isSome = true) : 0 < slots.countP (·.frame.isSome) :=
    Array.countP_pos_iff.mpr ⟨old, Array.mem_of_getElem? hi, h⟩
  rw [Array.setIfInBounds, dif_pos hlt, Array.countP_set hlt, hold]
  cases h : old.frame.isSome <;> cases new.frame.isSome <;> simp_all

lemma Tallied.live_pos (h : a.Tallied) {f : F} (hid : a.get? id = some f) : 0 < a.live := by
  rw [h.live_eq]
  exact Array.countP_pos_iff.mpr ⟨_, Array.mem_of_getElem? (get?_eq_some.mp hid), rfl⟩

/-- Something is put into a slot, which is then on the free list if it is vacant. -/
lemma Tallied.set (h : a.Tallied) {i : Nat} {old new : Slot F} (hi : a.slots[i]? = some old)
    {free : List Nat} {live : Nat} (hb : WellFormed ⟨a.slots.setIfInBounds i new, free, live⟩)
    (hfree : ∀ j ∈ a.free, j ≠ i → j ∈ free) (hvacant : new.frame = none → i ∈ free)
    (hlive : live + old.frame.isSome.toNat = a.live + new.frame.isSome.toNat) :
    Tallied ⟨a.slots.setIfInBounds i new, free, live⟩ := by
  refine ⟨hb, fun j generation hj => ?_, ?_⟩
  · grind [h.listed j generation]
  · have hcount := countP_setIfInBounds hi new
    have hlive' := h.live_eq
    dsimp only
    omega

lemma Tallied.push (h : a.Tallied) (f : F) : (a.push f).2.Tallied := by
  have hb := h.toWellFormed.push f
  cases hfree : a.free with
  | cons index free =>
    obtain ⟨g, hslot⟩ := h.vacant index (by rw [hfree]; exact mem_cons_self)
    rw [push_eq_of_free hfree hslot] at hb ⊢
    exact h.set hslot hb (fun j hj hne => (mem_cons.mp (hfree ▸ hj)).resolve_left hne)
      (fun hnew => nomatch hnew) rfl
  | nil =>
    rw [push_eq_of_full hfree] at hb ⊢
    refine ⟨hb, fun i generation hi => ?_, ?_⟩
    · grind [h.listed i generation]
    · simp [h.live_eq]

lemma Tallied.modify (h : a.Tallied) (f : F → F) : (a.modify id f).Tallied := by
  have hb : (a.modify id f).WellFormed := h.toWellFormed.modify f
  unfold Arena.modify at hb ⊢
  cases hid : a.get? id with
  | none => exact h
  | some frame =>
    rw [hid] at hb
    exact h.set (get?_eq_some.mp hid) hb (fun j hj _ => hj) (fun hnew => nomatch hnew) rfl

lemma Tallied.release (h : a.Tallied) : (a.release id).Tallied := by
  have hb : (a.release id).WellFormed := h.toWellFormed.release
  unfold Arena.release at hb ⊢
  cases hid : a.get? id with
  | none => exact h
  | some frame =>
    rw [hid] at hb
    exact h.set (get?_eq_some.mp hid) hb (fun j hj _ => mem_cons_of_mem _ hj)
      (fun _ => mem_cons_self)
      (Nat.sub_add_cancel (h.live_pos hid))

/-! ## Generations -/

/-- The generation that a slot is in. -/
def generation? (a : Arena F) (i : Nat) : Option UInt32 := a.slots[i]?.map (·.generation)

/-- What is put in the place of a live frame is of the same generation. -/
lemma generation?_replace {f : F} (hid : a.get? id = some f) (frame : Option F) (free : List Nat)
    (live i : Nat) :
    (mk (a.slots.setIfInBounds id.index ⟨id.generation, frame⟩) free live).generation? i =
      a.generation? i := by
  grind [generation?, get?_eq_some]

lemma generation?_modify (f : F → F) (i : Nat) :
    (a.modify id f).generation? i = a.generation? i := by
  unfold modify
  cases hid : a.get? id with
  | some frame => exact generation?_replace hid _ _ _ i
  | none => rfl

lemma generation?_release (i : Nat) : (a.release id).generation? i = a.generation? i := by
  unfold release
  cases hid : a.get? id with
  | some frame => exact generation?_replace hid _ _ _ i
  | none => rfl

/-- A new frame is of the first generation of a new slot, or of the next one of a slot that was
there. -/
lemma generation?_push (h : a.WellFormed) (f : F) :
    (∀ i, (a.push f).2.generation? i =
      if i = (a.push f).1.index then some (a.push f).1.generation else a.generation? i) ∧
    (a.generation? (a.push f).1.index = none ∧ (a.push f).1.generation = 0 ∨
      ∃ g, a.generation? (a.push f).1.index = some g ∧ (a.push f).1.generation = g + 1) := by
  cases hfree : a.free with
  | cons index free =>
    obtain ⟨g, hslot⟩ := h.vacant index (by rw [hfree]; exact mem_cons_self)
    rw [push_eq_of_free hfree hslot]
    grind [generation?]
  | nil =>
    rw [push_eq_of_full hfree]
    grind [generation?]

/-! ## Ids -/

/-- The ids that were given out are `given`, the latest one first, and the frames of `gone` have
been released. -/
structure Issued (a : Arena F) (parent : F → Option FrameId) (given gone : List FrameId) :
    Prop where
  nodup : given.Nodup
  /-- A slot has come at least to the generation of each id of it. -/
  passed (id : FrameId) (hid : id ∈ given) : ∃ g, a.generation? id.index = some g ∧
    id.generation ≤ g
  /-- Each generation of a slot took an id. -/
  lt_length (i : Nat) (g : UInt32) (hi : a.generation? i = some g) : g.toNat < given.length
  mem_given (id : FrameId) (f : F) (hid : a.get? id = some f) : id ∈ given
  get?_gone (id : FrameId) (hid : id ∈ gone) : id ∈ given ∧ a.get? id = none
  /-- The parent of a frame has the older id. -/
  older (id : FrameId) (f : F) (hid : a.get? id = some f) (p : FrameId) (hp : parent f = some p) :
    [id, p] <+ given

namespace Issued

lemma empty : Issued ({} : Arena F) parent [] [] where
  nodup := nodup_nil
  passed id hid := absurd hid not_mem_nil
  lt_length i g hi := by simp [generation?] at hi
  mem_given id f hid := by simp [get?] at hid
  get?_gone id hid := absurd hid not_mem_nil
  older id f hid := by simp [get?] at hid

/-- No more than this matters: which generation the slots are in, where there are frames, and what
their parents are. -/
lemma transfer {gone' : List FrameId} (h : a.Issued parent given gone)
    (hslots : ∀ i, b.generation? i = a.generation? i)
    (hget : ∀ j f, b.get? j = some f → ∃ f', a.get? j = some f' ∧ parent f' = parent f)
    (hgone : ∀ j ∈ gone', j ∈ given ∧ b.get? j = none) : b.Issued parent given gone' where
  nodup := h.nodup
  passed id hid := hslots id.index ▸ h.passed id hid
  lt_length i g hi := h.lt_length i g (hslots i ▸ hi)
  mem_given id f hid := by
    obtain ⟨f', hf', -⟩ := hget id f hid
    exact h.mem_given id f' hf'
  get?_gone := hgone
  older id f hid p hp := by
    obtain ⟨f', hf', hparent⟩ := hget id f hid
    exact h.older id f' hf' p (hparent.trans hp)

lemma modify (h : a.Issued parent given gone) {change : F → F}
    (hchange : ∀ f, parent (change f) = parent f) :
    (a.modify id change).Issued parent given gone := by
  refine h.transfer (generation?_modify change) (fun j f hj => ?_) fun j hj =>
    ⟨(h.get?_gone j hj).1, ?_⟩
  · cases hid : a.get? id <;> grind [get?_modify]
  · grind [get?_modify, h.get?_gone j hj]

lemma release (h : a.Issued parent given gone) :
    (a.release id).Issued parent given (if (a.get? id).isSome then id :: gone else gone) := by
  refine h.transfer generation?_release (fun j f hj => ?_) fun j hj => ?_
  · grind [get?_release]
  · cases hid : a.get? id <;> grind [get?_release, h.get?_gone j, h.mem_given j]

/-- A new frame is of a later generation than all before it in its slot: the ids are too few for a
slot to come back to its first generation. -/
lemma lt_push (h : a.Issued parent given gone) (ha : a.WellFormed)
    (hfew : given.length + 1 < 2 ^ 32) (f : F) :
    (∀ j ∈ given, j.index = (a.push f).1.index → j.generation < (a.push f).1.generation) ∧
      (a.push f).1.generation.toNat < given.length + 1 := by
  rcases (generation?_push ha f).2 with ⟨hnone, hid⟩ | ⟨g, hg, hid⟩
  · exact ⟨by grind [h.passed], by simp [hid]⟩
  · have hlt := h.lt_length _ _ hg
    have hnext : (g + 1).toNat = g.toNat + 1 := by
      rw [UInt32.toNat_add]
      exact Nat.mod_eq_of_lt (show g.toNat + 1 < 2 ^ 32 by omega)
    rw [hid]
    refine ⟨fun j hj hindex => ?_, by omega⟩
    have hle : j.generation ≤ g := by grind [h.passed j hj]
    rw [UInt32.lt_iff_toNat_lt, hnext]
    exact Nat.lt_succ_of_le (UInt32.le_iff_toNat_le.mp hle)

lemma push (h : a.Issued parent given gone) (ha : a.WellFormed) {f : F}
    (hf : ∀ p, parent f = some p → (a.get? p).isSome) (hfew : given.length + 1 < 2 ^ 32) :
    (a.push f).2.Issued parent ((a.push f).1 :: given) gone := by
  have hslots := (generation?_push ha f).1
  have hget := get?_push ha f
  obtain ⟨hlater, hlength⟩ := h.lt_push ha hfew f
  generalize (a.push f).1 = id at hslots hget hlater hlength ⊢
  have hfresh : id ∉ given := fun hmem => UInt32.lt_irrefl _ (hlater id hmem rfl)
  refine ⟨nodup_cons.mpr ⟨hfresh, h.nodup⟩, fun j hj => ?_, fun i g hi => ?_, fun j f' hj => ?_,
    fun j hj => ?_, fun j f' hj p hp => ?_⟩
  · rw [hslots]
    split_ifs with hindex
    · exact ⟨_, rfl, by grind⟩
    · exact h.passed j (by grind)
  · have hlt := h.lt_length i g
    grind
  · grind [h.mem_given j f']
  · grind [h.get?_gone j hj]
  · rw [hget] at hj
    split_ifs at hj with heq
    · obtain rfl := Option.some.inj hj
      obtain ⟨q, hq⟩ := Option.isSome_iff_exists.mp (hf p hp)
      exact heq ▸ Sublist.cons_cons j (singleton_sublist.mpr (h.mem_given p q hq))
    · exact (h.older j f' hj p hp).cons id

/-- A walk from an id outward comes to an end, since it only comes to older ids. -/
lemma exists_walk (h : a.Issued parent given gone) (id : FrameId) :
    ∃ ids, a.Walk parent id ids ∧ ids.Nodup := by
  -- what lies outside a frame among the latest ids is among the older ones
  suffices hwalk : ∀ l : List FrameId, l.Nodup →
      (∀ j ∈ l, ∀ f p, a.get? j = some f → parent f = some p → (a.get? p).isSome → [j, p] <+ l) →
      ∀ id, (∀ f, a.get? id = some f → id ∈ l) → ∃ ids, a.Walk parent id ids ∧ ids <+ l by
    obtain ⟨ids, hids, hsub⟩ :=
      hwalk given h.nodup (fun j _ f p hj hp _ => h.older j f hj p hp) id (h.mem_given id)
    exact ⟨ids, hids, h.nodup.sublist hsub⟩
  intro l
  induction l with
  | nil =>
    intro _ _ id hid
    refine ⟨[], .gone (Option.eq_none_iff_forall_ne_some.mpr fun f hf => ?_), nil_sublist []⟩
    exact absurd (hid f hf) not_mem_nil
  | cons top l ih =>
    intro hnodup hl id hid
    obtain ⟨htop, hnodup⟩ := nodup_cons.mp hnodup
    have hinner := ih hnodup fun j hj f p hf hp hlive => by
      have hne : j ≠ top := fun heq => htop (heq ▸ hj)
      cases hl j (mem_cons_of_mem top hj) f p hf hp hlive with
      | cons _ hsub => exact hsub
      | cons_cons => exact absurd rfl hne
    cases hf : a.get? id with
    | none => exact ⟨[], .gone hf, nil_sublist _⟩
    | some f =>
      rcases mem_cons.mp (hid f hf) with rfl | hmem
      · cases hp : parent f with
        | none => exact ⟨[id], .root hf hp, singleton_sublist.mpr mem_cons_self⟩
        | some p =>
          obtain ⟨ids, hids, hsub⟩ := hinner p fun g hg => by
            cases hl id mem_cons_self f p hf hp (by rw [hg]; rfl) with
            | cons _ hsub => exact absurd (hsub.subset mem_cons_self) htop
            | cons_cons _ hsub => exact singleton_sublist.mp hsub
          exact ⟨id :: ids, .step hf hp hids, hsub.cons_cons id⟩
      · obtain ⟨ids, hids, hsub⟩ := hinner id fun _ _ => hmem
        exact ⟨ids, hids, hsub.cons top⟩

end Issued

end Arena

namespace Scopes

variable {s : Scopes} {given gone : List FrameId}

/-- Scopes that come of entering, releasing and writing to frames, each frame inside one that is
alive or inside none: `given` are the ids that were given out, the latest one first, and `gone`
those whose frames were released. -/
inductive History : Scopes → List FrameId → List FrameId → Prop where
  | empty : History {} [] []
  | enter {s : Scopes} {given gone : List FrameId} (h : History s given gone)
    (parent : Option FrameId)
      (hparent : ∀ p, parent = some p → (get? s p).isSome) :
      History (s.enter parent).2 ((s.enter parent).1 :: given) gone
  | release {s : Scopes} {given gone : List FrameId} (h : History s given gone) (id : FrameId) :
      History (release s id) given (if (get? s id).isSome then id :: gone else gone)
  | write {s : Scopes} {given gone : List FrameId} (h : History s given gone) (id : FrameId)
    (c : Change) :
      History (s.write id c) given gone

lemma History.tallied (h : History s given gone) : Tallied s := by
  induction h with
  | empty => exact tallied_empty
  | enter _ parent _ ih => exact ih.push { parent }
  | release _ id ih => exact ih.release
  | write _ id c ih => exact ih.modify (c.apply id)

lemma History.issued (h : History s given gone) (hfew : given.length < 2 ^ 32) :
    Issued s parent given gone := by
  induction h with
  | empty => exact .empty
  | enter h parent hparent ih =>
    exact (ih (Nat.lt_of_succ_lt hfew)).push h.tallied.toWellFormed hparent hfew
  | release _ id ih => exact (ih hfew).release
  | write _ id c ih => exact (ih hfew).modify (parent_apply id c)

/-- Frames are never confused, whatever is done in whatever order: the free list holds the vacant
slots, the others are counted, no id is given out twice, an id whose frame was released leads
nowhere, and every walk outward ends. -/
theorem History.frames_apart (h : History s given gone) (hfew : given.length < 2 ^ 32) :
    (s.free.Nodup ∧ ∀ i, i ∈ s.free ↔ ∃ generation, s.slots[i]? = some ⟨generation, none⟩) ∧
    (s.live = s.slots.countP (·.frame.isSome) ∧
      ∀ id, (Arena.get? s id).isSome → (Arena.release s id).live + 1 = s.live) ∧
    given.Nodup ∧
    (∀ id ∈ gone, Arena.get? s id = none ∧ (∀ c, s.write id c = s) ∧ Arena.release s id = s ∧
      ∀ (α : Type) (pick : Frame → Option α), Arena.find? s parent pick id = none) ∧
    ∀ id, ∃ ids, Arena.Walk s parent id ids ∧
      ∀ (α : Type) (pick : Frame → Option α),
        Arena.find? s parent pick id = ids.findSome? fun j => (Arena.get? s j).bind pick := by
  have htallied := h.tallied
  have hissued := h.issued hfew
  refine ⟨⟨htallied.nodup, fun i => ⟨htallied.vacant i, fun ⟨g, hi⟩ => htallied.listed i g hi⟩⟩,
    ⟨htallied.live_eq, fun id hid => ?_⟩, hissued.nodup, fun id hid => ?_, fun id => ?_⟩
  · obtain ⟨f, hf⟩ := Option.isSome_iff_exists.mp hid
    rw [Arena.live_release hf]
    exact Nat.sub_add_cancel (htallied.live_pos hf)
  · have hnone := (hissued.get?_gone id hid).2
    refine ⟨hnone, fun c => ?_, ?_, fun α pick => ?_⟩
    · rw [Scopes.write, Arena.modify, hnone]
    · rw [Arena.release, hnone]
    · exact (Arena.Walk.gone hnone).find?_eq pick nodup_nil
  · obtain ⟨ids, hids, hnodup⟩ := hissued.exists_walk id
    exact ⟨ids, hids, fun α pick => hids.find?_eq pick hnodup⟩

/-- A frame in the slot that the parent of its parent had: the walk from it passes that slot
once. -/
theorem History.frames_apart_reused : ∃ s, History s [⟨0, 1⟩, ⟨1, 0⟩, ⟨0, 0⟩] [⟨0, 0⟩] ∧
    get? s ⟨0, 0⟩ = none ∧ (get? s ⟨0, 1⟩).bind parent = some ⟨1, 0⟩ ∧
    (get? s ⟨1, 0⟩).bind parent = some ⟨0, 0⟩ ∧
      ∃ ids, Walk s parent ⟨0, 1⟩ ids := by
  have hroot := History.empty.enter none (by simp)
  have hinner := hroot.enter (some ⟨0, 0⟩) (by rintro _ ⟨⟩; rfl)
  have hreleased := (hinner.release ⟨0, 0⟩).release ⟨0, 0⟩
  have h := hreleased.enter (some ⟨1, 0⟩) (by rintro _ ⟨⟩; rfl)
  obtain ⟨-, -, -, hgone, hwalk⟩ := h.frames_apart (by decide)
  obtain ⟨ids, hids, -⟩ := hwalk ⟨0, 1⟩
  exact ⟨_, h, (hgone _ mem_cons_self).1, rfl, rfl, ids, hids⟩

end Scopes

end SolidScript
