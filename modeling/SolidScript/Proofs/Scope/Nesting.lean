import SolidScript.Evaluation.World
import SolidScript.Proofs.Scope.Arena

/-!
# Nested scopes

The frames that are alive belong to the blocks in progress. A frame lies inside that of a block
further out, so no walk outward can meet a frame that is gone.
-/

namespace SolidScript

open List Arena Option

/-- A frame that holds only what was defined in it. -/
def Frame.AtHome (id : FrameId) (f : Frame) : Prop :=
  (∀ c ∈ f.modules, c.2.frame = id) ∧ ∀ c ∈ f.functions, c.2.frame = id

/-- The same names in the same place. How far a module's children have come may differ. -/
structure Frame.Same (f f' : Frame) : Prop where
  parent : f'.parent = f.parent
  values : f'.values = f.values
  modules : f'.modules = f.modules
  functions : f'.functions = f.functions
  children : f'.children.isSome = f.children.isSome

namespace Frame.Same

lemma refl (f : Frame) : f.Same f := ⟨rfl, rfl, rfl, rfl, rfl⟩

lemma trans {f g h : Frame} (hfg : f.Same g) (hgh : g.Same h) : f.Same h where
  parent := hgh.parent.trans hfg.parent
  values := hgh.values.trans hfg.values
  modules := hgh.modules.trans hfg.modules
  functions := hgh.functions.trans hfg.functions
  children := hgh.children.trans hfg.children

end Frame.Same

namespace Scopes

variable {s s' s'' : Scopes} {blocks : List FrameId} {id : FrameId}

lemma get?_enter (hs : Arena.WellFormed s) (parent : Option FrameId) (j : FrameId) :
    get? (s.enter parent).2 j = if j = (s.enter parent).1 then some { parent }
      else get? s j :=
  get?_push hs _ j

variable {f : Frame} {α : Type}

/-- A fresh frame is none of those that were there. -/
lemma ne_enter (hs : Arena.WellFormed s) (hf : get? s id = some f)
    (parent : Option FrameId) : id ≠ (s.enter parent).1 := by
  rintro rfl
  have hfresh : get? s (s.enter parent).1 = none := get?_push_id hs _
  rw [hfresh] at hf
  exact absurd hf (some_ne_none f).symm

/-- Every frame of a list, innermost first, lies inside none or inside a later one. -/
def Nested (s : Scopes) : List FrameId → Prop
  | [] => True
  | id :: outer =>
    (∃ f, get? s id = some f ∧ ∀ parent, f.parent = some parent → parent ∈ outer) ∧
      id ∉ outer ∧ Nested s outer

/-- Scopes that belong to blocks in progress, innermost first. -/
structure Sound (s : Scopes) (blocks : List FrameId) : Prop where
  wellFormed : Arena.WellFormed s
  /-- The live frames are those of the blocks. -/
  isSome_iff (id : FrameId) : (get? s id).isSome ↔ id ∈ blocks
  nested : s.Nested blocks
  atHome (id : FrameId) (f : Frame) (hf : get? s id = some f) : f.AtHome id

lemma sound_empty : Sound ({} : Scopes) [] where
  wellFormed := wellFormed_empty
  isSome_iff id := by simp [get?]
  nested := trivial
  atHome id f hf := by simp [get?] at hf

/-- Nesting is a matter of the parents alone. -/
lemma Nested.transfer
    (hkept : ∀ id ∈ blocks, ∀ f, get? s id = some f → ∃ f', get? s' id = some f' ∧
      f'.parent = f.parent) (h : s.Nested blocks) : s'.Nested blocks := by
  induction blocks with
  | nil => trivial
  | cons id outer ih =>
    obtain ⟨⟨f, hf, hparent⟩, hid, houter⟩ := h
    obtain ⟨f', hf', hsame⟩ := hkept id mem_cons_self f hf
    refine ⟨⟨f', hf', fun p hp => hparent p (hsame ▸ hp)⟩, hid, ih ?_ houter⟩
    exact fun j hj => hkept j (mem_cons_of_mem id hj)

/-- From every frame of the list there is a complete walk outward, through frames of the list. -/
lemma Nested.exists_path (h : s.Nested blocks) (hid : id ∈ blocks) :
    ∃ ids, Arena.Path s Frame.parent id ids ∧ ids.Nodup ∧ ids ⊆ blocks := by
  induction blocks generalizing id with
  | nil => exact absurd hid not_mem_nil
  | cons top outer ih =>
    obtain ⟨⟨f, hf, hparent⟩, htop, houter⟩ := h
    rcases mem_cons.mp hid with rfl | hid
    · -- from the innermost frame the walk goes on among the others, so it does not come back
      cases hp : f.parent with
      | none => exact ⟨[id], .root hf hp, nodup_singleton id, by simp⟩
      | some parent =>
        obtain ⟨ids, hpath, hnodup, hsub⟩ := ih houter (hparent parent hp)
        refine ⟨id :: ids, .step hf hp hpath, nodup_cons.mpr ⟨fun hmem => htop (hsub hmem), hnodup⟩,
          ?_⟩
        exact cons_subset_cons id hsub
    · obtain ⟨ids, hpath, hnodup, hsub⟩ := ih houter hid
      exact ⟨ids, hpath, hnodup, fun j hj => mem_cons_of_mem top (hsub hj)⟩

variable (c : Change) {parent : Option FrameId}

namespace Sound

lemma exists_frame (h : s.Sound blocks) (hid : id ∈ blocks) : ∃ f, get? s id = some f :=
  isSome_iff_exists.mp ((h.isSome_iff id).mpr hid)

lemma mem_of_get? (h : s.Sound blocks) (hf : get? s id = some f) : id ∈ blocks :=
  (h.isSome_iff id).mp (by rw [hf]; rfl)

lemma exists_path (h : s.Sound blocks) (hid : id ∈ blocks) :
    ∃ ids, Arena.Path s Frame.parent id ids ∧ ids.Nodup ∧ ids ⊆ blocks :=
  h.nested.exists_path hid

lemma parent_mem (h : s.Sound blocks) (hf : get? s id = some f) {parent : FrameId}
    (hparent : f.parent = some parent) : parent ∈ blocks := by
  obtain ⟨ids, hpath, -, hsub⟩ := h.exists_path (h.mem_of_get? hf)
  cases hpath with
  | root hid hp =>
    rw [hf] at hid
    obtain rfl := some.inj hid
    rw [hp] at hparent
    exact absurd hparent (some_ne_none parent).symm
  | step hid hp rest =>
    rw [hf] at hid
    obtain rfl := some.inj hid
    rw [hp] at hparent
    obtain rfl := some.inj hparent
    exact hsub (mem_cons_of_mem id rest.mem_self)

lemma enter (h : s.Sound blocks) (hparent : ∀ p, parent = some p → p ∈ blocks) :
    (s.enter parent).2.Sound ((s.enter parent).1 :: blocks) := by
  have hnew : (s.enter parent).1 ∉ blocks := fun hmem => by
    obtain ⟨f, hf⟩ := h.exists_frame hmem
    exact ne_enter h.wellFormed hf parent rfl
  refine ⟨h.wellFormed.push _, fun j => ?_, ⟨⟨{ parent }, ?_, hparent⟩, hnew, ?_⟩, fun j f hf => ?_⟩
  · rw [get?_enter h.wellFormed, mem_cons]
    by_cases hj : j = (s.enter parent).1
    · simp [hj]
    · rw [if_neg hj, h.isSome_iff]
      simp [hj]
  · rw [get?_enter h.wellFormed, if_pos rfl]
  · refine h.nested.transfer fun j hj f hf => ⟨f, ?_, rfl⟩
    rw [get?_enter h.wellFormed, if_neg (ne_enter h.wellFormed hf parent)]
    exact hf
  · rw [get?_enter h.wellFormed] at hf
    split at hf
    · obtain rfl := some.inj hf
      exact ⟨fun c hc => absurd hc not_mem_nil, fun c hc => absurd hc not_mem_nil⟩
    · exact h.atHome j f hf

lemma release (h : s.Sound (id :: blocks)) : Sound (Arena.release s id) blocks := by
  have hid : id ∉ blocks := h.nested.2.1
  have hget : ∀ j, Arena.get? (Arena.release s id) j = if j = id then none else Arena.get? s j :=
    Arena.get?_release
  refine ⟨h.wellFormed.release, fun j => ?_, ?_, fun j f hf => ?_⟩
  · rw [hget]
    by_cases hj : j = id
    · simp [hj, hid]
    · rw [if_neg hj, h.isSome_iff]
      simp [hj]
  · refine h.nested.2.2.transfer fun j hj f hf => ⟨f, ?_, rfl⟩
    have hne : j ≠ id := fun heq => hid (heq ▸ hj)
    rw [hget, if_neg hne]
    exact hf
  · rw [hget] at hf
    split at hf
    · exact absurd hf (some_ne_none f).symm
    · exact h.atHome j f hf

/-- A change of a frame that keeps its parent and takes in no definition from elsewhere. -/
lemma modify (h : s.Sound blocks) {change : Frame → Frame}
    (hparent : ∀ f, (change f).parent = f.parent)
    (hhome : ∀ f, f.AtHome id → (change f).AtHome id) :
    Sound (Arena.modify s id change) blocks := by
  have hget : ∀ j, Arena.get? (Arena.modify s id change) j =
      if j = id then (Arena.get? s id).map change else Arena.get? s j := Arena.get?_modify change
  refine ⟨h.wellFormed.modify change, fun j => ?_, ?_, fun j f hf => ?_⟩
  · rw [hget]
    by_cases hj : j = id
    · rw [if_pos hj, isSome_map, h.isSome_iff, hj]
    · rw [if_neg hj, h.isSome_iff]
  · refine h.nested.transfer fun j hj f hf => ?_
    rw [hget]
    by_cases hj : j = id
    · subst hj
      exact ⟨change f, by rw [if_pos rfl, hf]; rfl, hparent f⟩
    · exact ⟨f, by rw [if_neg hj]; exact hf, rfl⟩
  · rw [hget] at hf
    split at hf
    · rename_i hj
      obtain ⟨f', hf', rfl⟩ := map_eq_some_iff.mp hf
      exact hj ▸ hhome f' (h.atHome id f' hf')
    · exact h.atHome j f hf

end Sound

/-! ## Changes -/

lemma mem_bindName {name : String} {value : α} {bound : List (String × α)} {b : String × α}
    (hb : b ∈ bindName name value bound) : b = (name, value) ∨ b ∈ bound := by
  induction bound with
  | nil => exact .inl (mem_singleton.mp hb)
  | cons other rest ih =>
    unfold bindName at hb
    split at hb
    · rcases mem_cons.mp hb with hb | hb
      · exact .inl hb
      · exact .inr (mem_cons_of_mem other hb)
    · rcases mem_cons.mp hb with hb | hb
      · exact .inr (hb ▸ mem_cons_self)
      · exact (ih hb).imp_right (mem_cons_of_mem other)

lemma parent_apply (id : FrameId) (c : Change) (f : Frame) : (c.apply id f).parent = f.parent := by
  cases c <;> rfl

lemma atHome_apply (h : f.AtHome id) : (c.apply id f).AtHome id := by
  cases c with
  | values vs => exact h
  | children state => exact h
  | module m =>
    refine ⟨fun c hc => ?_, h.2⟩
    rcases mem_bindName hc with rfl | hc
    · rfl
    · exact h.1 c hc
  | function g =>
    refine ⟨h.1, fun c hc => ?_⟩
    rcases mem_bindName hc with rfl | hc
    · rfl
    · exact h.2 c hc

lemma Sound.write (h : s.Sound blocks) (c : Change) : (s.write id c).Sound blocks :=
  h.modify (parent_apply id c) fun _ => atHome_apply c

lemma get?_write (j : FrameId) :
    get? (s.write id c) j = if j = id then (get? s id).map (c.apply id)
      else get? s j :=
  get?_modify (c.apply id) j

/-- A binding that is made in a live frame is there afterwards. -/
lemma get?_write_self (hf : get? s id = some f) : get? (s.write id c) id = some (c.apply id f) := by
  rw [get?_write, if_pos rfl, hf]
  rfl

/-! ## What stays -/

/-- Every live frame stays where it is, and unless it is the own frame it keeps its names. -/
def Kept (own : Option FrameId) (s s' : Scopes) : Prop :=
  ∀ id f, get? s id = some f →
    ∃ f', get? s' id = some f' ∧ f'.parent = f.parent ∧ (own ≠ some id → f.Same f')

namespace Kept

variable {own : Option FrameId}

lemma refl (own : Option FrameId) (s : Scopes) : Kept own s s :=
  fun _ f hf => ⟨f, hf, rfl, fun _ => .refl f⟩

lemma of_get?_eq (h : ∀ id, own ≠ some id → get? s' id = get? s id)
    (hown : ∀ id f, own = some id → get? s id = some f →
      ∃ f', get? s' id = some f' ∧ f'.parent = f.parent) : Kept own s s' := by
  intro id f hf
  by_cases hid : own = some id
  · obtain ⟨f', hf', hparent⟩ := hown id f hid hf
    exact ⟨f', hf', hparent, fun hne => absurd hid hne⟩
  · exact ⟨f, (h id hid).trans hf, rfl, fun _ => .refl f⟩

lemma trans (h : Kept own s s') (h' : Kept own s' s'') : Kept own s s'' := by
  intro id f hf
  obtain ⟨f', hf', hparent, hsame⟩ := h id f hf
  obtain ⟨f'', hf'', hparent', hsame'⟩ := h' id f' hf'
  exact ⟨f'', hf'', hparent'.trans hparent, fun hid => (hsame hid).trans (hsame' hid)⟩

lemma mono (h : Kept none s s') : Kept own s s' := by
  intro id f hf
  obtain ⟨f', hf', hparent, hsame⟩ := h id f hf
  exact ⟨f', hf', hparent, fun _ => hsame (some_ne_none id).symm⟩

lemma same (h : Kept none s s') (hf : get? s id = some f) :
    ∃ f', get? s' id = some f' ∧ f.Same f' := by
  obtain ⟨f', hf', -, hsame⟩ := h id f hf
  exact ⟨f', hf', hsame (some_ne_none id).symm⟩

/-- To bind something in the own frame changes no other. -/
lemma write : Kept (some id) s (s.write id c) := by
  refine of_get?_eq (fun j hj => ?_) fun j f hj hf => ?_
  · rw [get?_write, if_neg fun heq => hj (congrArg some heq.symm)]
  · obtain rfl := some.inj hj
    exact ⟨c.apply id f, get?_write_self c hf, parent_apply id c f⟩

/-- How far the children have come is no name. -/
lemma write_children (state : Offspring) (hid : ∀ f, get? s id = some f → f.children.isSome) :
    Kept none s (s.write id (.children state)) := by
  intro j f hf
  rw [get?_write]
  by_cases hj : j = id
  · subst hj
    refine ⟨{ f with children := some state }, by rw [if_pos rfl, hf]; rfl, rfl, fun _ => ?_⟩
    exact ⟨rfl, rfl, rfl, rfl, (hid f hf).symm⟩
  · exact ⟨f, by rw [if_neg hj]; exact hf, rfl, fun _ => .refl f⟩

lemma release (h : Kept own s s') (hid : get? s id = none) : Kept own s (release s' id) := by
  intro j f hf
  have hne : j ≠ id := by
    rintro rfl
    rw [hid] at hf
    exact absurd hf (some_ne_none f).symm
  obtain ⟨f', hf', hkept⟩ := h j f hf
  refine ⟨f', ?_, hkept⟩
  rw [get?_release, if_neg hne]
  exact hf'

/-- A block with a frame of its own leaves the others as they were. -/
lemma block (hs : Arena.WellFormed s) (h : Kept (some (s.enter parent).1) (s.enter parent).2 s') :
    Kept none s s' := by
  intro j f hf
  have hne := ne_enter hs hf parent
  have hentered : get? (s.enter parent).2 j = some f := by
    rw [get?_enter hs, if_neg hne]
    exact hf
  obtain ⟨f', hf', hparent, hsame⟩ := h j f hentered
  exact ⟨f', hf', hparent, fun _ => hsame fun heq => hne (some.inj heq).symm⟩

end Kept

/-! ## Searches -/

/-- What is looked up from a frame is the same as long as the frames further out keep it. -/
lemma Nested.find?_eq (hs : s.Nested blocks) (hid : id ∈ blocks) (pick : Frame → Option α)
    (h : ∀ j ∈ blocks, ∀ f, get? s j = some f → ∃ f', get? s' j = some f' ∧
      f'.parent = f.parent ∧ pick f' = pick f) :
    find? s' Frame.parent pick id = find? s Frame.parent pick id := by
  obtain ⟨ids, hpath, hnodup, hsub⟩ := hs.exists_path hid
  have hpath' : Arena.Path s' Frame.parent id ids := hpath.transfer fun j hj f hf => by
    obtain ⟨f', hf', hparent, -⟩ := h j (hsub hj) f hf
    exact ⟨f', hf', hparent⟩
  -- it is the same walk, and every frame on it has the same to offer
  rw [hpath.walk.find?_eq pick hnodup, hpath'.walk.find?_eq pick hnodup]
  rw [← head?_filterMap, ← head?_filterMap]
  refine congrArg head? (filterMap_congr fun j hj => ?_)
  obtain ⟨f, hf⟩ := isSome_iff_exists.mp (hpath.walk.isSome hj)
  obtain ⟨f', hf', -, hpick⟩ := h j (hsub hj) f hf
  rw [hf, hf']
  exact hpick

/-- A search begins in the frame itself and goes on from its parent. -/
lemma Sound.find?_step (hs : s.Sound blocks) (pick : Frame → Option α)
    (hf : get? s id = some f) :
    find? s Frame.parent pick id =
      (pick f).or (f.parent.bind (find? s Frame.parent pick)) := by
  obtain ⟨ids, hpath, hnodup, -⟩ := hs.exists_path (hs.mem_of_get? hf)
  rw [hpath.walk.find?_eq pick hnodup]
  cases hpath with
  | root hid hparent =>
    rw [hf] at hid
    obtain rfl := some.inj hid
    rw [findSome?_cons, hf, hparent, bind_some]
    cases pick f <;> rfl
  | step hid hparent rest =>
    rw [hf] at hid
    obtain rfl := some.inj hid
    rw [findSome?_cons, hf, hparent, bind_some, bind_some,
      rest.walk.find?_eq pick (nodup_cons.mp hnodup).2]
    cases pick f <;> rfl

lemma Sound.find?_enter_of_mem (hs : s.Sound blocks) (hid : id ∈ blocks) (pick : Frame → Option α) :
    find? (s.enter parent).2 Frame.parent pick id = find? s Frame.parent pick id := by
  refine hs.nested.find?_eq hid pick fun j _ f hf => ⟨f, ?_, rfl, rfl⟩
  rw [get?_enter hs.wellFormed, if_neg (ne_enter hs.wellFormed hf parent)]
  exact hf

/-- A fresh frame hides nothing of what there is around it. -/
lemma Sound.find?_enter (hs : s.Sound blocks) {parent : FrameId} (hparent : parent ∈ blocks)
    {pick : Frame → Option α} (hpick : pick { parent := some parent } = none) :
    find? (s.enter (some parent)).2 Frame.parent pick (s.enter (some parent)).1 =
      find? s Frame.parent pick parent := by
  have hentered := hs.enter fun p (hp : some parent = some p) => some.inj hp ▸ hparent
  have hget : get? (s.enter (some parent)).2 (s.enter (some parent)).1 =
      some { parent := some parent } := by
    rw [get?_enter hs.wellFormed, if_pos rfl]
  rw [hentered.find?_step pick hget, hpick, none_or, bind_some]
  exact hs.find?_enter_of_mem hparent pick

/-- What is bound in the innermost frame is not seen from further out. -/
lemma Sound.find?_write_of_mem {frame : FrameId} {outer : List FrameId}
    (hs : s.Sound (frame :: outer)) (hid : id ∈ outer) (pick : Frame → Option α) (c : Change) :
    find? (s.write frame c) Frame.parent pick id = find? s Frame.parent pick id := by
  obtain ⟨-, hframe, houter⟩ := hs.nested
  refine houter.find?_eq hid pick fun j hj f hf => ⟨f, ?_, rfl, rfl⟩
  have hne : j ≠ frame := fun heq => hframe (heq ▸ hj)
  rw [get?_write, if_neg hne]
  exact hf

/-- From the innermost frame itself it is seen first. -/
lemma Sound.find?_write {frame : FrameId} {outer : List FrameId} (hs : s.Sound (frame :: outer))
    (pick : Frame → Option α) (c : Change) (hf : get? s frame = some f) :
    find? (s.write frame c) Frame.parent pick frame =
      (pick (c.apply frame f)).or (f.parent.bind (find? s Frame.parent pick)) := by
  rw [(hs.write c).find?_step pick (get?_write_self c hf), parent_apply]
  cases hparent : f.parent with
  | none => rfl
  | some parent =>
    obtain ⟨⟨g, hg, houter⟩, -, -⟩ := hs.nested
    rw [hf] at hg
    obtain rfl := some.inj hg
    rw [bind_some, bind_some, hs.find?_write_of_mem (houter parent hparent)]

lemma Sound.module?_eq (hs : s.Sound blocks) (hid : id ∈ blocks) (h : Kept none s s')
    (name : String) : s'.module? id name = s.module? id name := by
  refine hs.nested.find?_eq hid _ fun j _ f hf => ?_
  obtain ⟨f', hf', hsame⟩ := h.same hf
  exact ⟨f', hf', hsame.parent, congrArg (lookup name) hsame.modules⟩

end Scopes

end SolidScript
