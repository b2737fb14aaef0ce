import SolidScript.Proofs.Scope.Nesting

/-!
# The module around a frame

The frame of a module's block holds what the body of the invocation yields. From any frame outward,
the first of these belongs to the module that is around. Which one that is depends on where frames
lie and on which of them belong to modules, and on nothing else.
-/

namespace SolidScript

open Arena Option

namespace Scopes

variable {s s' : Scopes} {blocks blocks' : List FrameId} {id : FrameId}

/-- The frames of a list are where they were, and the same ones of them belong to modules. -/
def Agree (blocks : List FrameId) (s s' : Scopes) : Prop :=
  ∀ id ∈ blocks, ∀ f, get? s id = some f →
    ∃ f', get? s' id = some f' ∧ f'.parent = f.parent ∧ f'.children.isSome = f.children.isSome

namespace Agree

lemma trans {s'' : Scopes} (h : Agree blocks s s') (h' : Agree blocks s' s'') :
    Agree blocks s s'' := by
  intro id hid f hf
  obtain ⟨f', hf', hparent, hchildren⟩ := h id hid f hf
  obtain ⟨f'', hf'', hparent', hchildren'⟩ := h' id hid f' hf'
  exact ⟨f'', hf'', hparent'.trans hparent, hchildren'.trans hchildren⟩

lemma of_get?_eq (h : ∀ id ∈ blocks, get? s' id = get? s id) : Agree blocks s s' :=
  fun id hid f hf => ⟨f, (h id hid).trans hf, rfl, rfl⟩

lemma mono (h : Agree blocks' s s') (hsub : blocks ⊆ blocks') : Agree blocks s s' :=
  fun id hid => h id (hsub hid)

/-- A fresh frame makes no difference to the others. -/
lemma enter (hs : Arena.WellFormed s) (parent : Option FrameId) :
    Agree blocks s (s.enter parent).2 := by
  intro id _ f hf
  refine ⟨f, ?_, rfl, rfl⟩
  rw [get?_enter hs, if_neg (ne_enter hs hf parent)]
  exact hf

lemma release (hid : id ∉ blocks) : Agree blocks s (release s id) := by
  refine of_get?_eq fun j hj => ?_
  have hne : j ≠ id := fun heq => hid (heq ▸ hj)
  rw [get?_release, if_neg hne]

/-- Something is bound in a frame, which may be one of the list if it stays a module's frame or
none. -/
lemma write (c : Change)
    (hc : ∀ f, id ∈ blocks → get? s id = some f → (c.apply id f).children.isSome =
      f.children.isSome) : Agree blocks s (s.write id c) := by
  intro j hj f hf
  rw [get?_write]
  by_cases heq : j = id
  · subst heq
    refine ⟨c.apply j f, by rw [if_pos rfl, hf]; rfl, parent_apply j c f, hc f hj hf⟩
  · exact ⟨f, by rw [if_neg heq]; exact hf, rfl, rfl⟩

lemma write_of_not_mem (hid : id ∉ blocks) (c : Change) : Agree blocks s (s.write id c) :=
  write c fun _ hmem _ => absurd hmem hid

/-- To note how far the children of a module have come. -/
lemma write_children (state : Offspring) (hid : ∃ f, get? s id = some f ∧ f.children.isSome) :
    Agree blocks s (s.write id (.children state)) := by
  refine write _ fun f _ hf => ?_
  obtain ⟨g, hg, hchildren⟩ := hid
  rw [hf] at hg
  exact some.inj hg ▸ hchildren.symm

end Agree

/-- The module around a frame: the nearest frame outward, among those of a list, that belongs to
one. -/
inductive Home (s : Scopes) (blocks : List FrameId) : FrameId → Option FrameId → Prop where
  | here {id : FrameId} {f : Frame} (hid : id ∈ blocks) (hf : get? s id = some f)
    (hchildren : f.children.isSome) : Home s blocks id (some id)
  | outer {id parent : FrameId} {f : Frame} {r : Option FrameId} (hid : id ∈ blocks)
    (hf : get? s id = some f)
    (hchildren : f.children = none) (hparent : f.parent = some parent)
    (rest : Home s blocks parent r) :
    Home s blocks id r
  | root {id : FrameId} {f : Frame} (hid : id ∈ blocks) (hf : get? s id = some f)
    (hchildren : f.children = none) (hparent : f.parent = none) : Home s blocks id none

namespace Home

variable {r : Option FrameId}

lemma mem (h : Home s blocks id r) : id ∈ blocks := by
  cases h <;> assumption

/-- The frame that is found belongs to a module. -/
lemma exists_frame {home : FrameId} (h : Home s blocks id (some home)) :
    home ∈ blocks ∧ ∃ f, get? s home = some f ∧ f.children.isSome := by
  generalize hr : some home = r at h
  induction h with
  | here hid hf hchildren =>
    obtain rfl := some.inj hr
    exact ⟨hid, _, hf, hchildren⟩
  | outer _ _ _ _ _ ih => exact ih hr
  | root => exact absurd hr (some_ne_none home)

lemma transfer (hagree : Agree blocks s s') (hsub : blocks ⊆ blocks') (h : Home s blocks id r) :
    Home s' blocks' id r := by
  induction h with
  | here hid hf hchildren =>
    obtain ⟨f', hf', -, hsame⟩ := hagree _ hid _ hf
    exact .here (hsub hid) hf' (hsame.trans hchildren)
  | outer hid hf hchildren hparent _ ih =>
    obtain ⟨f', hf', hsame, hsome⟩ := hagree _ hid _ hf
    rw [hchildren] at hsome
    exact .outer (hsub hid) hf' (isSome_eq_false_iff.mp hsome |>
      isNone_iff_eq_none.mp)
      (hsame.trans hparent) ih
  | root hid hf hchildren hparent =>
    obtain ⟨f', hf', hsame, hsome⟩ := hagree _ hid _ hf
    rw [hchildren] at hsome
    exact .root (hsub hid) hf' (isSome_eq_false_iff.mp hsome |> isNone_iff_eq_none.mp)
      (hsame.trans hparent)

/-- What is looked up from a frame is what the module around has. -/
lemma children?_eq (hs : s.Sound blocks') (h : Home s blocks id r) :
    s.children? id = r.bind fun home => (get? s home).bind Frame.children := by
  induction h with
  | here hid hf hchildren =>
    obtain ⟨state, hstate⟩ := isSome_iff_exists.mp hchildren
    rw [bind_some, hf, bind_some, children?, hs.find?_step _ hf, hstate]
    rfl
  | outer hid hf hchildren hparent _ ih =>
    rw [children?, hs.find?_step _ hf, hchildren, hparent, none_or, bind_some]
    exact ih
  | root hid hf hchildren hparent =>
    rw [children?, hs.find?_step _ hf, hchildren, hparent]
    rfl

end Home

/-- A fresh frame has the module around it that its parent has. -/
lemma Home.enter {parent : FrameId} {r : Option FrameId} (hs : Arena.WellFormed s)
    (h : Home s blocks parent r) :
    Home (s.enter (some parent)).2 ((s.enter (some parent)).1 :: blocks) (s.enter (some parent)).1
      r := by
  have hnew : get? (s.enter (some parent)).2 (s.enter (some parent)).1 =
      some { parent := some parent } := by
    rw [get?_enter hs, if_pos rfl]
  exact .outer List.mem_cons_self hnew rfl rfl
    (h.transfer (.enter hs _) (List.subset_cons_self _ _))

end Scopes

end SolidScript
