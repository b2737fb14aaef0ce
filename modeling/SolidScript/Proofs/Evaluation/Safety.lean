import SolidScript.Proofs.Evaluation.Steady

/-!
# Runs that keep to their place

Blocks and calls nest: a run may begin some, and has ended them all when it is over. The frames of
what was in progress before keep their names all along, up to an own frame of the run.

All of it is about what may be said of the frames in use, `G`.
-/

namespace SolidScript

/-- The frame of a block. -/
def Activation.frame? : Activation → Option FrameId
  | block id => some id
  | call _ => none

namespace World

/-- The frames of the blocks in progress, innermost first. -/
def blocks (w : World) : List FrameId := w.stack.filterMap Activation.frame?

lemma blocks_congr {w w' : World} (h : w'.stack = w.stack) : w'.blocks = w.blocks :=
  congrArg (List.filterMap Activation.frame?) h

end World

open Scopes (Kept)

/-- Nothing is asked of a use that is not that of a statement, but that the frame is alive. -/
def Undemanding (G : Visit → Prop) : Prop := ∀ v : Visit, v.Sound → v.use.IsPart → G v

/-- Where a run waits: what was in progress still is, and the frames of that keep their names, up to
an own one. -/
structure Reaches (G : Visit → Prop) (own : Option FrameId) (w w' : World) : Prop where
  sound : w'.scopes.Sound w'.blocks
  kept : Kept own w.scopes w'.scopes
  stack : ∃ inner, w'.stack = inner ++ w.stack
  visits (v : Visit) (hv : w'.visits v) : w.visits v ∨ G v

/-- Where a run is over: nothing that it began is left, and the scopes have changed as `R` says. -/
structure Ends (G : Visit → Prop) (R : Scopes → Scopes → Prop) (w w' : World) : Prop where
  sound : w'.scopes.Sound w'.blocks
  scopes : R w.scopes w'.scopes
  stack : w'.stack = w.stack
  visits (v : Visit) (hv : w'.visits v) : w.visits v ∨ G v

/-- A building that keeps to that from a state: its own frame is the only one whose names change. -/
def Building.Safe (G : Visit → Prop) (own : Option FrameId) (R : Scopes → Scopes → Prop)
    (x : Building) (w : World) : Prop :=
  (x w).Holds (Reaches G own w) (Ends G R w) fun _ => Ends G (Kept own) w

variable {G : Visit → Prop} {R R' : Scopes → Scopes → Prop} {own : Option FrameId}
  {w w' w'' : World}

namespace Ends

lemma blocks_eq (h : Ends G R w w') : w'.blocks = w.blocks := World.blocks_congr h.stack

lemma sound' (h : Ends G R w w') : w'.scopes.Sound w.blocks := h.blocks_eq ▸ h.sound

lemma mono (h : Ends G R w w') (hR : R w.scopes w'.scopes → R' w.scopes w'.scopes) :
    Ends G R' w w' :=
  ⟨h.sound, hR h.scopes, h.stack, h.visits⟩

lemma trans (h : Ends G R w w') (h' : Ends G R' w' w'') {R'' : Scopes → Scopes → Prop}
    (hR : R w.scopes w'.scopes → R' w'.scopes w''.scopes → R'' w.scopes w''.scopes) :
    Ends G R'' w w'' where
  sound := h'.sound
  scopes := hR h.scopes h'.scopes
  stack := h'.stack.trans h.stack
  visits v hv := (h'.visits v hv).elim (h.visits v) .inr

/-- A run may go on from where another is over. -/
lemma reaches (h : Ends G (Kept own) w w') (h' : Reaches G own w' w'') : Reaches G own w w'' where
  sound := h'.sound
  kept := h.scopes.trans h'.kept
  stack := by
    obtain ⟨inner, hinner⟩ := h'.stack
    exact ⟨inner, hinner.trans (congrArg _ h.stack)⟩
  visits v hv := (h'.visits v hv).elim (h.visits v) .inr

end Ends

/-- Computations are over with the scopes as they were. -/
lemma Steady.ends (hG : Undemanding G) (h : Steady none w.blocks w w') :
    Ends G (Kept none) w w' where
  sound := World.blocks_congr h.stack ▸ h.sound
  scopes := .of_get?_eq h.get?_eq fun id _ hid => absurd hid (Option.some_ne_none id).symm
  stack := h.stack
  visits v hv := (h.visits v hv).imp_right fun hv => hG v hv.1 hv.2

/-- Writing to an open block is safe. -/
lemma Ends.write (hG : Undemanding G) (hs : w.scopes.Sound w.blocks) {frame : FrameId}
    (hframe : frame ∈ w.blocks) {c : Change} (hR : R w.scopes (w.scopes.write frame c)) :
    Ends G R w (w.write frame c) := by
  have hwrite := Steady.write hs hframe c
  exact ⟨hwrite.sound, hR, rfl, fun v hv => (hwrite.visits v hv).imp_right fun hv => hG v hv.1 hv.2⟩

namespace Building.Safe

variable {α : Type} {x : Building}

/-- What is safe from where another run is over is safe as its continuation. -/
lemma after (hw : Ends G (Kept own) w w') (h : x.Safe G own (Kept own) w') :
    (x w').Holds (Reaches G own w) (Ends G (Kept own) w) fun _ => Ends G (Kept own) w :=
  Run.Holds.mono (fun _ => hw.reaches) (fun _ hx => hw.trans hx .trans)
    (fun _ _ hx => hw.trans hx .trans) h

lemma empty (h : w.scopes.Sound w.blocks) (hR : R w.scopes w.scopes) :
    Building.Safe G own R .empty w :=
  ⟨h, hR, rfl, fun _ hv => .inl hv⟩

lemma fail (h : w.scopes.Sound w.blocks) (e : RuntimeError) : Building.Safe G own R (.fail e) w :=
  ⟨h, .refl own _, rfl, fun _ hv => .inl hv⟩

lemma build {y : Eval α} {f : α → Building} {A : α → World → Prop}
    (hy : y.Holds w (fun a w' => Ends G (Kept none) w w' ∧ A a w') fun _ => Ends G (Kept none) w)
    (hf : ∀ a w', Ends G (Kept none) w w' → A a w' → (f a).Safe G none (Kept none) w') :
    (Eval.build y f).Safe G none (Kept none) w :=
  hy.build fun a w' h => (hf a w' h.1 h.2).after h.1

/-- The same where nothing has to be known of the result. -/
lemma compute {y : Eval α} {f : α → Building} {frame : FrameId} (hG : Undemanding G)
    (hs : w.scopes.Sound w.blocks) (hframe : frame ∈ w.blocks) (hy : Eval.SteadyIn frame α y)
    (hf : ∀ a w', Ends G (Kept none) w w' → (f a).Safe G none (Kept none) w') :
    (Eval.build y f).Safe G none (Kept none) w :=
  build ((hy w w.blocks hs hframe).mono (fun _ _ h => ⟨h.ends hG, trivial⟩) fun _ _ h => h.ends hG)
    fun a w' hw (_ : True) => hf a w' hw

/-- Geometry that depends on collected geometry. -/
lemma collect {f : List (Geometry Float) → Building} (hx : x.Safe G none (Kept none) w)
    (hf : ∀ gs w', Ends G (Kept none) w w' → (f gs).Safe G none (Kept none) w') :
    (Eval.build (Eval.collect x) f).Safe G none (Kept none) w :=
  Eval.Holds.build (Eval.Holds.collect hx) fun gs w' hw => (hf gs w' hw).after hw

lemma write {frame : FrameId} {f : Unit → Building} {c : Change}
    (hw : Ends G (Kept own) w (w.write frame c))
    (h : (f ()).Safe G own (Kept own) (w.write frame c)) :
    (Eval.build (Eval.write frame c) f).Safe G own (Kept own) w := by
  have hrest := h.after hw
  exact hrest

/-- The names of a block's own frame do not matter outside. -/
lemma inBlock (hG : Undemanding G) {parent : FrameId} {body : FrameId → Building}
    (hs : w.scopes.Sound w.blocks) (hparent : parent ∈ w.blocks)
    (h : (body (w.openInside parent).1).Safe G (some (w.openInside parent).1)
      (Kept (some (w.openInside parent).1)) (w.openInside parent).2) :
    (inBlock parent body).Safe G none (Kept none) w := by
  -- the frame around is used to put the block inside
  have hvisits : ∀ v, (w.openInside parent).2.visits v → w.visits v ∨ G v := fun v hv => by
    rcases hv with rfl | hv
    · exact .inr (hG _ (hs.visit hparent .enclose) trivial)
    · exact .inl hv
  have hclose : ∀ w', Ends G (Kept (some (w.openInside parent).1)) (w.openInside parent).2 w' →
      Ends G (Kept none) w (w'.closeBlock (w.openInside parent).1) := fun w' hw => by
    have hblocks : (w'.closeBlock (w.openInside parent).1).blocks = w.blocks :=
      World.blocks_congr (congrArg List.tail hw.stack)
    refine ⟨?_, (Kept.block hs.wellFormed hw.scopes).release (Arena.get?_push_id hs.wellFormed _),
      congrArg List.tail hw.stack, fun v hv => ?_⟩
    · rw [hblocks]
      exact hw.sound'.release
    · exact (hw.visits v hv).elim (hvisits v) .inr
  refine (h.mono (fun w' hw => ?_) (fun _ hw => hw) fun _ _ hw => hw).atEnd hclose fun _ => hclose
  obtain ⟨inner, hinner⟩ := hw.stack
  refine ⟨hw.sound, Kept.block hs.wellFormed hw.kept,
    ⟨inner ++ [.block (w.openInside parent).1], ?_⟩, fun v hv => ?_⟩
  · rw [hinner, List.append_assoc]
    rfl
  · exact (hw.visits v hv).elim (hvisits v) .inr

lemma inBody (hG : Undemanding G) {parent : FrameId} {block : Program} {body : FrameId → Building}
    (hs : w.scopes.Sound w.blocks) (hparent : parent ∈ w.blocks)
    (h : (body (w.openInside parent).1).Safe G (some (w.openInside parent).1)
      (Kept (some (w.openInside parent).1)) (w.openInside parent).2) :
    (inBody parent block body).Safe G none (Kept none) w := by
  unfold SolidScript.inBody
  split
  · exact empty hs (.refl none _)
  · exact inBlock hG hs hparent h

lemma inCall {name : String} (h : x.Safe G none (Kept none) (w.openCall name)) :
    (inCall name x).Safe G none (Kept none) w := by
  have hclose : ∀ w', Ends G (Kept none) (w.openCall name) w' → Ends G (Kept none) w w'.closeCall :=
    fun w' hw => by
    have hblocks : w'.closeCall.blocks = w.blocks :=
      World.blocks_congr (congrArg List.tail hw.stack)
    refine ⟨?_, hw.scopes, congrArg List.tail hw.stack, hw.visits⟩
    rw [hblocks]
    exact hw.sound'
  refine (h.mono (fun w' hw => ?_) (fun _ hw => hw) fun _ _ hw => hw).atEnd hclose fun _ => hclose
  obtain ⟨inner, hinner⟩ := hw.stack
  refine ⟨hw.sound, hw.kept, ⟨inner ++ [.call name], ?_⟩, hw.visits⟩
  rw [hinner, List.append_assoc]
  rfl

/-- Streams one after the other are safe if every one is, from wherever those before it are over. -/
lemma each {β : Type} {body : β → Building} (hw : Ends G (Kept none) w w')
    (h : ∀ b w', Ends G (Kept none) w w' → (body b).Safe G none (Kept none) w') (bs : List β) :
    Building.Safe G none (Kept none) (Stream.each body bs) w' := by
  induction bs generalizing w' with
  | nil => exact empty hw.sound (.refl none _)
  | cons b bs ih =>
    exact (h b w' hw).andThen fun w'' hw' => (ih (hw.trans hw' .trans)).after hw'

lemma loop {body : Nat → Building} (hw : Ends G (Kept none) w w')
    (h : ∀ i w', Ends G (Kept none) w w' → (body i).Safe G none (Kept none) w') (n i : Nat) :
    Building.Safe G none (Kept none) (Stream.loop body n i) w' := by
  rw [Stream.loop_eq_each]
  exact each hw h _

lemma ofItems (hs : w.scopes.Sound w.blocks) (gs : List (Geometry Float)) :
    Building.Safe G none (Kept none) (.ofItems gs) w := by
  induction gs generalizing w with
  | nil => exact empty hs (.refl none _)
  | cons g gs ih =>
    refine ⟨⟨hs, .refl none _, ⟨[], rfl⟩, fun _ hv => .inl hv⟩, fun log => ?_⟩
    -- to be resumed with another log is no change to anything else
    have hlog : Ends G (Kept none) w (w.withLog log) := ⟨hs, .refl none _, rfl, fun _ hv => .inl hv⟩
    exact (ih hlog.sound).after hlog

/-- To carry out a plan is safe if the children are. -/
lemma plan (site : CallSite) (hs : w.scopes.Sound w.blocks) (h : x.Safe G none (Kept none) w)
    (p : Plan) : (Plan.build (.ofStream site x) p).Safe G none (Kept none) w := by
  cases p with
  | shape g => exact ofItems hs [g]
  | relay => exact h
  | fold join change =>
    refine collect h fun gs w' hw => ?_
    split
    · exact fail hw.sound _
    · exact empty hw.sound (.refl none _)
    · exact ofItems hw.sound [_]

end Building.Safe

end SolidScript
