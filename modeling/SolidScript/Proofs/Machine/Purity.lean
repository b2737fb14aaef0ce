import SolidScript.Proofs.Machine.Acts

/-!
# Expressions have no effect

To evaluate an expression leaves the scopes and what is in progress as they were, whether there is a
value or an error, from whatever frame it begins. It fails in four ways only.
-/

namespace SolidScript

open Arena

/-! ## States in which nothing is touched -/

/-- The same live frames with the same contents and the same things in progress, and some more
reported. -/
structure World.Untouched (w w' : World) : Prop where
  frames (id : FrameId) : Arena.get? w'.scopes id = Arena.get? w.scopes id
  live : w'.scopes.live = w.scopes.live
  stack : w'.stack = w.stack
  depth : w'.depth = w.depth
  log : ∃ more, w'.log = w.log ++ more

namespace World.Untouched

variable {w w' w'' : World}

lemma refl (w : World) : w.Untouched w :=
  ⟨fun _ => rfl, rfl, rfl, rfl, {}, (Log.append_empty _).symm⟩

lemma trans (h : w.Untouched w') (h' : w'.Untouched w'') : w.Untouched w'' where
  frames id := (h'.frames id).trans (h.frames id)
  live := h'.live.trans h.live
  stack := h'.stack.trans h.stack
  depth := h'.depth.trans h.depth
  log := by
    obtain ⟨more, hmore⟩ := h.log
    obtain ⟨more', hmore'⟩ := h'.log
    exact ⟨more ++ more', by rw [hmore', hmore, Log.append_assoc]⟩

/-- A call that is begun and ended. -/
lemma closeCall {name : String} (h : (w.openCall name).Untouched w') :
    w.Untouched w'.closeCall where
  frames := h.frames
  live := h.live
  stack := congrArg List.tail h.stack
  depth := congrArg (· - 1) h.depth
  log := h.log

/-- A block that is begun, in whose frame something is bound, and that is ended. -/
lemma closeBlock {parent : FrameId} {c : Change} (hw : WellFormed w.scopes)
    (h : ((w.openInside parent).2.write (w.openInside parent).1 c).Untouched w') :
    w.Untouched (w'.closeBlock (w.openInside parent).1) where
  frames id := by
    show get? (release w'.scopes (w.openInside parent).1) id = _
    rw [get?_release]
    by_cases hid : id = (w.openInside parent).1
    · rw [if_pos hid, hid]
      exact (get?_push_id hw _).symm
    · rw [if_neg hid, h.frames]
      exact ((Scopes.get?_write c id).trans (if_neg hid)).trans
        ((Scopes.get?_enter hw _ id).trans (if_neg hid))
  live := by
    have hfresh : get? (w.openInside parent).2.scopes (w.openInside parent).1 =
        some { parent := some parent } :=
      (Scopes.get?_enter hw _ _).trans (if_pos rfl)
    have hid := (h.frames _).trans (Scopes.get?_write_self c hfresh)
    show (release w'.scopes (w.openInside parent).1).live = _
    rw [live_release hid, h.live]
    show (modify (w.scopes.enter (some parent)).2 _ _).live - 1 = _
    rw [live_modify]
    exact congrArg (· - 1) (live_push _)
  stack := congrArg List.tail h.stack
  depth := h.depth
  log := h.log

end World.Untouched

lemma World.Heard.untouched {w w' : World} (h : w.Heard w') : w.Untouched w' where
  frames id := by rw [h.scopes]
  live := by rw [h.scopes]
  stack := h.stack
  depth := h.depth
  log := h.log

/-! ## Computations without effect -/

namespace Eval

variable {α β : Type}

/-- A computation that touches nothing, neither where it gives something nor where it fails, and
that fails with errors of expressions only. -/
def Effectless (α : Type) (x : Eval α) : Prop :=
  ∀ w : World, Arena.WellFormed w.scopes →
    x.Holds w (fun _ w' => Arena.WellFormed w'.scopes ∧ w.Untouched w')
      fun e w' => e.OfExpression ∧ Arena.WellFormed w'.scopes ∧ w.Untouched w'

namespace Effectless

lemma bind {x : Eval α} {f : α → Eval β} (hx : Effectless α x) (hf : ∀ a, Effectless β (f a)) :
    Effectless β (x >>= f) := by
  intro w hw
  refine (hx w hw).bind fun a w' h => ?_
  exact (hf a w' h.1).mono (fun _ _ h' => ⟨h'.1, h.2.trans h'.2⟩) fun _ _ h' =>
    ⟨h'.1, h'.2.1, h.2.trans h'.2.2⟩

lemma lookUp (frame : FrameId) (find? : Scopes → FrameId → Option α) :
    Effectless (Option α) (Eval.lookUp frame find?) :=
  fun w hw => ⟨hw, (World.Heard.visit w frame .lookUp).untouched⟩

lemma reporting (x : Reporting α) : Effectless α (Eval.reporting x) :=
  fun _ hw => ⟨hw, World.Heard.untouched ⟨⟨rfl, rfl, rfl⟩, _, rfl⟩⟩

lemma orAt {x : Eval α} (hx : Effectless α x) (pos : Position) : Effectless α (x.orAt pos) :=
  fun w hw => .orAt (hx w hw)

lemma inCall {x : Eval α} (name : String) (hx : Effectless α x) :
    Effectless α (Eval.inCall name x) :=
  fun w hw => .inCall ((hx (w.openCall name) hw).mono (fun _ _ h => ⟨h.1, h.2.closeCall⟩)
    fun _ _ h => ⟨h.1, h.2.1, h.2.2.closeCall⟩)

/-- A computation in a frame of its own, in which something is bound first. -/
lemma inBlock (parent : FrameId) (c : Change) {x : FrameId → Eval α}
    (hx : ∀ id, Effectless α (x id)) :
    Effectless α (Eval.inBlock parent fun id => do
      Eval.write id c
      x id) := by
  intro w hw
  have hopen : WellFormed ((w.openInside parent).2.write (w.openInside parent).1 c).scopes :=
    (hw.push _).modify _
  refine .inBlock ?_
  exact (hx (w.openInside parent).1 _ hopen).mono
    (fun _ _ h => ⟨h.1.release, h.2.closeBlock hw⟩)
    fun _ _ h => ⟨h.1, h.2.1.release, h.2.2.closeBlock hw⟩

lemma closed : ClosedUnderCalls RuntimeError.OfExpression Effectless where
  pure _ w hw := ⟨hw, .refl w⟩
  throw _ he w hw := ⟨he, hw, .refl w⟩
  bind := bind
  warn _ _ _ hw := ⟨hw, World.Heard.untouched ⟨⟨rfl, rfl, rfl⟩, _, Log.emit_eq_append _ _ _⟩⟩
  lookUp := lookUp
  reporting := reporting
  orAt := orAt
  inCall := inCall
  inBlock := inBlock
  ofExpression := id

end Effectless

end Eval

namespace Evaluation

/-- Expressions are pure, also where they fail. In every state that a program comes to, from
whatever frame and however many further calls are allowed, an expression leaves the same live frames
with the same contents and the same calls in progress, and does no more than report. If it fails, a
variable or a function is unknown, arguments cannot be bound, or calls go too deep. -/
theorem expressions_pure {env : Environment} {program : Program} {m : Machine}
    (hm : m.Reachable env program) (left : Nat) (frame : FrameId) (e : Expr) :
    (e.eval (callFunction env left) frame).Holds m.world (fun _ w => m.world.Untouched w)
      fun error w => error.OfExpression ∧ m.world.Untouched w := by
  have hw : Arena.WellFormed m.world.scopes := (hm.fits (raises_any env)).sound.wellFormed
  have h :=
    (Eval.Effectless.closed.closedIn (Eval.Effectless.closed.callFunction env left) frame).expr e
      m.world hw
  exact h.mono (fun _ _ h => h.2) fun _ _ h => ⟨h.1, h.2.2⟩

/-- A call of a function in whose frame another one is called that nobody has defined. -/
theorem expressions_pure_failing :
    let env : Environment := ⟨.standard, ⟨{}, ⟨"", []⟩⟩⟩
    let program : Program := [.defineFunction .start ⟨"f", [], .call ⟨1, 16⟩ "g" []⟩]
    let m : Machine := ((Machine.start program).move env).next
    m.Reachable env program ∧
      ∃ w, (Expr.call ⟨2, 1⟩ "f" []).eval (callFunction env 1) ⟨0, 0⟩ m.world =
        .error ⟨.unknown .function "g", some ⟨1, 16⟩⟩ w ∧ m.world.Untouched w :=
  have hm := Machine.Reachable.start.next
  ⟨hm, _, rfl, (expressions_pure hm 1 ⟨0, 0⟩ (.call ⟨2, 1⟩ "f" [])).2⟩

end Evaluation

end SolidScript
