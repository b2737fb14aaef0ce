import SolidScript.Proofs.Evaluation.Odometer

/-!
# Properties of computations

What holds of the steps of a computation and passes on to the whole holds of every expression. Each
proof about expressions, arguments and parameters comes down to variables and calls this way.
-/

namespace SolidScript

open Eval

namespace Parameters

lemma keywords_error {callee : String} {filled : List Filled} {named : List (String × Value)}
    {e : RuntimeError} (h : keywords callee filled named = .error e) :
    ∃ detail, e = failure callee detail := by
  induction named generalizing filled e with
  | nil =>
    cases h
  | cons first rest ih =>
    rw [keywords] at h
    split at h
    · exact ⟨_, (Except.error.inj h).symm⟩
    · exact ih h
    · split at h
      · cases hrest : keywords callee filled rest with
        | error e' =>
          rw [hrest] at h
          exact Except.error.inj h ▸ ih hrest
        | ok prepared =>
          rw [hrest] at h
          cases h
      · exact ⟨_, (Except.error.inj h).symm⟩

lemma prepare_error {callee : String} {params : List Param} {args : Arguments} {e : RuntimeError}
    (h : prepare callee params args = .error e) : ∃ detail, e = failure callee detail := by
  unfold prepare at h
  split at h
  · exact ⟨_, (Except.error.inj h).symm⟩
  · exact keywords_error h

end Parameters

namespace Eval

/-- A property of computations that holds of the plainest ones and passes on to those made of them,
as long as they fail with errors of some kind only. -/
structure ClosedUnder (E : RuntimeError → Prop) (P : ∀ α : Type, Eval α → Prop) : Prop where
  pure {α : Type} (a : α) : P α (Pure.pure a)
  throw {α : Type} (e : RuntimeError) (he : E e := by trivial) : P α (MonadExcept.throw e)
  bind {α β : Type} {x : Eval α} {f : α → Eval β} (hx : P α x) (hf : ∀ a, P β (f a)) : P β (x >>= f)
  warn (detail : String) (pos : Position) : P Unit (warn detail pos)

namespace ClosedUnder

variable {E : RuntimeError → Prop} {P : ∀ α : Type, Eval α → Prop} (h : ClosedUnder E P)

include h

lemma map {α β : Type} {x : Eval α} (f : α → β) (hx : P α x) : P β (do return f (← x)) :=
  h.bind hx fun a => h.pure (f a)

lemma orWarned (result : Option Value) (detail : String) (pos : Position) :
    P Value (orWarned result detail pos) := by
  cases result with
  | some v => exact h.pure v
  | none => exact h.bind (h.warn detail pos) fun _ => h.pure _

lemma indexValue (target index : Value) (pos : Position) :
    P Value (indexValue target index pos) := by
  unfold SolidScript.indexValue
  split
  · exact h.pure _
  · split
    · exact h.bind (h.warn _ pos) fun _ => h.pure _
    · exact h.pure _

lemma read {frame : FrameId} {name : String} {pos : Position}
    (hvalue : P (Option Value) (lookUp frame (·.value? · name)))
    (hundefined : E ⟨.undefinedVariable name, some pos⟩) :
    P Value (readVariable frame name pos) := by
  refine h.bind hvalue fun found => ?_
  cases found with
  | some v => exact h.pure v
  | none =>
    dsimp only
    split
    · exact h.pure _
    · exact h.throw _ hundefined

lemma completed {default : Expr → Eval Value} (callee : String)
    (hdefault : ∀ e, P Value (default e))
    (hfailure : ∀ detail, E (Parameters.failure callee detail)) (filled : List Parameters.Filled) :
    P _ (Parameters.complete callee default filled) := by
  induction filled with
  | nil => exact h.pure []
  | cons f rest ih =>
    refine h.bind ?_ fun _ => h.map _ ih
    unfold Parameters.valueOf
    split
    · exact h.pure _
    · exact hdefault _
    · exact h.throw _ (hfailure _)

end ClosedUnder

/-- Such a property that does not ask for errors of any kind. -/
abbrev Closed (P : ∀ α : Type, Eval α → Prop) : Prop := ClosedUnder (fun _ => True) P

/-- Such a property that also holds of what expressions do in a frame: they read variables and call
functions. A variable may be undefined, and arguments may be such that they cannot be bound. -/
structure ClosedUnderIn (E : RuntimeError → Prop) (P : ∀ α : Type, Eval α → Prop)
    (call : CallFunction) (frame : FrameId) : Prop extends ClosedUnder E P where
  value (name : String) : P (Option Value) (lookUp frame (·.value? · name))
  call (site : CallSite) (args : Arguments) : P Value (call frame site args)
  undefined (name : String) (pos : Position) : E ⟨.undefinedVariable name, some pos⟩ := by
    intros; trivial
  unbound (callee detail : String) : E (Parameters.failure callee detail) := by intros; trivial

abbrev ClosedIn (P : ∀ α : Type, Eval α → Prop) (call : CallFunction) (frame : FrameId) : Prop :=
  ClosedUnderIn (fun _ => True) P call frame

namespace ClosedUnderIn

variable {E : RuntimeError → Prop} {P : ∀ α : Type, Eval α → Prop} {call : CallFunction}
  {frame : FrameId}
  (h : ClosedUnderIn E P call frame)

include h

mutual

/-- The property holds of every expression. -/
theorem expr : ∀ e : Expr, P Value (e.eval call frame)
  | .number _ _ | .string _ _ | .bool _ _ | .undefined _ => h.pure _
  | .var pos name => h.toClosedUnder.read (h.value name) (h.undefined name pos)
  | .vector _ items => h.toClosedUnder.map _ (exprs items)
  | .index pos target index =>
    h.bind (expr target) fun _ => h.bind (expr index) fun _ => h.toClosedUnder.indexValue _ _ pos
  | .binary pos _ left right =>
    h.bind (expr left) fun _ => h.bind (expr right) fun _ => h.toClosedUnder.orWarned _ _ pos
  | .negate pos operand => h.bind (expr operand) fun _ => h.toClosedUnder.orWarned _ _ pos
  | .not _ operand => h.toClosedUnder.map _ (expr operand)
  | .compare pos _ left right =>
    h.bind (expr left) fun _ => h.bind (expr right) fun _ => h.toClosedUnder.orWarned _ _ pos
  | .and _ left right =>
    h.bind (expr left) fun _ => by
      split
      · exact h.toClosedUnder.map _ (expr right)
      · exact h.pure _
  | .or _ left right =>
    h.bind (expr left) fun _ => by
      split
      · exact h.pure _
      · exact h.toClosedUnder.map _ (expr right)
  | .cond _ condition yes no =>
    h.bind (expr condition) fun _ => by
      split
      · exact expr yes
      · exact expr no
  | .range pos start stop =>
    h.bind (expr start) fun _ => h.bind (expr stop) fun _ => h.toClosedUnder.orWarned _ _ pos
  | .rangeBy pos start step stop =>
    h.bind (expr start) fun _ => h.bind (expr step) fun _ => h.bind (expr stop) fun _ =>
      h.toClosedUnder.orWarned _ _ pos
  | .call pos name args => h.bind (arguments args) fun _ => h.call ⟨name, pos⟩ _

theorem exprs : ∀ es : List Expr, P (List Value) (Expr.evalAll call frame es)
  | [] => h.pure []
  | e :: es => h.bind (expr e) fun _ => h.toClosedUnder.map _ (exprs es)

/-- The same of every list of arguments. -/
theorem arguments : ∀ args : List Argument, P Arguments (Argument.evalAll call frame args)
  | [] => h.pure _
  | ⟨_, e⟩ :: rest => h.bind (expr e) fun _ => h.toClosedUnder.map _ (arguments rest)

end

/-- The same of what loops run over. -/
lemma bindings (bs : List Binding) : P LoopRange (Binding.evalAll call frame bs) := by
  induction bs with
  | nil => exact h.pure []
  | cons b rest ih => exact h.bind (h.expr b.domain) fun _ => h.toClosedUnder.map _ ih

/-- The same of binding arguments to parameters, where defaults are evaluated. -/
lemma parameters (callee : String) (params : List Param) (args : Arguments) :
    P _ (bindParameters callee params args (Expr.eval call frame)) := by
  unfold bindParameters
  split
  · rename_i e he
    obtain ⟨detail, rfl⟩ := Parameters.prepare_error he
    exact h.throw _ (h.unbound callee detail)
  · exact h.toClosedUnder.map _ (h.toClosedUnder.completed callee h.expr (h.unbound callee) _)

end ClosedUnderIn

end Eval

/-- An error of an expression: a variable or a function is unknown, arguments cannot be bound, or
calls go too deep. -/
def RuntimeError.OfExpression (e : RuntimeError) : Prop :=
  match e.cause with
  | .undefinedVariable _ | .unknown .function _ | .argumentBinding _ _ | .recursionLimit _ _ => True
  | _ => False

namespace Eval

/-- A property of computations in every frame: it holds of lookups and reports, and passes on to
what is run inside a call and inside a frame of its own, in which something is bound first. -/
structure ClosedUnderCalls (E : RuntimeError → Prop) (P : ∀ α : Type, Eval α → Prop) :
    Prop extends ClosedUnder E P where
  lookUp {α : Type} (frame : FrameId) (find? : Scopes → FrameId → Option α) :
    P _ (lookUp frame find?)
  reporting {α : Type} (x : Reporting α) : P α (reporting x)
  orAt {α : Type} {x : Eval α} (hx : P α x) (pos : Position) : P α (x.orAt pos)
  inCall {α : Type} {x : Eval α} (name : String) (hx : P α x) : P α (inCall name x)
  inBlock {α : Type} (parent : FrameId) (c : Change) {x : FrameId → Eval α}
    (hx : ∀ id, P α (x id)) :
    P α (inBlock parent fun id => do
      write id c
      x id)
  ofExpression {e : RuntimeError} (he : e.OfExpression) : E e

namespace ClosedUnderCalls

variable {E : RuntimeError → Prop} {P : ∀ α : Type, Eval α → Prop} (h : ClosedUnderCalls E P)
  {call : CallFunction}

include h

/-- Expressions have the property in every frame, if calls of functions have it. -/
lemma closedIn (hcall : ∀ frame site args, P Value (call frame site args)) (frame : FrameId) :
    ClosedUnderIn E P call frame where
  toClosedUnder := h.toClosedUnder
  value _ := h.lookUp frame _
  call := hcall frame
  undefined _ _ := h.ofExpression trivial
  unbound _ _ := h.ofExpression trivial

lemma callNamed (env : Environment) {own : FunctionClosure → CallSite → Arguments → Eval Value}
    (hown : ∀ closure site args, P Value (own closure site args)) (frame : FrameId)
    (site : CallSite) (args : Arguments) : P Value (callNamed env own frame site args) := by
  refine h.bind (h.lookUp frame _) fun callee => ?_
  split
  · exact hown _ site args
  · exact h.reporting _
  · exact h.throw _ (h.ofExpression trivial)

lemma callClosure (hcall : ∀ frame site args, P Value (call frame site args))
    (closure : FunctionClosure) (site : CallSite) (args : Arguments) :
    P Value (callClosure call closure site args) := by
  refine h.inCall site.name (h.bind (h.orAt ?_ site.pos) fun bound => h.inBlock _ _ fun frame => ?_)
  · exact (h.closedIn hcall closure.frame).parameters _ _ _
  · exact (h.closedIn hcall frame).expr _

/-- Calls of functions have the property, however deep they go. -/
theorem callFunction (env : Environment) (left : Nat) :
    ∀ frame site args, P Value (callFunction env left frame site args) := by
  induction left with
  | zero => exact h.callNamed env fun _ _ _ => h.throw _ (h.ofExpression trivial)
  | succ left ih => exact h.callNamed env (h.callClosure ih)

end ClosedUnderCalls

lemma build_bind {α β : Type} (x : Eval α) (f : α → Eval β) (g : β → Building) :
    build (x >>= f) g = build x fun a => build (f a) g := by
  funext w
  show build (EStateM.bind x f) g w = _
  unfold build EStateM.bind
  cases x w <;> rfl

end Eval

/-- Taking up an offer is a write, a body that is collected, and another write. -/
lemma Offer.build_force (offer : Offer) (body : Building) (f : List (Geometry Float) → Building) :
    build (offer.force body) f =
      build (write offer.frame (.children .forcing)) fun _ =>
        build (collect body) fun gs =>
          build (write offer.frame (.children (.ready gs))) fun _ => f gs := by
  unfold Offer.force
  simp only [build_bind]
  rfl

/-- Blocks one step at a time. -/
lemma Statement.buildAll_cons (env : Environment) (call : CallFunction) (enter : EnterModule)
    (ask : AskChildren) (offers : List Offer) (frame : FrameId) (s : Statement)
    (rest : List Statement) :
    Statement.buildAll env call enter ask offers frame (s :: rest) = fun w =>
      (s.build env call enter ask offers frame (w.visit frame (.run s))).andThen
        (Statement.buildAll env call enter ask offers frame rest) := by
  funext w
  rw [Statement.buildAll]
  cases s.build env call enter ask offers frame (w.visit frame (.run s)) <;> rfl

end SolidScript
