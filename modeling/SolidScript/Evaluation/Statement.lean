import SolidScript.Evaluation.Expr
import SolidScript.Evaluation.Loop
import SolidScript.Evaluation.Selection
import SolidScript.Evaluation.Supply

/-!
# What a program builds

Statements are run in order, and each one yields geometry as it arises. Blocks have frames of their
own, which are gone when the block is over, whether it ended or failed.

A module is given a body with its invocation. The body is an offer: it is run at most once, when the
module first asks for its children, in the surroundings of the invocation. Offers of invocations
that are in progress form a list, nearest first. While an offer is taken up, those behind it are
what its own statements can ask for. `enterModule` recurses on the number of calls that are still
allowed, and everything else on the program or on the list of offers.
-/

namespace SolidScript

/-- The body of a module's invocation. -/
structure Offer where
  site : CallSite
  body : Program
  /-- The frame of the invocation, in which the body is run. -/
  caller : FrameId
  /-- The frame of the module, which keeps what the body yielded. -/
  frame : FrameId

/-- Where a statement is run: the frame, and the offers to the modules around it. -/
structure Context where
  frame : FrameId
  offers : List Offer

abbrev EnterModule : Type := Context → ModuleClosure → CallSite → Arguments → Program → Building

abbrev AskChildren : Type := FrameId → CallSite → Arguments → Building

/-- Build inside a fresh frame, which is gone afterwards however it ends. -/
def inBlock (parent : FrameId) (body : FrameId → Building) : Building := fun w =>
  let (id, w) := w.openInside parent
  (body id w).atEnd (·.closeBlock id)

/-- Build a block in a frame of its own; without statements there is nothing to do. -/
def inBody (parent : FrameId) (body : Program) (build : FrameId → Building) : Building :=
  if body.isEmpty then .empty else inBlock parent build

/-- Build inside a call, which is over afterwards however it ends. -/
def inCall (name : String) (x : Building) : Building :=
  fun w => (x (w.openCall name)).atEnd (·.closeCall)

def Plan.joined (site : CallSite) (join : Geometry Float → Geometry Float → Geometry Float)
    (change : Geometry Float → Except RuntimeError (Geometry Float)) (gs : List (Geometry Float)) :
    Except RuntimeError (Option (Geometry Float)) := do
  match ← Geometry.reduce site join gs with
  | none => pure none
  | some g => return some (← change g)

def Plan.build (children : Supply World (Geometry Float)) : Plan → Building
  | .shape g => .once g
  | .relay => children.stream
  | .fold join change =>
    Eval.build (Eval.collect children.stream) fun gs =>
      match Plan.joined children.site join change gs with
      | .error e => .fail e
      | .ok none => .empty
      | .ok (some g) => .once g

def Binding.evalAll (call : CallFunction) (frame : FrameId) : List Binding → Eval LoopRange
  | [] => pure []
  | b :: rest => do
    let domain ← b.domain.eval call frame
    return (b.name, .ofValue domain) :: (← Binding.evalAll call frame rest)

def planOf (env : Environment) (call : CallFunction) (frame : FrameId) (site : CallSite)
    (args : List Argument) (operator : Builtin.Operator) : Eval Plan := do
  let args ← Argument.evalAll call frame args
  Eval.checking (operator env.host site args)

section

variable (env : Environment) (call : CallFunction) (enter : EnterModule) (ask : AskChildren)
  (offers : List Offer)

mutual

def Statement.build (frame : FrameId) : Statement → Building
  | .assign _ name value =>
    Eval.build (do Eval.write frame (.values [(name, ← value.eval call frame)])) fun _ => .empty
  | .evaluate _ value => Eval.build (value.eval call frame) fun _ => .empty
  | .defineModule _ m => Eval.build (Eval.write frame (.module m)) fun _ => .empty
  | .defineFunction _ f => Eval.build (Eval.write frame (.function f)) fun _ => .empty
  | .branch _ condition yes no =>
    Eval.build (condition.eval call frame) fun c =>
      if c.isTruthy then inBody frame yes (Statement.buildAll · yes)
        else inBody frame no (Statement.buildAll · no)
  | .loop _ bindings body =>
    Eval.build (Binding.evalAll call frame bindings) fun vars =>
      Stream.combinations vars.sizes
        (fun cursor => inBlock frame fun inner =>
          Eval.build (Eval.write inner (.values (vars.valuesAt cursor))) fun _ =>
            Statement.buildAll inner body)
        (Cursor.first? vars.sizes)
  | .invoke pos name args body =>
    Eval.build (Eval.lookUp frame (·.module? · name)) fun
      | some closure =>
        Eval.build (Argument.evalAll call frame args) fun args =>
          enter ⟨frame, offers⟩ closure ⟨name, pos⟩ args body
      | none =>
        if name = "children"
          then Eval.build (Argument.evalAll call frame args) (ask frame ⟨name, pos⟩)
        else
          match env.registry.operators.lookup name with
          | none => .fail ⟨.unknown .operator name, some pos⟩
          | some operator =>
            Eval.build (planOf env call frame ⟨name, pos⟩ args operator)
              (Plan.build (.ofStream ⟨name, pos⟩ (inBody frame body (Statement.buildAll · body))))

def Statement.buildAll (frame : FrameId) : List Statement → Building
  | [], w => .done w
  | s :: rest, w =>
    match s.build frame (w.visit frame (.run s)) with
    | .done w => Statement.buildAll frame rest w
    | .fail e w => .fail e w
    | .yield g w next => .yield g w fun w => (next w).andThen (Statement.buildAll frame rest)

end

end

def yieldSelected (gs : List (Geometry Float)) (site : CallSite) (args : Arguments) : Building :=
  Eval.build (Eval.reporting (selectChildren gs args site.pos)) .ofItems

/-- There is no module around that could have children. -/
def nothingOffered (site : CallSite) : Building :=
  Eval.build (Eval.warn "children() outside of a module has nothing to yield" site.pos)
    fun _ => .empty

/-- Run the body of an invocation and keep what it yields. -/
def Offer.force (offer : Offer) (body : Building) : Eval (List (Geometry Float)) := do
  Eval.write offer.frame (.children .forcing)
  let gs ← Eval.collect body
  Eval.write offer.frame (.children (.ready gs))
  return gs

/-- Take up the nearest offer, or what it yielded before. The frames around tell whether there is
one and how far it has been taken up. -/
def askChildren (env : Environment) (call : CallFunction) (enter : EnterModule) :
    List Offer → AskChildren
  | [], frame, site, _ =>
    Eval.build (Eval.lookUp frame Scopes.children?) fun _ => nothingOffered site
  | offer :: outer, frame, site, args =>
    Eval.build (Eval.lookUp frame Scopes.children?) fun
      | none => nothingOffered site
      | some (.ready gs) => yieldSelected gs site args
      | some .forcing => .fail offer.site.reused
      | some .pending =>
        let body := inBody offer.caller offer.body
          (Statement.buildAll env call enter (askChildren env call enter outer) outer · offer.body)
        Eval.build (offer.force body) fun gs => yieldSelected gs site args

/-- Enter a module while `left` more calls may be in progress. -/
def enterModule (env : Environment) : (left : Nat) → EnterModule
  | 0, _, closure, site, _, _ => .fail (tooDeep env closure.definition.name site.pos)
  | left + 1, ctx, closure, site, args, body =>
    let m := closure.definition
    let call := callFunction env left
    let enter := enterModule env left
    inCall m.name <|
      Eval.build ((bindParameters m.name m.params args (Expr.eval call closure.frame)).orAt
        site.pos) fun bound =>
        inBlock closure.frame fun id =>
          Eval.build (do Eval.write id (.values bound); Eval.write id (.children .pending)) fun _ =>
            let offers := ⟨site, body, ctx.frame, id⟩ :: ctx.offers
            Statement.buildAll env call enter (askChildren env call enter offers) offers id m.body

end SolidScript
