import SolidScript.Evaluation.Basic
import SolidScript.Proofs.Evaluation.Odometer

/-!
# Strict evaluation

The plain meaning of a program, without streams: each statement is run to completion before the next
one, what it yields and reports is appended to what came before, and the first error ends it all.
-/

namespace SolidScript

open Eval

/-- What can be seen of an evaluation from outside. -/
inductive Event where
  | report (entry : Entry)
  | yield (g : Geometry Float)

namespace Event

def isYield : Event → Bool
  | report _ => false
  | yield _ => true

def entry? : Event → Option Entry
  | report entry => some entry
  | yield _ => none

def geometry? : Event → Option (Geometry Float)
  | report _ => none
  | yield g => some g

end Event

/-- What a strict run comes to: what was seen of it, the error that ended it, and the state it left
behind. -/
structure Outcome where
  events : List Event
  failure : Option RuntimeError
  world : World

namespace Outcome

/-- Something was seen before. -/
def after (es : List Event) (o : Outcome) : Outcome := { o with events := es ++ o.events }

/-- The geometry that was yielded. -/
def items (o : Outcome) : List (Geometry Float) := o.events.filterMap Event.geometry?

/-- All that was reported. -/
def reports (o : Outcome) : List Entry := o.events.filterMap Event.entry?

/-- What was reported before item number `k` and after the one before; behind the last item, what
was reported from there to the end. -/
def reportsAt (o : Outcome) (k : Nat) : List Entry :=
  ((o.events.splitOnP Event.isYield).getD k []).filterMap Event.entry?

/-- What is found in place number `k`: an item, behind the last one the error or the end, and
nothing after that. -/
def found (o : Outcome) (k : Nat) : Stream.Pulled RuntimeError (Geometry Float) :=
  match o.items[k]? with
  | some g => .item g
  | none =>
    match o.failure with
    | some e => if k = o.items.length then .failed e else .finished
    | none => .finished

/-- What asking for the outcome item by item gives at time number `k`. -/
def answer (o : Outcome) (k : Nat) : Stream.Pulled RuntimeError (Geometry Float) × Log :=
  (o.found k, ⟨(o.reportsAt k).toArray⟩)

end Outcome

/-- What a log holds, as events. -/
def Log.events (log : Log) : List Event := log.entries.toList.map .report

namespace World

/-- What has been reported, as events. -/
def reports (w : World) : List Event := w.log.events

/-- The state without what has been reported. -/
def quiet (w : World) : World := w.withLog {}

end World

/-- A strict run. It begins in a state with an empty log and ends in one, since what is reported
goes to the events. -/
abbrev Strict : Type := World → Outcome

namespace Strict

def nothing : Strict := fun w => ⟨[], none, w⟩

def failing (e : RuntimeError) : Strict := fun w => ⟨[], some e, w⟩

def yielding (gs : List (Geometry Float)) : Strict := fun w => ⟨gs.map .yield, none, w⟩

/-- One run after another, unless the first one fails. -/
def andThen (x y : Strict) : Strict := fun w =>
  let o := x w
  match o.failure with
  | some _ => o
  | none => (y o.world).after o.events

/-- A computation, and then a run that depends on its result. -/
def first {α : Type} (x : Eval α) (f : α → Strict) : Strict := fun w =>
  match x w with
  | .ok a w => (f a w.quiet).after w.reports
  | .error e w => ⟨w.reports, some e, w.quiet⟩

/-- Change the state once a run is over, however it ends. -/
def atEnd (f : World → World) (x : Strict) : Strict := fun w =>
  let o := x w
  { o with world := f o.world }

/-- Keep what a run yields and go on with that. Nothing of it is seen but what was reported. -/
def gather (x : Strict) (f : List (Geometry Float) → Strict) : Strict := fun w =>
  let o := x w
  match o.failure with
  | some e => ⟨o.reports.map .report, some e, o.world⟩
  | none => (f o.items o.world).after (o.reports.map .report)

/-- A run for every index in order. -/
def each (body : Nat → Strict) : List Nat → Strict
  | [] => nothing
  | i :: is => (body i).andThen (each body is)

def inBlock (parent : FrameId) (body : FrameId → Strict) : Strict := fun w =>
  let (id, w) := w.openInside parent
  (body id).atEnd (·.closeBlock id) w

def inBody (parent : FrameId) (block : Program) (body : FrameId → Strict) : Strict :=
  if block.isEmpty then nothing else inBlock parent body

def inCall (name : String) (x : Strict) : Strict := fun w => x.atEnd (·.closeCall) (w.openCall name)

/-- Carry out a plan with the strict run of the children. -/
def plan (site : CallSite) (children : Strict) : Plan → Strict
  | .shape g => yielding [g]
  | .relay => children
  | .fold join change =>
    children.gather fun gs =>
      match Plan.joined site join change gs with
      | .error e => failing e
      | .ok none => nothing
      | .ok (some g) => yielding [g]

section

variable (env : Environment) (call : CallFunction)
  (enter : Context → ModuleClosure → CallSite → Arguments → Program → Strict)
  (ask : FrameId → CallSite → Arguments → Strict) (offers : List Offer)

mutual

/-- Run a statement to completion. -/
def statement (frame : FrameId) : Statement → Strict
  | .assign _ name value =>
    first (do write frame (.values [(name, ← value.eval call frame)])) fun _ => nothing
  | .evaluate _ value => first (value.eval call frame) fun _ => nothing
  | .defineModule _ m => first (write frame (.module m)) fun _ => nothing
  | .defineFunction _ f => first (write frame (.function f)) fun _ => nothing
  | .branch _ condition yes no =>
    first (condition.eval call frame) fun c =>
      if c.isTruthy then inBody frame yes (statements · yes) else inBody frame no (statements · no)
  | .loop _ bindings body =>
    first (Binding.evalAll call frame bindings) fun vars =>
      each
        (fun i => inBlock frame fun inner =>
          first (write inner (.values (vars.bindings i))) fun _ => statements inner body)
        (List.range vars.count)
  | .invoke pos name args body =>
    first (lookUp frame (·.module? · name)) fun
      | some closure =>
        first (Argument.evalAll call frame args) fun args =>
          enter ⟨frame, offers⟩ closure ⟨name, pos⟩ args body
      | none =>
        if name = "children" then first (Argument.evalAll call frame args) (ask frame ⟨name, pos⟩)
        else
          match env.registry.operators.lookup name with
          | none => failing ⟨.unknown .operator name, some pos⟩
          | some operator =>
            first (planOf env call frame ⟨name, pos⟩ args operator)
              (plan ⟨name, pos⟩ (inBody frame body (statements · body)))

/-- Run statements in block order. -/
def statements (frame : FrameId) : List Statement → Strict
  | [] => nothing
  | s :: rest =>
    andThen (fun w => statement frame s (w.visit frame (.run s))) (statements frame rest)

end

end

/-- The selected ones of some children. -/
def select (gs : List (Geometry Float)) (site : CallSite) (args : Arguments) : Strict :=
  first (reporting (selectChildren gs args site.pos)) yielding

/-- Nothing to select from. -/
def outside (site : CallSite) : Strict :=
  first (warn "children() outside of a module has nothing to yield" site.pos) fun _ => nothing

/-- The children of the module around. Its body is run to completion the first time. -/
def ask (env : Environment) (call : CallFunction)
    (enter : Context → ModuleClosure → CallSite → Arguments → Program → Strict) :
    List Offer → FrameId → CallSite → Arguments → Strict
  | [], frame, site, _ => first (lookUp frame Scopes.children?) fun _ => outside site
  | offer :: outer, frame, site, args =>
    first (lookUp frame Scopes.children?) fun
      | none => outside site
      | some (.ready gs) => select gs site args
      | some .forcing => failing offer.site.reused
      | some .pending =>
        first (write offer.frame (.children .forcing)) fun _ =>
          gather
            (inBody offer.caller offer.body
              (statements env call enter (ask env call enter outer) outer · offer.body))
            fun gs =>
              first (write offer.frame (.children (.ready gs))) fun _ => select gs site args

/-- Run the body of a module to completion. -/
def enter (env : Environment) :
    (left : Nat) → Context → ModuleClosure → CallSite → Arguments → Program → Strict
  | 0, _, closure, site, _, _ => failing (tooDeep env closure.definition.name site.pos)
  | left + 1, ctx, closure, site, args, body =>
    let m := closure.definition
    let call := callFunction env left
    inCall m.name <|
      first
        ((bindParameters m.name m.params args (Expr.eval call closure.frame)).orAt site.pos)
        fun bound =>
        inBlock closure.frame fun id =>
          first (do write id (.values bound); write id (.children .pending)) fun _ =>
            let offers := ⟨site, body, ctx.frame, id⟩ :: ctx.offers
            statements env call (enter env left) (ask env call (enter env left) offers)
              offers id m.body

/-- Run a program to completion. -/
def program (env : Environment) (p : Program) : Outcome :=
  let limit := env.host.settings.maxDepth
  let call := callFunction env limit
  let (root, w) := World.openBlock {} none
  atEnd (·.closeBlock root)
    (statements env call (enter env limit) (ask env call (enter env limit) []) [] root p) w

end Strict

end SolidScript
