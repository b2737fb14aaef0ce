import SolidScript.Evaluation.Basic
import SolidScript.Proofs.Evaluation.Odometer

/-!
# Evaluations one step at a time

The same evaluations, told as a machine that takes one small step after another. What is still to be
done is a list of tasks, next first. A step takes up the first task and puts what it leads to in
front of the others. No step recurses through the program: the body of a module, of an invocation or
of a function is put in front like any other task. How deep calls nest is limited by the counter in
the state and by nothing else, so it is not plain from here that the machine ever comes to an end.
-/

namespace SolidScript

/-! ## Tasks -/

/-- What an expression does with the values of its operands. -/
inductive Operation where
  | vector
  | index (pos : Position)
  | binary (pos : Position) (op : Arithmetic)
  | negate (pos : Position)
  | not
  | compare (pos : Position) (op : Comparison)
  /-- Whether the operand counts as true. -/
  | truth
  | range (pos : Position)
  | rangeBy (pos : Position)

/-- The result of an operation. Every operation is given as many operands as it takes. -/
def Operation.apply : Operation → List Value → Eval Value
  | vector, vs => pure (.vector vs)
  | index pos, [target, i] => indexValue target i pos
  | binary pos op, [a, b] =>
    orWarned (Value.binary? op a b)
      ("undefined operation " ++ a.typeName ++ " " ++ op.symbol ++ " " ++ b.typeName) pos
  | negate pos, [a] => orWarned (Value.negate? a) ("cannot negate " ++ a.typeName) pos
  | not, [a] => pure (.bool !a.isTruthy)
  | compare pos op, [a, b] =>
    orWarned (Value.compare? op a b) ("cannot order " ++ a.typeName ++ " against " ++ b.typeName)
      pos
  | truth, [a] => pure (.bool a.isTruthy)
  | range pos, [a, b] => rangeValue a (.number 1.0) b pos
  | rangeBy pos, [a, s, b] => rangeValue a s b pos
  | _, _ => pure .undefined

/-- A call of a function or of a module of the program. -/
inductive Call where
  | function (closure : FunctionClosure) (site : CallSite)
  /-- With the context of the invocation, and the body that it is given. -/
  | module (ctx : Context) (closure : ModuleClosure) (site : CallSite) (body : Program)

namespace Call

def name : Call → String
  | function _ site => site.name
  | module _ closure _ _ => closure.definition.name

def pos : Call → Position
  | function _ site => site.pos
  | module _ _ site _ => site.pos

/-- The frame of the definition. -/
def home : Call → FrameId
  | function closure _ => closure.frame
  | module _ closure _ _ => closure.frame

def params : Call → List Param
  | function closure _ => closure.definition.params
  | module _ closure _ _ => closure.definition.params

end Call

/-- Something that is still to be done. Tasks that need values find them among the operands. -/
inductive Task where
  /-- Evaluate an expression, whose value becomes an operand. -/
  | expr (frame : FrameId) (e : Expr)
  /-- Replace the last `n` operands by the result of an operation on them. -/
  | apply (op : Operation) (n : Nat)
  | and (frame : FrameId) (right : Expr)
  | or (frame : FrameId) (right : Expr)
  | choose (frame : FrameId) (yes no : Expr)
  /-- Call whatever a name denotes; the operands are the arguments, some of them with a keyword. -/
  | call (frame : FrameId) (site : CallSite) (keywords : List (Option String))
  /-- Give a parameter its value, which becomes an operand. -/
  | param (callee : String) (frame : FrameId) (p : Param) (given : Option Value)
  /-- Errors that come this far get a place. -/
  | located (pos : Position)
  /-- Run the body of a call that has begun; the operands are the values of its parameters. -/
  | start (call : Call) (names : List String) (specials : List (String × Value))
  /-- End a block, and the call whose body it is. -/
  | leave (id : FrameId) (call : Option Call)
  /-- Run the rest of a block. -/
  | block (ctx : Context) (rest : Program)
  | bind (frame : FrameId) (name : String)
  | drop
  | branch (ctx : Context) (yes no : Program)
  | loop (ctx : Context) (names : List String) (body : Program)
  /-- Run `n` rounds of a loop from round number `i` on. -/
  | rounds (ctx : Context) (vars : LoopRange) (body : Program) (n i : Nat)
  /-- Begin a call; the operands are its arguments. -/
  | enter (call : Call) (keywords : List (Option String))
  /-- Apply a built-in operator. -/
  | operate (ctx : Context) (site : CallSite) (keywords : List (Option String)) (body : Program)
      (operator : Builtin.Operator)
  /-- Ask for the children of the module around. -/
  | ask (ctx : Context) (site : CallSite) (keywords : List (Option String))
  | emit (gs : List (Geometry Float))
  /-- Join what has been collected and change the result. -/
  | fold (site : CallSite) (join : Geometry Float → Geometry Float → Geometry Float)
      (change : Geometry Float → Except RuntimeError (Geometry Float))
  /-- Keep what has been collected as the children of a module, and select from it. -/
  | keep (offer : Offer) (site : CallSite) (args : Arguments)

/-! ## Machines -/

structure Machine where
  world : World
  /-- What is still to be done, next first. -/
  tasks : List Task
  /-- Values that tasks further on will need, last one first. -/
  values : List Value := []
  /-- What has been collected for the operators and modules in progress that gather their children,
  innermost first. -/
  collected : List (List (Geometry Float)) := []
  /-- The error for which everything is given up. -/
  error : Option RuntimeError := none

/-- Arguments with their keywords. -/
def Arguments.ofValues : List (Option String) → List Value → Arguments
  | keyword :: keywords, v :: vs => (ofValues keywords vs).cons keyword v
  | _, _ => {}

/-- The state when a block is over, and with it the call whose body it is. -/
def World.leave (w : World) (id : FrameId) : Option Call → World
  | none => w.closeBlock id
  | some _ => (w.closeBlock id).closeCall

namespace Machine

def withLog (m : Machine) (log : Log) : Machine := { m with world := m.world.withLog log }

/-- Do some tasks first. -/
def todo (m : Machine) (tasks : List Task) : Machine := { m with tasks := tasks ++ m.tasks }

def push (m : Machine) (v : Value) : Machine := { m with values := v :: m.values }

/-- Give everything up. -/
def raise (m : Machine) (e : RuntimeError) : Machine :=
  { m with error := some e, values := [], collected := [] }

def write (m : Machine) (frame : FrameId) (c : Change) : Machine :=
  { m with world := m.world.write frame c }

/-- Collect what is emitted from now on. -/
def gather (m : Machine) : Machine := { m with collected := [] :: m.collected }

/-- Go on with the last `n` operands, in the order in which they were evaluated. -/
def withOperands (m : Machine) (n : Nat) (f : List Value → Machine → Machine) : Machine :=
  f (m.values.take n).reverse { m with values := m.values.drop n }

/-- Go on with the last operand. -/
def withOperand (m : Machine) (f : Value → Machine → Machine) : Machine :=
  m.withOperands 1 fun vs m => f (vs.headD .undefined) m

def withArguments (m : Machine) (keywords : List (Option String))
    (f : Arguments → Machine → Machine) : Machine :=
  m.withOperands keywords.length fun vs m => f (.ofValues keywords vs) m

/-- Go on with what has been collected. -/
def withCollected (m : Machine) (f : List (Geometry Float) → Machine → Machine) : Machine :=
  f (m.collected.headD []) { m with collected := m.collected.tail }

/-- Go on with the result of something that takes no steps of its own. -/
def compute {α : Type} (m : Machine) (x : Eval α) (f : α → Machine → Machine) : Machine :=
  match x m.world with
  | .ok a w => f a { m with world := w }
  | .error e w => { m with world := w }.raise e

/-- Begin a block in a fresh frame, which is left again after whatever is put in front. -/
def inside (m : Machine) (parent : FrameId) (call : Option Call) (f : FrameId → Machine → Machine) :
    Machine :=
  let (id, world) := m.world.openInside parent
  f id { m with world, tasks := .leave id call :: m.tasks }

/-- Run a block in a frame of its own; without statements there is nothing to do. -/
def body (m : Machine) (parent : FrameId) (block : Program) (offers : List Offer) : Machine :=
  if block.isEmpty then m else m.inside parent none fun id m => m.todo [.block ⟨id, offers⟩ block]

/-- Evaluate operands, and go on with a task that needs them. -/
def evaluate (m : Machine) (frame : FrameId) (operands : List Expr) (next : Task) : Machine :=
  m.todo (operands.map (.expr frame) ++ [next])

/-- Give the parameters of a call that has begun their values, and run its body then. -/
def supply (m : Machine) (call : Call) (args : Arguments) : Machine :=
  match Parameters.prepare call.name call.params args with
  | .error e => (m.todo [.located call.pos, .start call [] []]).raise e
  | .ok (filled, specials) =>
    m.todo (filled.map (fun (p, given) => .param call.name call.home p given) ++
      [.located call.pos, .start call (filled.map (·.1.name)) specials])

/-- Begin a call, unless it would be one too many. -/
def enter (env : Environment) (m : Machine) (call : Call) (args : Arguments) : Machine :=
  if env.host.settings.maxDepth ≤ m.world.depth then m.raise (tooDeep env call.name call.pos)
  else { m with world := m.world.openCall call.name }.supply call args

/-- Emit the children that the arguments ask for. -/
def select (m : Machine) (gs : List (Geometry Float)) (site : CallSite) (args : Arguments) :
    Machine :=
  m.compute (Eval.reporting (selectChildren gs args site.pos)) fun gs m => m.todo [.emit gs]

/-- There is no module around that could have children. -/
def nothingOffered (m : Machine) (site : CallSite) : Machine :=
  m.compute (Eval.warn "children() outside of a module has nothing to yield" site.pos) fun _ m => m

/-- Take up the nearest offer, or what it yielded before. -/
def ask (m : Machine) (ctx : Context) (site : CallSite) (args : Arguments) : Machine :=
  m.compute (Eval.lookUp ctx.frame Scopes.children?) fun found m =>
    match ctx.offers, found with
    | [], _ => m.nothingOffered site
    | _ :: _, none => m.nothingOffered site
    | _ :: _, some (.ready gs) => m.select gs site args
    | offer :: _, some .forcing => m.raise offer.site.reused
    | offer :: outer, some .pending =>
      ((m.write offer.frame (.children .forcing)).gather.todo [.keep offer site args]).body
        offer.caller offer.body outer

/-- What becomes of children that have been joined. -/
def settle (m : Machine) : Except RuntimeError (Option (Geometry Float)) → Machine
  | .error e => m.raise e
  | .ok none => m
  | .ok (some g) => m.todo [.emit [g]]

/-- Carry out a plan. -/
def carryOut (m : Machine) (ctx : Context) (site : CallSite) (block : Program) : Plan → Machine
  | .shape g => m.todo [.emit [g]]
  | .relay => m.body ctx.frame block ctx.offers
  | .fold join change => (m.gather.todo [.fold site join change]).body ctx.frame block ctx.offers

/-- Invoke a module of the program that was found, or else what is built in. -/
def invoke (env : Environment) (m : Machine) (ctx : Context) (site : CallSite)
    (args : List Argument) (body : Program) (found : Option ModuleClosure) : Machine :=
  let operands := args.map (·.value)
  let keywords := args.map (·.name)
  match found with
  | some closure => m.evaluate ctx.frame operands (.enter (.module ctx closure site body) keywords)
  | none =>
    if site.name = "children" then m.evaluate ctx.frame operands (.ask ctx site keywords)
    else
      match env.registry.operators.lookup site.name with
      | none => m.raise ⟨.unknown .operator site.name, some site.pos⟩
      | some operator => m.evaluate ctx.frame operands (.operate ctx site keywords body operator)

end Machine

/-! ## Steps -/

/-- Take up an expression. -/
def Expr.begin (frame : FrameId) (m : Machine) : Expr → Machine
  | .number _ x => m.push (.number x)
  | .string _ s => m.push (.string s)
  | .bool _ b => m.push (.bool b)
  | .undefined _ => m.push .undefined
  | .var pos name => m.compute (readVariable frame name pos) fun v m => m.push v
  | .vector _ items => m.evaluate frame items (.apply .vector items.length)
  | .index pos target i => m.evaluate frame [target, i] (.apply (.index pos) 2)
  | .binary pos op left right => m.evaluate frame [left, right] (.apply (.binary pos op) 2)
  | .negate pos operand => m.evaluate frame [operand] (.apply (.negate pos) 1)
  | .not _ operand => m.evaluate frame [operand] (.apply .not 1)
  | .compare pos op left right => m.evaluate frame [left, right] (.apply (.compare pos op) 2)
  | .and _ left right => m.evaluate frame [left] (.and frame right)
  | .or _ left right => m.evaluate frame [left] (.or frame right)
  | .cond _ condition yes no => m.evaluate frame [condition] (.choose frame yes no)
  | .range pos start stop => m.evaluate frame [start, stop] (.apply (.range pos) 2)
  | .rangeBy pos start step stop => m.evaluate frame [start, step, stop] (.apply (.rangeBy pos) 3)
  | .call pos name args =>
    m.evaluate frame (args.map (·.value)) (.call frame ⟨name, pos⟩ (args.map (·.name)))

/-- Take up a statement. -/
def Statement.begin (env : Environment) (ctx : Context) (m : Machine) : Statement → Machine
  | .assign _ name value => m.evaluate ctx.frame [value] (.bind ctx.frame name)
  | .evaluate _ value => m.evaluate ctx.frame [value] .drop
  | .defineModule _ definition => m.write ctx.frame (.module definition)
  | .defineFunction _ definition => m.write ctx.frame (.function definition)
  | .branch _ condition yes no => m.evaluate ctx.frame [condition] (.branch ctx yes no)
  | .loop _ bindings body =>
    m.evaluate ctx.frame (bindings.map (·.domain)) (.loop ctx (bindings.map (·.name)) body)
  | .invoke pos name args body =>
    m.compute (Eval.lookUp ctx.frame (·.module? · name)) fun found m =>
      m.invoke env ctx ⟨name, pos⟩ args body found

/-- Call a function that was found. -/
def Callee.begin (env : Environment) (site : CallSite) (args : Arguments) (m : Machine) :
    Option Callee → Machine
  | some (.own closure) => m.enter env (.function closure site) args
  | some (.builtin f) => m.compute (Eval.reporting (f site args)) fun v m => m.push v
  | none => m.raise ⟨.unknown .function site.name, some site.pos⟩

/-- Run the body of a call in a fresh frame. -/
def Call.begin (m : Machine) (id : FrameId) : Call → Machine
  | .function closure _ => m.todo [.expr id closure.definition.body]
  | .module ctx closure site body =>
    (m.write id (.children .pending)).todo
      [.block ⟨id, ⟨site, body, ctx.frame, id⟩ :: ctx.offers⟩ closure.definition.body]

namespace Task

/-- Do a task that has been taken off. -/
def perform (env : Environment) (m : Machine) : Task → Machine
  | .expr frame e => e.begin frame m
  | .apply op n => m.withOperands n fun vs m => m.compute (op.apply vs) fun v m => m.push v
  | .and frame right =>
    m.withOperand fun a m =>
      if a.isTruthy then m.evaluate frame [right] (.apply .truth 1) else m.push (.bool false)
  | .or frame right =>
    m.withOperand fun a m =>
      if a.isTruthy then m.push (.bool true) else m.evaluate frame [right] (.apply .truth 1)
  | .choose frame yes no =>
    m.withOperand fun c m => m.todo [.expr frame (if c.isTruthy then yes else no)]
  | .call frame site keywords =>
    m.withArguments keywords fun args m =>
      m.compute (Eval.lookUp frame (env.callee? · · site.name)) fun callee m =>
        Callee.begin env site args m callee
  | .param callee frame p given =>
    match given, p.default with
    | some v, _ => m.push v
    | none, some e => m.todo [.expr frame e]
    | none, none =>
      m.raise (Parameters.failure callee ("missing required argument `" ++ p.name ++ "`"))
  | .located _ => m
  | .start c names specials =>
    m.withOperands names.length fun vs m =>
      m.inside c.home (some c) fun id m =>
        c.begin (m.write id (.values (names.zip vs ++ specials))) id
  | .leave id c => { m with world := m.world.leave id c }
  | .block _ [] => m
  | .block ctx (s :: rest) =>
    s.begin env ctx
      { m with world := m.world.visit ctx.frame (.run s), tasks := .block ctx rest :: m.tasks }
  | .bind frame name => m.withOperand fun v m => m.write frame (.values [(name, v)])
  | .drop => m.withOperand fun _ m => m
  | .branch ctx yes no =>
    m.withOperand fun c m =>
      if c.isTruthy then m.body ctx.frame yes ctx.offers else m.body ctx.frame no ctx.offers
  | .loop ctx names body =>
    m.withOperands names.length fun vs m =>
      let vars : LoopRange := names.zip (vs.map Domain.ofValue)
      m.todo [.rounds ctx vars body vars.count 0]
  | .rounds _ _ _ 0 _ => m
  | .rounds ctx vars body (n + 1) i =>
    (m.todo [.rounds ctx vars body n (i + 1)]).inside ctx.frame none fun id m =>
      (m.write id (.values (vars.bindings i))).todo [.block ⟨id, ctx.offers⟩ body]
  | .enter c keywords => m.withArguments keywords fun args m => m.enter env c args
  | .operate ctx site keywords body operator =>
    m.withArguments keywords fun args m =>
      m.compute (Eval.checking (operator env.host site args)) fun plan m =>
        m.carryOut ctx site body plan
  | .ask ctx site keywords => m.withArguments keywords fun args m => m.ask ctx site args
  | .emit [] => m
  | .emit (g :: gs) => { m with collected := m.collected.modifyHead (· ++ [g]) }.todo [.emit gs]
  | .fold site join change => m.withCollected fun gs m => m.settle (Plan.joined site join change gs)
  | .keep offer site args =>
    m.withCollected fun gs m => (m.write offer.frame (.children (.ready gs))).select gs site args

/-- Give up a task that has been taken off. What was begun is ended, and the error may get a
place. -/
def abandon (e : RuntimeError) (m : Machine) : Task → Machine
  | .located pos => { m with error := some (e.orAt pos) }
  | .start _ _ _ => { m with world := m.world.closeCall }
  | .leave id c => { m with world := m.world.leave id c }
  | _ => m

end Task

/-- What a step leads to. -/
inductive Move where
  | step (m : Machine)
  | item (g : Geometry Float) (m : Machine)
  | failed (e : RuntimeError) (m : Machine)
  | finished (m : Machine)

namespace Machine

/-- One step. Geometry that nobody collects is handed out. -/
def move (env : Environment) (m : Machine) : Move :=
  match m.error, m.tasks with
  | some e, [] => .failed e { m with error := none }
  | some e, t :: rest => .step (t.abandon e { m with tasks := rest })
  | none, [] => .finished m
  | none, t :: rest =>
    match t, m.collected with
    | .emit (g :: gs), [] => .item g { m with tasks := .emit gs :: rest }
    | t, _ => .step (t.perform env { m with tasks := rest })

/-- A machine that is to run a program. -/
def start (program : Program) : Machine :=
  let (root, world) := World.openBlock {} none
  { world, tasks := [.block ⟨root, []⟩ program, .leave root none] }

/-- Go on to the next item in at most `n` steps. What was reported on the way is handed over. -/
def pull (env : Environment) :
    (n : Nat) → Machine → Option (Stream.Pulled RuntimeError (Geometry Float) × Log × Machine)
  | 0, _ => none
  | n + 1, m =>
    match m.move env with
    | .step m => m.pull env n
    | .item g m => some (.item g, m.world.log, m.withLog {})
    | .failed e m => some (.failed e, m.world.log, m.withLog {})
    | .finished m => some (.finished, m.world.log, m.withLog {})

end Machine

end SolidScript
