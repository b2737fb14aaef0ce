import SolidScript.Proofs.Machine.Acts

/-!
# The same run elsewhere

A machine does the same wherever its frames lie and whatever tasks are waiting behind its own. An
image of a machine has other frames in place of its own, and further tasks; each step of the machine
is a step of the image. What an image has to fulfil is said once, of states.
-/

namespace SolidScript

open EStateM.Result List

open Machine (StepsTo running failing)

/-! ## Other frames -/

section

variable (φ : FrameId → FrameId)

def ModuleClosure.rename (c : ModuleClosure) : ModuleClosure := { c with frame := φ c.frame }

def FunctionClosure.rename (c : FunctionClosure) : FunctionClosure := { c with frame := φ c.frame }

def Offer.rename (offer : Offer) : Offer :=
  { offer with caller := φ offer.caller, frame := φ offer.frame }

def Context.rename (ctx : Context) : Context := ⟨φ ctx.frame, ctx.offers.map (Offer.rename φ)⟩

def Call.rename : Call → Call
  | function closure site => function (closure.rename φ) site
  | module ctx closure site body => module (ctx.rename φ) (closure.rename φ) site body

def Callee.rename : Callee → Callee
  | own closure => own (closure.rename φ)
  | builtin f => builtin f

/-- A task with other frames. -/
def Task.rename : Task → Task
  | .expr frame e => .expr (φ frame) e
  | .apply op n => .apply op n
  | .and frame right => .and (φ frame) right
  | .or frame right => .or (φ frame) right
  | .choose frame yes no => .choose (φ frame) yes no
  | .call frame site keywords => .call (φ frame) site keywords
  | .param callee frame p given => .param callee (φ frame) p given
  | .located pos => .located pos
  | .start c names specials => .start (c.rename φ) names specials
  | .leave id c => .leave (φ id) (c.map (Call.rename φ))
  | .block ctx rest => .block (ctx.rename φ) rest
  | .bind frame name => .bind (φ frame) name
  | .drop => .drop
  | .branch ctx yes no => .branch (ctx.rename φ) yes no
  | .loop ctx names body => .loop (ctx.rename φ) names body
  | .rounds ctx vars body n i => .rounds (ctx.rename φ) vars body n i
  | .enter c keywords => .enter (c.rename φ) keywords
  | .operate ctx site keywords body operator => .operate (ctx.rename φ) site keywords body operator
  | .ask ctx site keywords => .ask (ctx.rename φ) site keywords
  | .emit gs => .emit gs
  | .fold site join change => .fold site join change
  | .keep offer site args => .keep (offer.rename φ) site args

end

lemma Offer.rename_id : Offer.rename id = id := rfl

@[simp] lemma Context.rename_id (ctx : Context) : ctx.rename id = ctx := by
  rw [Context.rename, Offer.rename_id, map_id]
  rfl

@[simp] lemma Call.rename_id (c : Call) : c.rename id = c := by
  cases c with
  | function closure site => rfl
  | module ctx closure site body =>
    rw [Call.rename, ctx.rename_id]
    rfl

lemma Task.rename_id (t : Task) : t.rename id = t := by
  cases t with
  | keep => rfl
  | leave id c => cases c <;> simp [Task.rename]
  | _ => simp [Task.rename]

namespace Call

variable (φ : FrameId → FrameId) (c : Call)

lemma name_rename : (c.rename φ).name = c.name := by cases c <;> rfl

lemma pos_rename : (c.rename φ).pos = c.pos := by cases c <;> rfl

lemma home_rename : (c.rename φ).home = φ c.home := by cases c <;> rfl

lemma params_rename : (c.rename φ).params = c.params := by cases c <;> rfl

end Call

/-- The frame from which a task looks something up. -/
def Task.reads? : Task → Option FrameId
  | .expr frame _ | .call frame _ _ => some frame
  | .block ctx _ | .ask ctx _ _ => some ctx.frame
  | _ => none

/-! ## Images -/

/-- A machine elsewhere: where its frames lie, what its states look like, and which tasks are there
besides. -/
structure Image where
  frame : FrameId → FrameId
  world : World → World
  tasks : List Task

namespace Image

variable (I : Image)

/-- The image of a machine. -/
def machine (m : Machine) : Machine :=
  { m with world := I.world m.world, tasks := m.tasks.map (Task.rename I.frame) ++ I.tasks }

/-- What happens to a state happens to its image. -/
structure Lawful : Prop where
  log (w : World) : (I.world w).log = w.log
  depth (w : World) : (I.world w).depth = w.depth
  withLog (w : World) (log : Log) : I.world (w.withLog log) = (I.world w).withLog log
  visit (w : World) (frame : FrameId) (use : Use) : I.world (w.visit frame use) =
    (I.world w).visit (I.frame frame) use
  write (w : World) (frame : FrameId) (c : Change) : I.world (w.write frame c) =
    (I.world w).write (I.frame frame) c
  openInside (w : World) (parent : FrameId) :
    (I.world w).openInside (I.frame parent) =
    (I.frame (w.openInside parent).1, I.world (w.openInside parent).2)
  openCall (w : World) (name : String) : I.world (w.openCall name) = (I.world w).openCall name

/-- From a frame the same is found in the image. -/
structure Sees (s : Scopes) (frame : FrameId) (s' : Scopes) : Prop where
  value? (name : String) : s'.value? (I.frame frame) name = s.value? frame name
  module? (name : String) : s'.module? (I.frame frame) name =
    (s.module? frame name).map (ModuleClosure.rename I.frame)
  function? (name : String) :
    s'.function? (I.frame frame) name =
      (s.function? frame name).map (FunctionClosure.rename I.frame)
  children? : s'.children? (I.frame frame) = s.children? frame

variable {I} in
lemma Sees.callee? {s s' : Scopes} {frame : FrameId} (h : I.Sees s frame s') (env : Environment)
    (name : String) :
    env.callee? s' (I.frame frame) name =
      (env.callee? s frame name).map (Callee.rename I.frame) := by
  unfold Environment.callee?
  rw [h.function?]
  cases s.function? frame name with
  | some closure => rfl
  | none => cases env.registry.functions.lookup name <;> rfl

/-- What a task looks up is the same in the image, and what it ends is ended there. This is so where
frames nest as they should. -/
structure Agrees (w : World) (t : Task) : Prop where
  sees (frame : FrameId) (h : frame ∈ t.reads?) : I.Sees w.scopes frame (I.world w).scopes
  leave (id : FrameId) (c : Option Call) (h : t = .leave id c) : I.world (w.leave id c) =
    (I.world w).leave (I.frame id) c
  closeCall (c : Call) (names : List String) (specials : List (String × Value))
    (h : t = .start c names specials) :
    I.world w.closeCall = (I.world w).closeCall

/-- The image of a result. -/
def result {α : Type} : EStateM.Result RuntimeError World α → EStateM.Result RuntimeError World α
  | .ok a w => .ok a (I.world w)
  | .error e w => .error e (I.world w)

/-- A computation that does the same in the image of every state. -/
def Invariant (α : Type) (x : Eval α) : Prop := ∀ w, x (I.world w) = I.result (x w)

variable {I} (hI : I.Lawful)

include hI

variable (ts : List Task) {α : Type}

/-- To add notes goes on alike in both states. -/
lemma Lawful.invariant_log (x : World → α) (f : Log → Log) (hx : ∀ w, x (I.world w) = x w) :
    I.Invariant α fun w => .ok (x w) (w.withLog (f w.log)) := by
  intro w
  show ok (x (I.world w)) ((I.world w).withLog (f (I.world w).log)) =
    .ok (x w) (I.world (w.withLog (f w.log)))
  rw [hx, hI.log, hI.withLog]

/-- So do steps after each other. -/
lemma Lawful.closed : Eval.Closed I.Invariant where
  pure a w := rfl
  throw e _ w := rfl
  bind {_ _ x f} hx hf w := by
    show EStateM.bind x f (I.world w) = I.result (EStateM.bind x f w)
    unfold EStateM.bind
    rw [hx w]
    cases x w with
    | ok a w' => exact hf a w'
    | error e w' => rfl
  warn detail pos := hI.invariant_log (fun _ => ()) (·.emit .warning (detail ++ " at " ++ pos.text))
    fun _ => rfl

lemma Lawful.reporting (x : Reporting α) : I.Invariant α (Eval.reporting x) :=
  hI.invariant_log (fun _ => x.value) (fun log => log ++ Log.mk x.notes) fun _ => rfl

lemma Lawful.checking (x : Check α) : I.Invariant α (Eval.checking x) := by
  intro w
  have hlog : (I.world w).withLog ((I.world w).log ++ ⟨x.run.notes⟩) =
      I.world (w.withLog (w.log ++ ⟨x.run.notes⟩)) := by
    rw [hI.log, hI.withLog]
  unfold Eval.checking
  dsimp only
  cases x.run.value with
  | ok a => exact congrArg (ok a) hlog
  | error e => exact congrArg (error e) hlog

lemma Lawful.apply (op : Operation) (vs : List Value) : I.Invariant Value (op.apply vs) := by
  unfold Operation.apply
  split
  case h_2 => exact hI.closed.indexValue _ _ _
  all_goals first | exact hI.closed.pure _ | exact hI.closed.orWarned _ _ _

/-- Corresponding frames see the same values. -/
lemma Lawful.readVariable {w : World} {frame : FrameId}
    (hsees : I.Sees w.scopes frame (I.world w).scopes) (name : String) (pos : Position) :
    readVariable (I.frame frame) name pos (I.world w) =
      I.result (readVariable frame name pos w) := by
  have hvalue := hsees.value? name
  unfold SolidScript.readVariable
  simp only [bind, EStateM.bind, Eval.lookUp]
  rw [hvalue, ← hI.visit]
  cases w.scopes.value? frame name with
  | some v => rfl
  | none =>
    dsimp only
    split <;> rfl

/-! ## What a machine does -/

section

variable {m : Machine}

omit hI in
/-- Tasks are put in front of both. -/
@[simp] lemma machine_todo : I.machine (m.todo ts) =
    (I.machine m).todo (ts.map (Task.rename I.frame)) := by
  show Machine.mk _ _ _ _ _ = Machine.mk _ _ _ _ _
  rw [show (m.todo ts).tasks = ts ++ m.tasks from rfl, map_append, append_assoc]
  rfl

omit hI in
lemma machine_cons (t : Task) : (I.machine m).todo [t.rename I.frame] =
    I.machine (m.todo [t]) := rfl

/-- Both write the same into corresponding frames. -/
lemma Lawful.machine_write (frame : FrameId) (c : Change) :
    I.machine (m.write frame c) = (I.machine m).write (I.frame frame) c := by
  show Machine.mk (I.world (m.world.write frame c)) _ _ _ _ =
    Machine.mk ((I.world m.world).write (I.frame frame) c) _ _ _ _
  rw [hI.write]
  rfl

omit hI in
/-- Operands are taken off in the image as they are here. -/
lemma machine_withOperands (n : Nat) {f f' : List Value → Machine → Machine}
    (hf : ∀ vs rest, f' vs (I.machine { m with values := rest }) =
      I.machine (f vs { m with values := rest })) :
    (I.machine m).withOperands n f' = I.machine (m.withOperands n f) :=
  hf (m.values.take n).reverse (m.values.drop n)

omit hI in
/-- Both take the same operand. -/
lemma machine_withOperand {f f' : Value → Machine → Machine}
    (hf : ∀ v rest, f' v (I.machine { m with values := rest }) =
      I.machine (f v { m with values := rest })) :
    (I.machine m).withOperand f' = I.machine (m.withOperand f) := machine_withOperands 1 fun vs =>
      hf (vs.headD .undefined)

omit hI in
lemma machine_withArguments (keywords : List (Option String)) {f f' : Arguments → Machine → Machine}
    (hf : ∀ args rest, f' args (I.machine { m with values := rest }) =
      I.machine (f args { m with values := rest })) :
    (I.machine m).withArguments keywords f' = I.machine (m.withArguments keywords f) :=
  machine_withOperands keywords.length fun vs => hf (.ofValues keywords vs)

omit hI in
/-- Both compute alike. -/
lemma machine_compute {x x' : Eval α} {g : α → α} {f f' : α → Machine → Machine}
    (hx : x' (I.world m.world) =
      match x m.world with
      | .ok a w => .ok (g a) (I.world w)
      | .error e w => .error e (I.world w))
    (hf : ∀ a w, f' (g a) (I.machine { m with world := w }) =
      I.machine (f a { m with world := w })) :
    (I.machine m).compute x' f' = I.machine (m.compute x f) := by
  unfold Machine.compute
  rw [show (I.machine m).world = I.world m.world from rfl, hx]
  cases x m.world with
  | ok a w => exact hf a w
  | error e w => rfl

omit hI in
/-- The same of a computation that does the same in the image. -/
lemma Invariant.machine_compute {x : Eval α} (hx : I.Invariant α x) {f f' : α → Machine → Machine}
    (hf : ∀ a w, f' a (I.machine { m with world := w }) = I.machine (f a { m with world := w })) :
    (I.machine m).compute x f' = I.machine (m.compute x f) := by
  refine Image.machine_compute (g := id) ((hx m.world).trans ?_) hf
  cases x m.world <;> rfl

/-- Both open a frame inside a corresponding one. -/
lemma Lawful.machine_inside (parent : FrameId) (c : Option Call)
    {f f' : FrameId → Machine → Machine}
    (hf : ∀ id m', m'.error = m.error → f' (I.frame id) (I.machine m') = I.machine (f id m')) :
    (I.machine m).inside (I.frame parent) (c.map (Call.rename I.frame)) f' =
      I.machine (m.inside parent c f) := by
  have hopen := hI.openInside m.world parent
  unfold Machine.inside
  rw [show (I.machine m).world = I.world m.world from rfl, hopen]
  exact hf _ { m with
    world := (m.world.openInside parent).2
    tasks := .leave (m.world.openInside parent).1 c :: m.tasks } rfl

/-- Both begin a block alike. -/
lemma Lawful.machine_body (parent : FrameId) (block : Program) (offers : List Offer) :
    (I.machine m).body (I.frame parent) block (offers.map (Offer.rename I.frame)) =
      I.machine (m.body parent block offers) := by
  unfold Machine.body
  split
  · rfl
  · exact hI.machine_inside parent none fun id m' _ => machine_cons (.block ⟨id, offers⟩ block)

omit hI in
/-- Both evaluate the same expressions. -/
lemma machine_evaluate (frame : FrameId) (es : List Expr) (next : Task) :
    (I.machine m).evaluate (I.frame frame) es
      (next.rename I.frame) = I.machine (m.evaluate frame es next) := by
  unfold Machine.evaluate
  rw [machine_todo, map_append, map_map]
  rfl

omit hI in
/-- Both supply the same arguments. -/
lemma machine_supply (c : Call) (args : Arguments) :
    (I.machine m).supply (c.rename I.frame) args = I.machine (m.supply c args) := by
  unfold Machine.supply
  rw [c.name_rename, c.params_rename, c.home_rename, c.pos_rename]
  cases Parameters.prepare c.name c.params args with
  | error e =>
    show _ = I.machine ((m.todo [.located c.pos, .start c [] []]).raise e)
    exact congrArg (·.raise e) (machine_todo (m := m) [.located c.pos, .start c [] []]).symm
  | ok prepared =>
    obtain ⟨filled, specials⟩ := prepared
    dsimp only
    rw [machine_todo, map_append, map_map]
    rfl

/-- Both enter a call, or refuse it. -/
lemma Lawful.machine_enter (env : Environment) (c : Call) (args : Arguments) :
    (I.machine m).enter env (c.rename I.frame) args = I.machine (m.enter env c args) := by
  have hdepth : (I.machine m).world.depth = m.world.depth := hI.depth m.world
  unfold Machine.enter
  rw [hdepth, c.name_rename, c.pos_rename]
  split
  · rfl
  · rw [← machine_supply]
    have hopen : I.machine { m with world := m.world.openCall c.name } =
        { I.machine m with world := (I.machine m).world.openCall c.name } := by
      show Machine.mk (I.world (m.world.openCall c.name)) _ _ _ _ =
        Machine.mk ((I.world m.world).openCall c.name) _ _ _ _
      rw [hI.openCall]
      rfl
    rw [hopen]

/-- Both select the same children. -/
lemma Lawful.machine_select (gs : List (Geometry Float)) (site : CallSite) (args : Arguments) :
    (I.machine m).select gs site args = I.machine (m.select gs site args) :=
  (hI.reporting _).machine_compute fun selected _ => machine_cons (.emit selected)

lemma Lawful.machine_nothingOffered (site : CallSite) :
    (I.machine m).nothingOffered site = I.machine (m.nothingOffered site) :=
  (hI.closed.warn _ _).machine_compute fun _ _ => rfl

/-- Both ask for the children of corresponding offers. -/
lemma Lawful.machine_ask {ctx : Context}
    (hsees : I.Sees m.world.scopes ctx.frame (I.world m.world).scopes) (site : CallSite)
    (args : Arguments) :
    (I.machine m).ask (ctx.rename I.frame) site args = I.machine (m.ask ctx site args) := by
  have hfound : Eval.lookUp (I.frame ctx.frame) Scopes.children? (I.world m.world) =
      .ok (m.world.scopes.children? ctx.frame) (I.world (m.world.visit ctx.frame .lookUp)) := by
    unfold Eval.lookUp
    rw [hsees.children?, hI.visit]
  refine machine_compute (g := id) hfound fun found w => ?_
  obtain ⟨frame, offers⟩ := ctx
  cases offers with
  | nil => exact hI.machine_nothingOffered site
  | cons offer outer =>
    match found with
    | none => exact hI.machine_nothingOffered site
    | some (.ready gs) => exact hI.machine_select gs site args
    | some .forcing => rfl
    | some .pending =>
      let m₁ : Machine := { m with world := w }
      show (((I.machine m₁).write (I.frame offer.frame) (.children .forcing)).gather.todo
        [.keep (offer.rename I.frame) site args]).body (I.frame offer.caller) offer.body (outer.map
          (Offer.rename I.frame)) = _
      rw [← hI.machine_write]
      exact hI.machine_body (m := (m₁.write offer.frame (.children .forcing)).gather.todo
        [.keep offer site args]) offer.caller
        offer.body outer

/-- Both carry out the same plan. -/
lemma Lawful.machine_carryOut (ctx : Context) (site : CallSite) (block : Program) (plan : Plan) :
    (I.machine m).carryOut (ctx.rename I.frame) site block plan =
      I.machine (m.carryOut ctx site block plan) := by
  cases plan with
  | shape g => rfl
  | relay => exact hI.machine_body ctx.frame block ctx.offers
  | fold join change =>
    exact hI.machine_body (m := m.gather.todo [.fold site join change]) ctx.frame block ctx.offers

omit hI in
lemma machine_settle (joined : Except RuntimeError (Option (Geometry Float))) :
    (I.machine m).settle joined = I.machine (m.settle joined) := by
  rcases joined with e | _ | g <;> rfl

omit hI in
/-- Both begin an invocation alike. -/
lemma machine_invoke (env : Environment) (ctx : Context) (site : CallSite) (args : List Argument)
    (body : Program) (found : Option ModuleClosure) :
    (I.machine m).invoke env (ctx.rename I.frame) site args body
      (found.map (ModuleClosure.rename I.frame)) =
      I.machine (m.invoke env ctx site args body found) := by
  have hevaluate (t : Task) := machine_evaluate (I := I) (m := m) ctx.frame (args.map (·.value)) t
  unfold Machine.invoke
  cases found with
  | some closure => exact hevaluate (.enter (.module ctx closure site body) _)
  | none =>
    dsimp only [Option.map_none]
    split
    · exact hevaluate (.ask ctx site _)
    · split
      · rfl
      · exact hevaluate (.operate ctx site _ body _)

/-- Both begin an expression alike. -/
lemma Lawful.machine_expr {frame : FrameId}
    (hsees : I.Sees m.world.scopes frame (I.world m.world).scopes) (e : Expr) :
    e.begin (I.frame frame) (I.machine m) = I.machine (e.begin frame m) := by
  have hevaluate := machine_evaluate (I := I) (m := m) frame
  cases e with
  | number | string | bool | undefined => rfl
  | var pos name =>
    rw [Expr.begin, Expr.begin]
    refine machine_compute (g := id) ((hI.readVariable hsees name pos).trans ?_) fun _ _ => rfl
    cases SolidScript.readVariable frame name pos m.world <;> rfl
  | vector _ items => exact hevaluate items (.apply .vector items.length)
  | index pos target i => exact hevaluate [target, i] (.apply (.index pos) 2)
  | binary pos op left right => exact hevaluate [left, right] (.apply (.binary pos op) 2)
  | negate pos operand => exact hevaluate [operand] (.apply (.negate pos) 1)
  | not _ operand => exact hevaluate [operand] (.apply .not 1)
  | compare pos op left right => exact hevaluate [left, right] (.apply (.compare pos op) 2)
  | and _ left right => exact hevaluate [left] (.and frame right)
  | or _ left right => exact hevaluate [left] (.or frame right)
  | cond _ condition yes no => exact hevaluate [condition] (.choose frame yes no)
  | range pos start stop => exact hevaluate [start, stop] (.apply (.range pos) 2)
  | rangeBy pos start step stop => exact hevaluate [start, step, stop] (.apply (.rangeBy pos) 3)
  | call pos name args =>
    exact hevaluate (args.map (·.value)) (.call frame ⟨name, pos⟩ (args.map (·.name)))

/-- Both begin a call of a function alike. -/
lemma Lawful.machine_callee (env : Environment) (site : CallSite) (args : Arguments)
    (callee : Option Callee) :
    Callee.begin env site args (I.machine m) (callee.map (Callee.rename I.frame)) =
      I.machine (Callee.begin env site args m callee) := by
  rcases callee with _ | ⟨closure⟩ | ⟨f⟩
  · rfl
  · exact hI.machine_enter env (.function closure site) args
  · rw [Option.map_some, Callee.rename, Callee.begin, Callee.begin]
    exact (hI.reporting (f site args)).machine_compute fun _ _ => rfl

/-- Both begin with the same parameters. -/
lemma Lawful.machine_call (id : FrameId) (c : Call) :
    (c.rename I.frame).begin (I.machine m) (I.frame id) = I.machine (c.begin m id) := by
  cases c with
  | function closure site => rfl
  | module ctx closure site body =>
    show ((I.machine m).write (I.frame id) (.children .pending)).todo _ = _
    rw [← hI.machine_write]
    rfl

/-- Both begin a statement alike. -/
lemma Lawful.machine_statement (env : Environment) {ctx : Context}
    (hsees : I.Sees m.world.scopes ctx.frame (I.world m.world).scopes) (stmt : Statement) :
    stmt.begin env (ctx.rename I.frame) (I.machine m) = I.machine (stmt.begin env ctx m) := by
  have hevaluate := machine_evaluate (I := I) (m := m) ctx.frame
  cases stmt with
  | assign _ name value => exact hevaluate [value] (.bind ctx.frame name)
  | evaluate _ value => exact hevaluate [value] .drop
  | defineModule _ definition => exact (hI.machine_write ctx.frame (.module definition)).symm
  | defineFunction _ definition => exact (hI.machine_write ctx.frame (.function definition)).symm
  | branch _ condition yes no => exact hevaluate [condition] (.branch ctx yes no)
  | loop _ bindings body =>
    exact hevaluate (bindings.map (·.domain)) (.loop ctx (bindings.map (·.name)) body)
  | invoke pos name args body =>
    rw [Statement.begin, Statement.begin]
    refine machine_compute (g := Option.map (ModuleClosure.rename I.frame)) ?_ fun found w =>
      machine_invoke (m := { m with world := w }) env ctx ⟨name, pos⟩ args body found
    show ok ((I.world m.world).scopes.module? (I.frame ctx.frame) name) _ = .ok _ _
    rw [hsees.module?, hI.visit]
    rfl

end

/-! ## Tasks -/

section

variable {env : Environment} {w : World} {t : Task} {K : List Task} {vs : List Value}
  {cs : List (List (Geometry Float))}

omit hI in
lemma leave_rename (w : World) (id : FrameId) (c : Option Call) :
    (I.world w).leave (I.frame id) (c.map (Call.rename I.frame)) =
      (I.world w).leave (I.frame id) c := by
  cases c <;> rfl

/-- A task does in the image what it does. -/
theorem Lawful.perform (hagrees : I.Agrees w t) :
    (t.rename I.frame).perform env (I.machine (running w K vs cs)) =
      I.machine (t.perform env (running w K vs cs)) := by
  unfold Task.rename Task.perform
  cases t with
  | expr frame e => exact hI.machine_expr (hagrees.sees frame rfl) e
  | apply op n =>
    exact machine_withOperands n fun vs rest => (hI.apply op vs).machine_compute fun _ _ => rfl
  | and frame right =>
    refine machine_withOperand fun v rest => ?_
    split
    · exact machine_evaluate frame [right] (.apply .truth 1)
    · rfl
  | or frame right =>
    refine machine_withOperand fun v rest => ?_
    split
    · rfl
    · exact machine_evaluate frame [right] (.apply .truth 1)
  | choose | located | drop | loop => rfl
  | call frame site keywords =>
    refine machine_withArguments keywords fun args rest => ?_
    refine machine_compute (g := Option.map (Callee.rename I.frame)) ?_ fun callee w' =>
      hI.machine_callee env site _ callee
    show ok (env.callee? (I.world w).scopes (I.frame frame) site.name) _ =
      .ok ((env.callee? w.scopes frame site.name).map (Callee.rename I.frame)) _
    rw [(hagrees.sees frame rfl).callee? env, hI.visit]
  | param callee frame p given =>
    obtain ⟨name, default⟩ := p
    cases given <;> cases default <;> rfl
  | start c names specials =>
    refine machine_withOperands names.length fun vs rest => ?_
    rw [c.home_rename]
    refine hI.machine_inside c.home (some c) fun id m' _ => ?_
    rw [← hI.machine_write]
    exact hI.machine_call id c
  | leave id c =>
    have hleave := hagrees.leave id c rfl
    have hrename := leave_rename (I := I) w id c
    show { I.machine (running w K vs cs) with
      world := (I.world w).leave (I.frame id) (c.map (Call.rename I.frame)) } =
      { I.machine (running w K vs cs) with world := I.world (w.leave id c) }
    rw [hleave, hrename]
  | block ctx rest =>
    cases rest with
    | nil => rfl
    | cons stmt rest =>
      have hvisit := hI.visit w ctx.frame (.run stmt)
      let m₁ : Machine := running (w.visit ctx.frame (.run stmt)) (.block ctx rest :: K) vs cs
      have hsees : I.Sees m₁.world.scopes ctx.frame (I.world m₁.world).scopes := by
        show I.Sees w.scopes ctx.frame (I.world (w.visit ctx.frame (.run stmt))).scopes
        rw [hvisit]
        exact hagrees.sees ctx.frame rfl
      have hm₁ : I.machine m₁ = { I.machine (running w K vs cs) with
          world := (I.world w).visit (I.frame ctx.frame) (.run stmt)
          tasks :=
            (Task.block ctx rest).rename I.frame :: (I.machine (running w K vs cs)).tasks } := by
        rw [← hvisit]
        rfl
      show stmt.begin env (ctx.rename I.frame) _ = I.machine (stmt.begin env ctx m₁)
      rw [← hI.machine_statement env hsees, hm₁]
      rfl
  | bind frame name => exact machine_withOperand fun v rest => (hI.machine_write frame _).symm
  | branch ctx yes no =>
    refine machine_withOperand fun v rest => ?_
    split
    · exact hI.machine_body ctx.frame yes ctx.offers
    · exact hI.machine_body ctx.frame no ctx.offers
  | rounds ctx vars body n i =>
    cases n with
    | zero => rfl
    | succ n =>
      refine hI.machine_inside (m := (running w K vs cs).todo [.rounds ctx vars body n (i + 1)])
        ctx.frame none fun id m' _ => ?_
      rw [← hI.machine_write]
      exact machine_cons (.block ⟨id, ctx.offers⟩ body)
  | enter c keywords =>
    exact machine_withArguments keywords fun args rest => hI.machine_enter env c args
  | operate ctx site keywords body operator =>
    refine machine_withArguments keywords fun args rest => ?_
    exact (hI.checking _).machine_compute fun plan w' => hI.machine_carryOut ctx site body plan
  | ask ctx site keywords =>
    refine machine_withArguments keywords fun args rest => ?_
    exact hI.machine_ask (hagrees.sees ctx.frame rfl) site args
  | emit gs => cases gs <;> rfl
  | fold site join change =>
    exact machine_settle (m := running w K vs cs.tail) (Plan.joined site join change (cs.headD []))
  | keep offer site args =>
    show ((I.machine (running w K vs cs.tail)).write (I.frame offer.frame) _).select _ site args =
      _
    rw [← hI.machine_write]
    exact hI.machine_select _ site args

omit hI in
/-- A task that is given up is given up in the image. -/
theorem Agrees.abandon {m : Machine} {e : RuntimeError} (herror : m.error = some e)
    (hagrees : I.Agrees m.world t) :
    (t.rename I.frame).abandon e (I.machine m) = I.machine (t.abandon e m) := by
  obtain ⟨w, ts, vs, cs, error⟩ := m
  obtain rfl : error = some e := herror
  cases t with
  | start c names specials =>
    have hclose := hagrees.closeCall c names specials rfl
    show Machine.mk (I.world w).closeCall _ _ _ _ = Machine.mk (I.world w.closeCall) _ _ _ _
    rw [hclose]
    rfl
  | leave id c =>
    have hleave := hagrees.leave id c rfl
    have hrename := leave_rename (I := I) w id c
    show Machine.mk ((I.world w).leave (I.frame id) (c.map (Call.rename I.frame))) _ _ _ _ =
      Machine.mk (I.world (w.leave id c)) _ _ _ _
    rw [hleave, hrename]
    rfl
  | _ => rfl

/-- A step that hands nothing out is a step of the image. -/
theorem Lawful.step {m m' : Machine} (hagrees : ∀ t ∈ m.tasks.head?, I.Agrees m.world t)
    (h : m.move env = .step m') : (I.machine m).move env = .step (I.machine m') := by
  rcases Machine.move_cases env m with ⟨e, t, K, herror, htasks, hmove⟩ | ⟨e, -, -, hmove⟩
    | ⟨t, K, herror, htasks, hmove⟩ |
    ⟨g, gs, K, -, -, hmove⟩ | ⟨-, -, hmove⟩
  all_goals
    rw [hmove] at h
    cases h
  · obtain ⟨w, ts, vs, cs, error⟩ := m
    obtain rfl : error = some e := herror
    obtain rfl : ts = t :: K := htasks
    exact congrArg Move.step ((hagrees t rfl).abandon (m := ⟨w, K, vs, cs, some e⟩) rfl)
  · obtain ⟨w, vs, cs, rfl⟩ := Machine.eq_running herror htasks
    show _ = Move.step (I.machine (t.perform env (running w K vs cs)))
    rw [← hI.perform (hagrees t rfl)]
    cases t with
    | emit gs =>
      -- the machine has not handed anything out, so something is being collected
      rcases gs with _ | ⟨g, gs⟩
      · rfl
      · rcases cs with _ | ⟨c, cs⟩
        · cases hmove
        · rfl
    | _ => rfl

end

/-! ## Further tasks -/

omit hI

/-- The same machine with further tasks behind its own. -/
def behind (ts : List Task) : Image := ⟨id, id, ts⟩

lemma lawful_behind : (behind ts).Lawful where
  log _ := rfl
  depth _ := rfl
  withLog _ _ := rfl
  visit _ _ _ := rfl
  write _ _ _ := rfl
  openInside _ _ := rfl
  openCall _ _ := rfl

lemma agrees_behind (w : World) (t : Task) : (behind ts).Agrees w t where
  sees _ _ := ⟨fun _ => rfl, fun _ => Option.map_id'.symm, fun _ => Option.map_id'.symm, rfl⟩
  leave _ _ _ := rfl
  closeCall _ _ _ _ := rfl

lemma machine_behind (m : Machine) : (behind ts).machine m = { m with tasks := m.tasks ++ ts } := by
  have hrename : m.tasks.map (Task.rename id) = m.tasks :=
    (map_congr_left fun t _ => t.rename_id).trans (map_id _)
  show { m with tasks := m.tasks.map (Task.rename id) ++ ts } = _
  rw [hrename]

/-- Steps leave alone what is behind. -/
theorem exists_iterate_behind {env : Environment} {m m' : Machine} (hsteps : StepsTo env m m') :
    ∃ n, (fun m => (m.move env).next)^[n] ((behind ts).machine m) = (behind ts).machine m' ∧
      ∀ i ≤ n, ∃ m₁, (fun m => (m.move env).next)^[i] ((behind ts).machine m) =
      (behind ts).machine m₁ := by
  induction hsteps using Relation.ReflTransGen.head_induction_on with
  | refl => exact ⟨0, rfl, fun i hi => ⟨m', by rw [Nat.le_zero.mp hi]; rfl⟩⟩
  | @head m m₂ hstep _ ih =>
    obtain ⟨n, hn, hbetween⟩ := ih
    have hmove := (lawful_behind ts).step (fun t _ => agrees_behind ts m.world t) hstep
    have hnext : ((behind ts).machine m |>.move env).next = (behind ts).machine m₂ := by
      rw [hmove]
      rfl
    refine ⟨n + 1, ?_, fun i hi => ?_⟩
    · rw [Function.iterate_succ_apply, hnext]
      exact hn
    · cases i with
      | zero => exact ⟨m, rfl⟩
      | succ i =>
        rw [Function.iterate_succ_apply, hnext]
        exact hbetween i (Nat.le_of_succ_le_succ hi)

end Image

end SolidScript
