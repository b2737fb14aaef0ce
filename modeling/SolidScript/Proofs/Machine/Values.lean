import Mathlib.Logic.Relation
import SolidScript.Proofs.Evaluation.Holds
import SolidScript.Proofs.Evaluation.OnlyReports
import SolidScript.Proofs.Machine.Basic

/-!
# The machine computes what the evaluator computes

Wherever the evaluator computes a value, the machine takes finitely many steps and leaves the value
among its operands, with the state that the evaluator leaves. Where the evaluator fails, the machine
gives up the same tasks with the same error. This holds in front of any further tasks, so it can be
said of one expression at a time. The machine knows nothing of the number of calls that the
evaluator still allows: the two agree because that number and the counter always make up the limit.
-/

namespace SolidScript

open List SolidScript.Expr

namespace Machine

/-- Steps that hand nothing out. -/
def StepsTo (env : Environment) : Machine → Machine → Prop := Relation.ReflTransGen fun m m' =>
    m.move env = .step m'

/-- A machine that goes on. -/
abbrev running (w : World) (tasks : List Task) (vs : List Value)
    (cs : List (List (Geometry Float))) : Machine :=
  ⟨w, tasks, vs, cs, none⟩

/-- A machine without an error is running. -/
lemma eq_running {m : Machine} {ts : List Task} (herror : m.error = none) (htasks : m.tasks = ts) :
    ∃ w vs cs, m = running w ts vs cs := by
  obtain ⟨w, _, vs, cs, _⟩ := m
  obtain rfl := herror
  obtain rfl := htasks
  exact ⟨w, vs, cs, rfl⟩

/-- The task is performed when its turn comes. -/
abbrev Performed (env : Environment) (t : Task) : Prop :=
  ∀ w K vs cs, (running w (t :: K) vs cs).move env = .step (t.perform env (running w K vs cs))

/-- A machine that gives everything up. -/
abbrev failing (w : World) (tasks : List Task) (e : RuntimeError) : Machine :=
  ⟨w, tasks, [], [], some e⟩

/-- The machine with further operands. -/
def give (m : Machine) (out : List Value) : Machine := { m with values := out ++ m.values }

lemma todo_append (m : Machine) (ts ts' : List Task) :
    m.todo (ts ++ ts') = (m.todo ts').todo ts := by
  unfold todo
  rw [append_assoc]

/-- Operands are taken in the order in which they were given. -/
lemma withOperands_give (m : Machine) {n : Nat} {vs : List Value} (hvs : vs.length = n)
    (f : List Value → Machine → Machine) : (m.give vs.reverse).withOperands n f = f vs m := by
  have hlength : vs.reverse.length = n := by rw [length_reverse, hvs]
  unfold withOperands give
  dsimp only
  rw [take_left' hlength, drop_left' hlength, reverse_reverse]

end Machine

open Machine (StepsTo Performed running failing)

/-- A task that is simply dropped where everything is given up. -/
def Task.IsPlain : Task → Prop
  | .located _ | .start _ _ _ | .leave _ _ => False
  | _ => True

variable {env : Environment} {w : World}

/-- Plain tasks are given up one after the other. -/
lemma steps_plain {ts : List Task} (hts : ∀ t ∈ ts, t.IsPlain) (w : World) (K : List Task)
    (e : RuntimeError) : StepsTo env (failing w (ts ++ K) e) (failing w K e) := by
  induction ts with
  | nil => exact .refl
  | cons t ts ih =>
    obtain ⟨ht, hts⟩ := forall_mem_cons.mp hts
    refine .head ?_ (ih hts)
    cases t <;> first | rfl | exact absurd ht id

/-- The same scopes and the same things in progress. What has been reported and which frames were
used may differ. -/
structure World.Unmoved (w w' : World) : Prop where
  scopes : w'.scopes = w.scopes
  stack : w'.stack = w.stack
  depth : w'.depth = w.depth

/-- The same, with some more reported. -/
structure World.Heard (w w' : World) : Prop extends w.Unmoved w' where
  log : ∃ more, w'.log = w.log ++ more

namespace World.Heard

variable {w' w'' : World}

lemma refl (w : World) : w.Heard w := ⟨⟨rfl, rfl, rfl⟩, {}, (Log.append_empty _).symm⟩

lemma trans (h : w.Heard w') (h' : w'.Heard w'') : w.Heard w'' := by
  obtain ⟨⟨hscopes, hstack, hdepth⟩, more, hmore⟩ := h
  obtain ⟨⟨hscopes', hstack', hdepth'⟩, more', hmore'⟩ := h'
  refine ⟨⟨hscopes'.trans hscopes, hstack'.trans hstack, hdepth'.trans hdepth⟩, more ++ more', ?_⟩
  rw [hmore', hmore, Log.append_assoc]

/-- To use a frame changes nothing but the record of uses. -/
lemma visit (w : World) (frame : FrameId) (use : Use) : w.Heard (w.visit frame use) :=
  ⟨⟨rfl, rfl, rfl⟩, {}, (Log.append_empty _).symm⟩

end World.Heard

namespace Eval

/-- A computation that does no more than report and look things up, whose result is as `Q` says and
whose error is as `E` says. -/
def Quiet {α : Type} (Q : α → Prop) (E : RuntimeError → Prop) (x : Eval α) : Prop :=
  ∀ w, x.Holds w (fun a w' => w.Heard w' ∧ Q a) fun e w' => w.Heard w' ∧ E e

namespace Quiet

variable {α β : Type} {Q : α → Prop} {E : RuntimeError → Prop}

lemma pure {a : α} (ha : Q a) : Quiet Q E (Pure.pure a) := fun w => ⟨.refl w, ha⟩

lemma throw {e : RuntimeError} (he : E e) : Quiet Q E (MonadExcept.throw e : Eval α) :=
  fun w => ⟨.refl w, he⟩

lemma bind {x : Eval α} {f : α → Eval β} {R : β → Prop} (hx : Quiet Q E x)
    (hf : ∀ a, Q a → Quiet R E (f a)) : Quiet R E (x >>= f) := by
  intro w
  refine (hx w).bind fun a w' hw => ?_
  obtain ⟨hheard, ha⟩ := hw
  exact (hf a ha w').mono (fun _ _ h => ⟨hheard.trans h.1, h.2⟩) fun _ _ h =>
    ⟨hheard.trans h.1, h.2⟩

lemma warn (detail : String) (pos : Position) : Quiet (fun _ => True) E (Eval.warn detail pos) :=
  fun _ => ⟨⟨⟨rfl, rfl, rfl⟩, _, Log.emit_eq_append _ _ _⟩, trivial⟩

/-- A lookup is quiet. -/
lemma lookUp (frame : FrameId) (find? : Scopes → FrameId → Option α) :
    Quiet (fun _ => True) E (Eval.lookUp frame find?) :=
  fun w => ⟨.visit w frame .lookUp, trivial⟩

lemma reporting (x : Reporting α) : Quiet (fun _ => True) E (Eval.reporting x) :=
  fun _ => ⟨⟨⟨rfl, rfl, rfl⟩, _, rfl⟩, trivial⟩

/-- A check has the result or the error that it has without any log. -/
lemma checking {x : Check α} (hok : ∀ a, x.run.value = .ok a → Q a)
    (herror : ∀ e, x.run.value = .error e → E e) : Quiet Q E (Eval.checking x) := by
  intro w
  unfold Holds Eval.checking
  dsimp only
  cases hx : x.run.value with
  | error e => exact ⟨⟨⟨rfl, rfl, rfl⟩, _, rfl⟩, herror e hx⟩
  | ok a => exact ⟨⟨⟨rfl, rfl, rfl⟩, _, rfl⟩, hok a hx⟩

lemma closed : ClosedUnder E fun _ => Quiet (fun _ => True) E where
  pure _ := pure trivial
  throw _ := throw
  bind hx hf := bind hx fun a _ => hf a
  warn := warn

lemma apply (op : Operation) (vs : List Value) : Quiet (fun _ => True) E (op.apply vs) := by
  unfold Operation.apply
  split
  case h_2 => exact closed.indexValue _ _ _
  all_goals first | exact pure trivial | exact closed.orWarned _ _ _

/-- A variable that is not there is an error. -/
lemma readVariable (frame : FrameId) (name : String) (pos : Position)
    (hE : E ⟨.undefinedVariable name, some pos⟩) :
    Quiet (fun _ => True) E (readVariable frame name pos) :=
  closed.read (lookUp frame _) hE

end Quiet

/-- A computation that moves nothing. -/
abbrev Still {α : Type} (x : Eval α) : Prop := x.Quiet (fun _ => True) fun _ => True

end Eval

open Eval (Still)

/-! ## Computations -/

/-- What a machine does for a computation: it begins in some way in front of any other tasks, while
`left` more calls may be in progress, and comes to these tasks with the state that the computation
leaves. If there is a result, it is among the operands in a form that `R` describes; if there is an
error, it gives up. -/
def Evaluates (env : Environment) (left : Nat) (begin : Machine → Machine) {α : Type} (x : Eval α)
    (R : α → List Value → Prop) : Prop :=
  ∀ w K vs cs, w.depth + left = env.host.settings.maxDepth →
    x.Holds w
      (fun a w' => w'.depth = w.depth ∧
        ∃ out, R a out ∧ StepsTo env (begin (running w K vs cs)) ((running w' K vs cs).give out))
      fun e w' => StepsTo env (begin (running w K vs cs)) (failing w' K e)

/-- A value as an operand. -/
abbrev Single (v : Value) (out : List Value) : Prop := out = [v]

/-- So many operands, last one first, from which a result can be read off. -/
def Read {α : Type} (n : Nat) (f : List Value → α) (a : α) (out : List Value) : Prop :=
  ∃ vs, vs.length = n ∧ out = vs.reverse ∧ a = f vs

/-- Operands that are arguments, some of them with a keyword. -/
abbrev ReadArguments (keywords : List (Option String)) : Arguments → List Value → Prop :=
  Read keywords.length (.ofValues keywords)

/-- Arguments are put together again from their operands. -/
lemma ReadArguments.withArguments {keywords : List (Option String)} {args : Arguments}
    {out : List Value} (h : ReadArguments keywords args out) (m : Machine)
    (f : Arguments → Machine → Machine) : (m.give out).withArguments keywords f = f args m := by
  obtain ⟨vs, hlength, rfl, rfl⟩ := h
  exact m.withOperands_give hlength _

namespace Evaluates

variable {env : Environment} {left : Nat} {α β : Type} {x : Eval α} {R : α → List Value → Prop}
  {begin : Machine → Machine}

lemma congr {y : Eval α} (h : Evaluates env left begin x R) (heq : x = y) :
    Evaluates env left begin y R := heq ▸ h

lemma pure (v : Value) : Evaluates env left (·.push v) (Pure.pure v) Single :=
  fun _ _ _ _ _ => ⟨rfl, [v], rfl, .refl⟩

/-- An error is raised. -/
lemma raise (e : RuntimeError) : Evaluates env left (·.raise e) (throw e) R :=
  fun _ _ _ _ _ => .refl

variable {t : Task} {S : β → List Value → Prop}

/-- What comes of a task that is performed. -/
lemma step {out : List Value} (ht : Performed env t)
    (h : Evaluates env left (fun m => t.perform env (m.give out)) x R) :
    Evaluates env left (fun m => (m.give out).todo [t]) x R := by
  intro w K vs cs hdepth
  refine (h w K vs cs hdepth).mono (fun a w' hw => ?_) fun e w' hw => .head (ht w K _ cs) hw
  obtain ⟨hw, fin, hR, hsteps⟩ := hw
  exact ⟨hw, fin, hR, .head (ht w K _ cs) hsteps⟩

lemma perform (ht : Performed env t) (h : Evaluates env left (t.perform env) x R) :
    Evaluates env left (·.todo [t]) x R := by
  show Evaluates env left (fun m => (m.give []).todo [t]) x R
  exact step ht h

/-- One computation after the other, with tasks in between. -/
lemma bind {f : α → Eval β} {ts : List Task} (hts : ∀ t ∈ ts, t.IsPlain)
    (hx : Evaluates env left begin x R)
    (hf : ∀ a out, R a out → Evaluates env left (fun m => (m.give out).todo ts) (f a) S) :
    Evaluates env left (fun m => begin (m.todo ts)) (x >>= f) S := by
  intro w K vs cs hdepth
  refine ((hx w (ts ++ K) vs cs hdepth).mono (fun _ _ h => h) fun e w' h => ?_).bind ?_
  · -- the tasks that were waiting for the result are given up too
    exact h.trans (steps_plain hts w' K e)
  · rintro a w' ⟨hw, out, hR, hsteps⟩
    refine (hf a out hR w' K vs cs (hw ▸ hdepth)).mono (fun b w'' h => ?_) fun e w'' h =>
      hsteps.trans h
    obtain ⟨hw', fin, hS, hsteps'⟩ := h
    exact ⟨hw'.trans hw, fin, hS, hsteps.trans hsteps'⟩

lemma map {f : α → β} (h : Evaluates env left begin x R)
    (hS : ∀ a out, R a out → S (f a) out) : Evaluates env left begin (do return f (← x)) S := by
  intro w K vs cs hdepth
  refine (h w K vs cs hdepth).bind fun a w' hw => ?_
  obtain ⟨hw, out, hR, hsteps⟩ := hw
  exact ⟨hw, out, hS a out hR, hsteps⟩

/-- Operands that are there already stay. -/
lemma behind (h : Evaluates env left begin x R) (given : List Value) :
    Evaluates env left (fun m => begin (m.give given)) x fun a out => ∃ more, R a more ∧
      out = more ++ given := by
  intro w K vs cs hdepth
  refine (h w K (given ++ vs) cs hdepth).mono (fun a w' hw => ?_) fun _ _ hw => hw
  obtain ⟨hw, out, hR, hsteps⟩ := hw
  refine ⟨hw, out ++ given, ⟨out, hR, rfl⟩, ?_⟩
  unfold Machine.give at hsteps ⊢
  rw [append_assoc]
  exact hsteps

/-- A computation that leaves the scopes alone. -/
lemma compute {f : α → Eval β} {next : α → Machine → Machine} (hx : Still x)
    (hf : ∀ a, Evaluates env left (next a) (f a) S) :
    Evaluates env left (fun m => m.compute x next) (x >>= f) S := by
  intro w K vs cs hdepth
  unfold Eval.Holds
  rw [show (x >>= f) w = EStateM.bind x f w from rfl]
  unfold EStateM.bind Machine.compute
  dsimp only
  cases hr : x w with
  | ok a w' =>
    have hw := ((hx w).of_ok hr).1.depth
    refine (hf a w' K vs cs (hw ▸ hdepth)).mono (fun b w'' h => ?_) fun _ _ h => h
    exact ⟨h.1.trans hw, h.2⟩
  | error e w' => exact .refl

lemma value {x : Eval Value} (hx : Still x) :
    Evaluates env left (fun m => m.compute x fun v m => m.push v) x Single :=
  (compute hx pure).congr (bind_pure x)

lemma none {f : List Value → α} : Evaluates env left (·.todo []) (Pure.pure (f [])) (Read 0 f) :=
  fun _ _ _ _ _ => ⟨rfl, [], ⟨[], rfl, rfl, rfl⟩, .refl⟩

lemma more {ts : List Task} {x : Eval Value} {xs : Eval α} {n : Nat} {f : List Value → α}
    (hts : ∀ t ∈ ts, t.IsPlain) (ht : Evaluates env left (·.todo [t]) x Single)
    (hrest : Evaluates env left (·.todo ts) xs (Read n f)) {g : Value → α → β} {h : List Value → β}
    (hh : ∀ v vs, h (v :: vs) = g v (f vs)) :
    Evaluates env left (·.todo (t :: ts)) (do let v ← x; return g v (← xs)) (Read (n + 1) h) := by
  refine bind hts ht ?_
  rintro v _ rfl
  refine (hrest.behind [v]).map ?_
  rintro _ _ ⟨_, ⟨vs, hlength, rfl, rfl⟩, rfl⟩
  exact ⟨v :: vs, by rw [length_cons, hlength], by rw [reverse_cons], (hh v vs).symm⟩

end Evaluates

/-! ## Expressions -/

/-- A way to call functions that a machine follows. -/
def FollowsCalls (env : Environment) (left : Nat) (call : CallFunction) : Prop :=
  ∀ frame site args,
    Evaluates env left
      (fun m => m.compute (Eval.lookUp frame (env.callee? · · site.name)) fun callee m =>
        Callee.begin env site args m callee)
      (call frame site args) Single

lemma isPlain_exprs (frame : FrameId) (es : List Expr) :
    ∀ t ∈ es.map (Task.expr frame), t.IsPlain := by
  intro t ht
  obtain ⟨e, -, rfl⟩ := mem_map.mp ht
  trivial

lemma isPlain_single {t : Task} (ht : t.IsPlain) : ∀ t' ∈ [t], t'.IsPlain :=
  forall_mem_singleton.mpr ht

namespace Evaluates

variable {env : Environment} {left : Nat} {call : CallFunction} {frame : FrameId}

variable {α : Type} {R : α → List Value → Prop} {es : List Expr} {e : Expr}

lemma operands {β : Type} {f : β → Eval α} {x : Eval β} {Q : β → List Value → Prop} {t : Task}
    (ht : t.IsPlain) (hx : Evaluates env left (·.todo (es.map (.expr frame))) x Q)
    (hf : ∀ b out, Q b out → Evaluates env left (fun m => (m.give out).todo [t]) (f b) R) :
    Evaluates env left (fun m => m.evaluate frame es t) (x >>= f) R := by
  have h := bind (isPlain_single ht) hx hf
  simp only [← Machine.todo_append] at h
  exact h

/-- The task of an expression is to take it up. -/
lemma taken (he : Evaluates env left (e.begin frame) (e.eval call frame) Single) :
    Evaluates env left (·.todo [.expr frame e]) (e.eval call frame) Single :=
  perform (fun _ _ _ _ => rfl) he

lemma operation (op : Operation)
    (hes : Evaluates env left (·.todo (es.map (.expr frame))) (evalAll call frame es)
      (Read es.length id)) :
    Evaluates env left (fun m => m.evaluate frame es (.apply op es.length))
      (evalAll call frame es >>= op.apply)
      Single := by
  refine operands trivial hes ?_
  rintro vs _ ⟨_, hlength, rfl, rfl⟩
  refine step (fun _ _ _ _ => rfl) ?_
  simp only [Task.perform, Machine.withOperands_give _ hlength]
  exact value (.apply op vs)

lemma cons (he : Evaluates env left (e.begin frame) (e.eval call frame) Single)
    (hes : Evaluates env left (·.todo (es.map (.expr frame))) (evalAll call frame es)
      (Read es.length id)) :
    Evaluates env left (·.todo ((e :: es).map (.expr frame))) (evalAll call frame (e :: es))
      (Read (e :: es).length id) :=
  more (isPlain_exprs frame es) he.taken hes fun _ _ => rfl

/-- A condition is evaluated first. -/
lemma condition {f : Value → Eval α} {t : Task} (ht : t.IsPlain) (hstep : Performed env t)
    (he : Evaluates env left (e.begin frame) (e.eval call frame) Single)
    (hf : ∀ c, Evaluates env left (fun m => t.perform env (m.push c)) (f c) R) :
    Evaluates env left (fun m => m.evaluate frame [e] t) (e.eval call frame >>= f) R := by
  refine operands ht he.taken ?_
  rintro c _ rfl
  exact step hstep (hf c)

lemma ite {b : Prop} [Decidable b] {x y : Eval α} {yes no : Machine → Machine}
    (hyes : Evaluates env left yes x R) (hno : Evaluates env left no y R) :
    Evaluates env left (fun m => if b then yes m else no m) (if b then x else y) R := by
  by_cases hb : b
  · simp only [if_pos hb]
    exact hyes
  · simp only [if_neg hb]
    exact hno

lemma unary (op : Operation) (he : Evaluates env left (e.begin frame) (e.eval call frame) Single) :
    Evaluates env left (fun m => m.evaluate frame [e] (.apply op 1))
      (do op.apply [← e.eval call frame]) Single :=
  (operation op (cons he none)).congr (by simp [evalAll])

lemma binary (op : Operation) {a b : Expr}
    (ha : Evaluates env left (a.begin frame) (a.eval call frame) Single)
    (hb : Evaluates env left (b.begin frame) (b.eval call frame) Single) :
    Evaluates env left (fun m => m.evaluate frame [a, b] (.apply op 2))
      (do op.apply [← a.eval call frame, ← b.eval call frame]) Single :=
  (operation op (cons ha (cons hb none))).congr (by simp [evalAll])

mutual

/-- The machine takes every expression to its value. -/
theorem expr (hcall : FollowsCalls env left call) (frame : FrameId) : ∀ e : Expr,
    Evaluates env left (e.begin frame) (e.eval call frame) Single
  | .number _ _ | .string _ _ | .bool _ _ | .undefined _ => pure _
  | .var pos name => value (.readVariable frame name pos trivial)
  | .vector _ items => operation .vector (exprs hcall frame items)
  | .index pos target i => binary (.index pos) (expr hcall frame target) (expr hcall frame i)
  | .binary pos op a b => binary (.binary pos op) (expr hcall frame a) (expr hcall frame b)
  | .negate pos a => unary (.negate pos) (expr hcall frame a)
  | .not _ a => unary .not (expr hcall frame a)
  | .compare pos op a b => binary (.compare pos op) (expr hcall frame a) (expr hcall frame b)
  | .range pos a b => binary (.range pos) (expr hcall frame a) (expr hcall frame b)
  | .rangeBy pos a s b => by
    refine (operation (.rangeBy pos)
      (cons (expr hcall frame a)
        (cons (expr hcall frame s) (cons (expr hcall frame b) none)))).congr ?_
    simp [evalAll, eval, Operation.apply]
  | .and _ a b =>
    condition trivial (fun _ _ _ _ => rfl) (expr hcall frame a) fun _ =>
      ite (unary .truth (expr hcall frame b)) (pure _)
  | .or _ a b =>
    condition trivial (fun _ _ _ _ => rfl) (expr hcall frame a) fun _ =>
      ite (pure _) (unary .truth (expr hcall frame b))
  | .cond _ c yes no => by
    refine condition trivial (fun _ _ _ _ => rfl) (expr hcall frame c) fun v => ?_
    show Evaluates env left (·.todo [.expr frame (if v.isTruthy then yes else no)]) _ _
    split
    · exact (expr hcall frame yes).taken
    · exact (expr hcall frame no).taken
  | .call pos name args => by
    refine operands trivial (arguments hcall frame args) ?_
    intro args out hargs
    refine step (fun _ _ _ _ => rfl) ?_
    simp only [Task.perform, hargs.withArguments]
    exact hcall frame ⟨name, pos⟩ args

theorem exprs (hcall : FollowsCalls env left call) (frame : FrameId) : ∀ es : List Expr,
    Evaluates env left (·.todo (es.map (.expr frame))) (evalAll call frame es) (Read es.length id)
  | [] => none
  | e :: es => cons (expr hcall frame e) (exprs hcall frame es)

theorem arguments (hcall : FollowsCalls env left call) (frame : FrameId) :
    ∀ args : List Argument,
    Evaluates env left (·.todo ((args.map (·.value)).map (.expr frame)))
      (Argument.evalAll call frame args)
      (ReadArguments (args.map (·.name)))
  | [] => none
  | ⟨_, e⟩ :: rest =>
    more (isPlain_exprs frame _) (expr hcall frame e).taken (arguments hcall frame rest)
      fun _ _ => rfl

end

/-- What loops run over. -/
lemma bindings (hcall : FollowsCalls env left call) (frame : FrameId) (bs : List Binding) :
    Evaluates env left (·.todo ((bs.map (·.domain)).map (.expr frame)))
      (Binding.evalAll call frame bs)
      (Read (bs.map (·.name)).length fun vs => (bs.map (·.name)).zip (vs.map Domain.ofValue)) := by
  induction bs with
  | nil => exact none
  | cons b rest ih =>
    exact more (isPlain_exprs frame _) (expr hcall frame b.domain).taken ih fun _ _ => rfl

end Evaluates

/-! ## Calls -/

namespace Evaluates

variable {env : Environment} {left : Nat} {call : CallFunction}

/-- A parameter has the value given, or its default. -/
lemma parameter (hcall : FollowsCalls env left call) (callee : String) (frame : FrameId) (p : Param)
    (given : Option Value) :
    Evaluates env left (·.todo [.param callee frame p given])
      (Parameters.valueOf callee (eval call frame) p given) Single := by
  refine perform (fun _ _ _ _ => rfl) ?_
  obtain ⟨name, default⟩ := p
  cases given with
  | some v => exact pure v
  | none =>
    cases default with
    | some e => exact (expr hcall frame e).taken
    | none => exact raise _

lemma complete (hcall : FollowsCalls env left call) (callee : String) (frame : FrameId)
    (filled : List Parameters.Filled) :
    Evaluates env left (·.todo (filled.map fun (p, given) => .param callee frame p given))
      (Parameters.complete callee (eval call frame) filled)
      (Read (filled.map (·.1.name)).length fun vs => (filled.map (·.1.name)).zip vs) := by
  induction filled with
  | nil => exact none
  | cons f rest ih =>
    refine more (fun t ht => ?_) (parameter hcall callee frame f.1 f.2) ih fun _ _ => rfl
    obtain ⟨_, -, rfl⟩ := mem_map.mp ht
    trivial

/-- Errors get a place where they have come to the task that knows it. -/
lemma located {α : Type} {begin : Machine → Machine} {x : Eval α} {R : α → List Value → Prop}
    (h : Evaluates env left begin x R) (pos : Position) :
    Evaluates env left (fun m => begin (m.todo [.located pos])) (x.orAt pos) R := by
  intro w K vs cs hdepth
  refine .orAt ((h w (.located pos :: K) vs cs hdepth).mono (fun a w' hw => ?_) fun e w' hsteps =>
    hsteps.tail rfl)
  obtain ⟨hw, out, hR, hsteps⟩ := hw
  exact ⟨hw, out, hR, hsteps.tail rfl⟩

/-- To give the parameters of a call their values. If that fails, the call is over. -/
lemma supply (hcall : FollowsCalls env left call) (c : Call) (args : Arguments) (w : World)
    (K : List Task) (vs : List Value) (cs : List (List (Geometry Float)))
    (hdepth : w.depth + left = env.host.settings.maxDepth) :
    ((bindParameters c.name c.params args (eval call c.home)).orAt c.pos).Holds w
      (fun bound w' => w'.depth = w.depth ∧ ∃ names given specials, given.length = names.length ∧
        bound = names.zip given ++ specials ∧
        StepsTo env ((running w K vs cs).supply c args)
          ((running w' (.start c names specials :: K) vs cs).give given.reverse))
      fun e w' => StepsTo env ((running w K vs cs).supply c args) (failing w'.closeCall K e) := by
  unfold bindParameters Machine.supply
  cases Parameters.prepare c.name c.params args with
  | error e => exact .head rfl (.head rfl .refl)
  | ok prepared =>
    obtain ⟨filled, specials⟩ := prepared
    have hbound :
      Evaluates env left (·.todo (filled.map fun (p, given) => .param c.name c.home p given))
        (do return (← Parameters.complete c.name (eval call c.home) filled) ++ specials)
        (Read (filled.map (·.1.name)).length fun vs => (filled.map (·.1.name)).zip vs ++
          specials) := by
      refine (complete hcall c.name c.home filled).map ?_
      rintro _ _ ⟨given, hlength, rfl, rfl⟩
      exact ⟨given, hlength, rfl, rfl⟩
    -- the body is waiting behind the task that knows the place of the call
    have hsteps := hbound.located c.pos w (.start c (filled.map (·.1.name)) specials :: K)
      vs cs hdepth
    simp only [Machine.todo, cons_append, nil_append] at hsteps
    simp only [Machine.todo, append_assoc, cons_append, nil_append]
    refine hsteps.mono ?_ fun e w' h => h.tail rfl
    rintro _ w' ⟨hw, _, ⟨given, hlength, rfl, rfl⟩, h⟩
    exact ⟨hw, _, given, specials, hlength, rfl, h⟩

end Evaluates

lemma enter_of_full (hfull : w.depth + 0 = env.host.settings.maxDepth) (c : Call) (args : Arguments)
    (K : List Task) (vs : List Value) (cs : List (List (Geometry Float))) :
    (running w K vs cs).enter env c args = failing w K (tooDeep env c.name c.pos) :=
  if_pos (Nat.le_of_eq hfull.symm)

/-- Below the limit a call is counted. -/
lemma enter_of_room {left : Nat} (hroom : w.depth + (left + 1) = env.host.settings.maxDepth)
    (c : Call) (args : Arguments) (K : List Task) (vs : List Value)
    (cs : List (List (Geometry Float))) :
    (running w K vs cs).enter env c args = (running (w.openCall c.name) K vs cs).supply c args :=
  if_neg (show ¬env.host.settings.maxDepth ≤ w.depth by omega)

lemma move_start {c : Call} {names : List String} {given : List Value}
    (hgiven : given.length = names.length) (specials : List (String × Value)) (w : World)
    (K : List Task) (vs : List Value) (cs : List (List (Geometry Float))) :
    ((running w (.start c names specials :: K) vs cs).give given.reverse).move env =
      .step ((running w K vs cs).inside c.home (some c) fun id m =>
        c.begin (m.write id (.values (names.zip given ++ specials))) id) := by
  have h := (running w K vs cs).withOperands_give hgiven fun vs m =>
    m.inside c.home (some c) fun id m =>
      c.begin (m.write id (.values (names.zip vs ++ specials))) id
  exact congrArg Move.step h

namespace Evaluates

variable {env : Environment} {left : Nat} {call : CallFunction}

lemma tooDeep {α : Type} {R : α → List Value → Prop} (c : Call) (args : Arguments) :
    Evaluates env 0 (fun m => m.enter env c args) (throw (tooDeep env c.name c.pos)) R := by
  intro w K vs cs hdepth
  show StepsTo env ((running w K vs cs).enter env c args) _
  rw [enter_of_full hdepth]
  exact .refl

lemma closure (hcall : FollowsCalls env left call) (closure : FunctionClosure) (site : CallSite)
    (args : Arguments) :
    Evaluates env (left + 1) (fun m => m.enter env (.function closure site) args)
      (callClosure call closure site args) Single := by
  intro w K vs cs hdepth
  have hopen : (w.openCall site.name).depth + left = env.host.settings.maxDepth := by
    show w.depth + 1 + left = _
    omega
  dsimp only
  rw [enter_of_room hdepth]
  refine Eval.Holds.inCall
    ((supply hcall (.function closure site) args (w.openCall site.name) K vs cs hopen).bind ?_)
  rintro _ w₁ ⟨hw₁, names, given, specials, hlength, rfl, hsteps⟩
  refine Eval.Holds.inBlock ?_
  have hbody := (expr hcall (w₁.openInside closure.frame).1 closure.definition.body).taken
    ((w₁.openInside closure.frame).2.write (w₁.openInside closure.frame).1
      (.values (names.zip given ++ specials)))
    (.leave (w₁.openInside closure.frame).1 (some (.function closure site)) :: K) vs cs
    (hw₁ ▸ hopen)
  have hstart := hsteps.tail (move_start hlength specials w₁ K vs cs)
  -- the frame and the call are left in one step, whether there is a value or an error
  refine hbody.mono (fun v w₂ h => ?_) fun e w₂ h => ?_
  · obtain ⟨hw₂, _, rfl, hvalue⟩ := h
    refine ⟨?_, [v], rfl, (hstart.trans hvalue).tail rfl⟩
    show w₂.depth - 1 = w.depth
    have : w₂.depth = w.depth + 1 := hw₂.trans hw₁
    omega
  · exact (hstart.trans h).tail rfl

end Evaluates

lemma follows_callNamed {left : Nat} {own : FunctionClosure → CallSite → Arguments → Eval Value}
    (hown : ∀ closure site args, Evaluates env left
      (fun m => m.enter env (.function closure site) args) (own closure site args) Single) :
    FollowsCalls env left (callNamed env own) := by
  intro frame site args
  refine .compute (.lookUp frame _) fun callee => ?_
  match callee with
  | some (.own closure) => exact hown closure site args
  | some (.builtin f) => exact .value (.reporting _)
  | none => exact .raise _

/-- Calls of functions are followed, however deep they go. -/
theorem follows_callFunction (env : Environment) (left : Nat) :
    FollowsCalls env left (callFunction env left) := by
  induction left with
  | zero => exact follows_callNamed fun closure site args => .tooDeep (.function closure site) args
  | succ left ih => exact follows_callNamed (Evaluates.closure ih)

end SolidScript
