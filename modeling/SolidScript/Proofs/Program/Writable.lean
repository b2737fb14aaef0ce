import Mathlib.Data.List.Nodup
import SolidScript.Program.Basic
import SolidScript.Proofs.Grammar.Words

/-!
# Programs that can be written

A program can be written down if its names are names, its numbers have numerals, no keyword and no
parameter is repeated, parameters without a default come first, and loops have variables.
-/

namespace SolidScript

open List

open Grammar.Words (IsName IsNumeral)

/-! ## Expressions -/

/-- The expressions that an expression is made of. -/
def Expr.parts : Expr → List Expr
  | number _ _ => []
  | string _ _ => []
  | bool _ _ => []
  | undefined _ => []
  | var _ _ => []
  | vector _ items => items
  | index _ target i => [target, i]
  | binary _ _ left right => [left, right]
  | negate _ operand => [operand]
  | not _ operand => [operand]
  | compare _ _ left right => [left, right]
  | and _ left right => [left, right]
  | or _ left right => [left, right]
  | cond _ condition yes no => [condition, yes, no]
  | range _ start stop => [start, stop]
  | rangeBy _ start step stop => [start, step, stop]
  | call _ _ args => args.map Argument.value

/-- What is shown of an expression as soon as it is shown of its parts is shown of all
expressions. -/
theorem Expr.induction {P : Expr → Prop} (h : ∀ e, (∀ p ∈ e.parts, P p) → P e) : ∀ e, P e
  | number _ _ => h _ (forall_mem_nil _)
  | string _ _ => h _ (forall_mem_nil _)
  | bool _ _ => h _ (forall_mem_nil _)
  | undefined _ => h _ (forall_mem_nil _)
  | var _ _ => h _ (forall_mem_nil _)
  | vector _ items => h _ (all items)
  | index _ target i => h _ (by simp [parts, induction h target, induction h i])
  | binary _ _ left right => h _ (by simp [parts, induction h left, induction h right])
  | negate _ operand => h _ (by simp [parts, induction h operand])
  | not _ operand => h _ (by simp [parts, induction h operand])
  | compare _ _ left right => h _ (by simp [parts, induction h left, induction h right])
  | and _ left right => h _ (by simp [parts, induction h left, induction h right])
  | or _ left right => h _ (by simp [parts, induction h left, induction h right])
  | cond _ condition yes no =>
    h _ (by simp [parts, induction h condition, induction h yes, induction h no])
  | range _ start stop => h _ (by simp [parts, induction h start, induction h stop])
  | rangeBy _ start step stop =>
    h _ (by simp [parts, induction h start, induction h step, induction h stop])
  | call _ _ args => h _ (forall_mem_map.mpr (values args))
where
  all : ∀ es : List Expr, ∀ e ∈ es, P e
    | [] => forall_mem_nil _
    | e :: es => forall_mem_cons.mpr ⟨induction h e, all es⟩
  values : ∀ args : List Argument, ∀ a ∈ args, P a.value
    | [] => forall_mem_nil _
    | ⟨_, value⟩ :: args => forall_mem_cons.mpr ⟨induction h value, values args⟩

/-- A call whose callee and keywords are names and which repeats no keyword. -/
structure ProperCall (name : String) (args : List Argument) : Prop where
  name : IsName name
  keywords : ∀ a ∈ args, ∀ n ∈ a.name, IsName n
  nodup : (args.filterMap Argument.name).Nodup

/-- What an expression itself must fulfil, where numbers must fulfil `N`. -/
def Expr.Proper (N : Float → Prop) : Expr → Prop
  | number _ x => N x
  | var _ name => IsName name
  | call _ name args => ProperCall name args
  | _ => True

/-- An expression that is proper at every level. -/
inductive Expr.Writable (N : Float → Prop) : Expr → Prop where
  | mk {e : Expr} (proper : e.Proper N) (parts : ∀ p ∈ e.parts, p.Writable N) : e.Writable N

/-- The number stands in the expression. -/
inductive Expr.HasNumber (x : Float) : Expr → Prop where
  | here (pos : Position) : Expr.HasNumber x (.number pos x)
  | inside {e p : Expr} (hp : p ∈ e.parts) (h : p.HasNumber x) : e.HasNumber x

namespace Expr.Writable

variable {N M : Float → Prop} {e : Expr}

lemma proper (h : e.Writable N) : e.Proper N := by
  cases h
  assumption

lemma part (h : e.Writable N) : ∀ p ∈ e.parts, p.Writable N := by
  cases h
  assumption

/-- All its numbers satisfy `N`. -/
lemma of_hasNumber (h : e.Writable N) {x : Float} (hx : e.HasNumber x) : N x := by
  induction hx with
  | here pos => exact h.proper
  | inside hp _ ih => exact ih (h.part _ hp)

/-- Only the numbers that there are matter. -/
lemma imp (h : e.Writable N) (hM : ∀ x, e.HasNumber x → M x) : e.Writable M := by
  induction h with
  | @mk e hproper _ ih =>
    refine ⟨?_, fun p hp => ih p hp fun x hx => hM x (.inside hp hx)⟩
    cases e with
    | number pos x => exact hM x (.here pos)
    | _ => exact hproper

end Expr.Writable

/-! ## Statements -/

namespace Statement

/-- The statements in the blocks of a statement. -/
def parts : Statement → List Statement
  | assign _ _ _ => []
  | evaluate _ _ => []
  | invoke _ _ _ body => body
  | defineModule _ m => m.body
  | defineFunction _ _ => []
  | branch _ _ yes no => yes ++ no
  | loop _ _ body => body

/-- The expressions of a statement itself. -/
def exprs : Statement → List Expr
  | assign _ _ value => [value]
  | evaluate _ value => [value]
  | invoke _ _ args _ => args.map Argument.value
  | defineModule _ m => m.params.filterMap Param.default
  | defineFunction _ f => f.params.filterMap Param.default ++ [f.body]
  | branch _ condition _ _ => [condition]
  | loop _ bindings _ => bindings.map Binding.domain

end Statement

/-- What is shown of a statement as soon as it is shown of those in its blocks is shown of all
statements. -/
theorem Statement.induction {P : Statement → Prop}
    (h : ∀ stmt, (∀ part ∈ stmt.parts, P part) → P stmt) : ∀ stmt, P stmt
  | assign _ _ _ => h _ (forall_mem_nil _)
  | evaluate _ _ => h _ (forall_mem_nil _)
  | invoke _ _ _ body => h _ (all body)
  | defineModule _ ⟨_, _, body⟩ => h _ (all body)
  | defineFunction _ _ => h _ (forall_mem_nil _)
  | branch _ _ yes no => h _ (forall_mem_append.mpr ⟨all yes, all no⟩)
  | loop _ _ body => h _ (all body)
where
  all : ∀ block : List Statement, ∀ stmt ∈ block, P stmt
    | [] => forall_mem_nil _
    | stmt :: rest => forall_mem_cons.mpr ⟨induction h stmt, all rest⟩

/-- Parameters with different names, those without a default first. -/
structure ProperParams (params : List Param) : Prop where
  names : ∀ p ∈ params, IsName p.name
  nodup : (params.map Param.name).Nodup
  sorted : params.filter (·.default.isNone) ++ params.filter (·.default.isSome) = params

namespace Statement

/-- What a statement itself must fulfil. -/
def Proper : Statement → Prop
  | assign _ name _ => IsName name
  | evaluate _ _ => True
  | invoke _ name args _ => ProperCall name args
  | defineModule _ m => IsName m.name ∧ ProperParams m.params
  | defineFunction _ f => IsName f.name ∧ ProperParams f.params
  | branch _ _ _ _ => True
  | loop _ bindings _ => bindings ≠ [] ∧ ∀ b ∈ bindings, IsName b.name

/-- A statement that is proper at every level. -/
inductive Writable (N : Float → Prop) : Statement → Prop where
  | mk {stmt : Statement} (proper : stmt.Proper) (exprs : ∀ e ∈ stmt.exprs, e.Writable N)
      (parts : ∀ part ∈ stmt.parts, part.Writable N) : stmt.Writable N

/-- The number stands in the statement. -/
inductive HasNumber (x : Float) : Statement → Prop where
  | expr {stmt : Statement} {e : Expr} (he : e ∈ stmt.exprs) (h : e.HasNumber x) : stmt.HasNumber x
  | inside {stmt part : Statement} (hpart : part ∈ stmt.parts) (h : part.HasNumber x) :
    stmt.HasNumber x

namespace Writable

variable {N M : Float → Prop} {stmt : Statement}

lemma proper (h : stmt.Writable N) : stmt.Proper := by
  cases h
  assumption

lemma expr (h : stmt.Writable N) : ∀ e ∈ stmt.exprs, e.Writable N := by
  cases h
  assumption

lemma part (h : stmt.Writable N) : ∀ part ∈ stmt.parts, part.Writable N := by
  cases h
  assumption

lemma of_hasNumber (h : stmt.Writable N) {x : Float} (hx : stmt.HasNumber x) : N x := by
  induction hx with
  | expr he hx => exact (h.expr _ he).of_hasNumber hx
  | inside hpart _ ih => exact ih (h.part _ hpart)

/-- Other numbers than those in it do not matter. -/
lemma imp (h : stmt.Writable N) (hM : ∀ x, stmt.HasNumber x → M x) : stmt.Writable M := by
  induction h with
  | mk hproper hexprs _ ih =>
    refine ⟨hproper, fun e he => (hexprs e he).imp fun x hx => hM x (.expr he hx),
      fun part hpart => ?_⟩
    exact ih part hpart fun x hx => hM x (.inside hpart hx)

end Writable

end Statement

/-- The text is a numeral and reads as the number. -/
def Writes (s : String) (x : Float) : Prop := IsNumeral s ∧ Decimal.read? s = some x

end SolidScript
