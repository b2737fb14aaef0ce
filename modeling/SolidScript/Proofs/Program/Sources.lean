import Mathlib
import SolidScript.Proofs.Grammar.Programs
import SolidScript.Proofs.Program.Classification
import SolidScript.Proofs.Program.Nodes
import SolidScript.Proofs.Program.Writable

/-!
# Programs from source texts

The nodes that the grammar leaves are those that programs are made of: a tree that comes from a
source text can only have the mistake that a parameter or a keyword is repeated, and what it gives
can be written down again.
-/

namespace SolidScript

open Grammar List OfTree

open Grammar (Name Peg Parses programs)
open Grammar.Words (IsName IsNumeral)

/-! ## Mistakes -/

/-- A parameter or a keyword is repeated. -/
def CompileError.IsDuplicate (e : CompileError) : Prop :=
  ∃ name pos, e = .argumentBinding ("duplicate parameter `" ++ name ++ "`") pos ∨
    e = .argumentBinding ("keyword argument `" ++ name ++ "` given more than once") pos

/-- A mistake of that kind, and not a node that was taken apart too far. -/
def Stop.IsDuplicate : Stop → Prop
  | .mistake e => e.IsDuplicate
  | .outOfRange _ => False

namespace OfTree

open Recording (Ends)

def Failure.IsDuplicate : Failure → Prop
  | .here e => e.IsDuplicate
  | .within e => e.IsDuplicate

/-- The computation gives something with `Q`, or there is a repeated parameter or keyword. -/
abbrev Accepts {α : Type} (Q : α → Prop) (x : Recording Stop α) : Prop :=
  Ends CompileError.IsDuplicate Stop.IsDuplicate Q x

abbrev Admits {α : Type} (Q : α → Prop) (x : Recording Failure α) : Prop :=
  Ends CompileError.IsDuplicate Failure.IsDuplicate Q x

section

variable {α : Type} {Q : α → Prop}

lemma admits_own {x : Recording Stop α} (h : Accepts Q x) : Admits Q (own x) := .adapt h

lemma admits_owned {x : Recording Stop α} (h : Accepts Q x) : Admits Q (owned x) := .adapt h

/-- A statement that is left out leaves its mistake as an issue. -/
lemma accepts_kept {Q : Program → Prop} (hnil : Q []) {x : Recording Failure Program}
    (h : Admits Q x) : Accepts Q (kept x) := by
  obtain ⟨result, notes⟩ := x
  cases result with
  | ok block =>
    refine ⟨fun a ha => ?_, fun _ he => (nomatch he), h.records⟩
    cases ha
    exact h.gives block rfl
  | error failure =>
    have hfailure := h.fails failure rfl
    rcases failure with e | (e | node)
    · refine ⟨fun _ ha => (nomatch ha), fun e' he => ?_, h.records⟩
      cases he
      exact hfailure
    · refine ⟨fun a ha => ?_, fun _ he => (nomatch he), fun e' he => ?_⟩
      · cases ha
        exact hnil
      · rcases Array.mem_push.mp he with he | rfl
        · exact h.records e' he
        · exact hfailure
    · exact hfailure.elim

end

/-! ## What nodes are good for -/

/-- Numbers that have a numeral. -/
def HasNumeral (x : Float) : Prop := ∃ s, Writes s x

abbrev WritableExpr (e : Expr) : Prop := e.Writable HasNumeral

abbrev WritableStatement (stmt : Statement) : Prop := stmt.Writable HasNumeral

/-- Statements that can be written. -/
abbrev WritableBlock (block : Program) : Prop := ∀ stmt ∈ block, WritableStatement stmt

/-- Arguments that can be written where these keywords have been given. -/
structure WritableArguments (seen : List String) (args : List Argument) : Prop where
  keywords : ∀ a ∈ args, ∀ n ∈ a.name, IsName n
  values : ∀ a ∈ args, WritableExpr a.value
  nodup : (args.filterMap Argument.name).Nodup
  fresh : ∀ n ∈ args.filterMap Argument.name, n ∉ seen

/-- The node has a name, in its first child of kind `ident`. -/
def HasName (t : Tree) : Prop := ∃ child, t.child? "ident" = some child ∧ IsName child.text

/-- The kinds of the nodes that statements leave. -/
def statementKinds : List String :=
  ["empty_stmt", "block", "module_def", "function_def", "if_stmt", "for_stmt", "assignment",
    "operator_call"]

/-- A node that stands for an expression. -/
def IsExpr (t : Tree) : Prop := Accepts WritableExpr (expr t)

/-- A node that stands for statements, alone or with those inside of it. -/
structure IsStatement (t : Tree) : Prop where
  kind : t.kind ∈ statementKinds
  alone : ∀ known, Admits WritableBlock (statement known t)
  inside : t.kind = "block" → ∀ known, Accepts WritableBlock (inside known t)

/-- A node with a name and a value. -/
structure IsNamed (t : Tree) : Prop where
  name : HasName t
  value : Accepts WritableExpr (value t)

/-- A parameter with an optional default. -/
structure IsParam (t : Tree) : Prop where
  name : HasName t
  default : Accepts (fun found => ∀ e ∈ found, WritableExpr e) (firstExpr t.children)

/-- What the nodes of a rule are good for. -/
def Role : Name → Tree → Prop
  | .program, t => ∀ known, Accepts WritableBlock (statements known t.children)
  | .identifier, t => IsName t.text
  | .eqOp, t | .cmpOp, t | .addOp, t | .mulOp, t => (operation? t.text).isSome
  | .unaryOp, _ | .modifier, _ | .stringInner, _ => True
  | .param, t => IsParam t
  | .params, t => ∀ u ∈ t.children, u.kind = "param" ∧ IsParam u
  | .forBinding, t | .namedArg, t => IsNamed t
  | .index, t => Accepts WritableExpr (value t)
  | .argument, t => ∀ node seen, Accepts
      (fun arg => (∀ n ∈ arg.name, IsName n) ∧ WritableExpr arg.value ∧ ∀ n ∈ arg.name, n ∉ seen)
      (argument node seen t.children)
  | .callArgs, t => ∀ seen, Accepts (WritableArguments seen) (arguments seen t.children)
  | .statement, t | .emptyStatement, t | .block, t | .moduleDef, t | .functionDef, t
  | .ifStatement, t
  | .forStatement, t | .assignment, t | .operatorCall, t => IsStatement t
  | _, t => IsExpr t

/-- The nodes that a rule leaves: none for a keyword, otherwise one. -/
def Left (r : Name) (ns : List Tree) : Prop :=
  match (programs.rules r).form with
  | .mark => ns = []
  | .node => ∃ t, ns = [t] ∧ t.kind = r.kind ∧ Role r t
  | .silent => ∃ t, ns = [t] ∧ Role r t

/-- The nodes that the body of a rule leaves. -/
abbrev Inside (r : Name) (ns : List Tree) : Prop := (programs.rules r).body.Leaves Left ns

lemma Left.node {r : Name} {ns : List Tree} (hr : (programs.rules r).form = .node) (h : Left r ns) :
    ∃ t, ns = [t] ∧ t.kind = r.kind ∧ Role r t := by
  unfold Left at h
  rw [hr] at h
  exact h

/-! ## Parts of nodes -/

section

variable {t : Tree} {ts : List Tree}

/-- A name is found where there is one. -/
lemma accepts_name (h : HasName t) : Accepts IsName (name t) := by
  obtain ⟨child, hchild, hname⟩ := h
  unfold name
  rw [hchild]
  exact .pure hname

lemma accepts_exprs (h : ∀ t ∈ ts, IsExpr t) :
    Accepts (fun es => es.length = ts.length ∧ ∀ e ∈ es, WritableExpr e) (exprs ts) := by
  induction ts with
  | nil => exact .pure ⟨rfl, forall_mem_nil _⟩
  | cons t ts ih =>
    obtain ⟨ht, hts⟩ := forall_mem_cons.mp h
    rw [exprs]
    refine .bind ht fun e he => .bind (ih hts) fun es hes => .pure ⟨?_, ?_⟩
    · rw [length_cons, length_cons, hes.1]
    · exact forall_mem_cons.mpr ⟨he, hes.2⟩

/-- Further children do not matter once an expression is found. -/
lemma accepts_firstExpr_cons (hkind : t.kind = "expr") (h : IsExpr t) :
    Accepts (fun found => ∃ e, found = some e ∧ WritableExpr e) (firstExpr (t :: ts)) := by
  rw [firstExpr, if_pos hkind]
  exact .map (h.mono (fun e he => ⟨e, rfl, he⟩) fun _ he => he)

/-- A value is the first expression among the children. -/
lemma accepts_value
    (h : Accepts (fun found => ∃ e, found = some e ∧ WritableExpr e) (firstExpr t.children)) :
    Accepts WritableExpr (value t) := by
  obtain ⟨kind, text, pos, children⟩ := t
  rw [value]
  refine .bind h fun found hfound => ?_
  obtain ⟨e, rfl, he⟩ := hfound
  exact .pure he

/-! ### Lists -/

/-- Any number of parts, each of which leaves one node. -/
lemma forall_of_leaves_star {e : Peg Name} {P : Tree → Prop} (h : (Peg.star e).Leaves Left ts)
    (he : ∀ xs, e.Leaves Left xs → ∃ t, xs = [t] ∧ P t) : ∀ t ∈ ts, P t := by
  obtain ⟨xss, rfl, hxss⟩ := h
  intro t ht
  obtain ⟨xs, hxs, ht⟩ := mem_flatten.mp ht
  obtain ⟨u, rfl, hu⟩ := he xs (hxss xs hxs)
  exact mem_singleton.mp ht ▸ hu

variable {r : Name} (hr : (programs.rules r).form = .node)

include hr

lemma forall_of_leaves_symbols {s : String}
    (h : (Peg.star (.seq (Rules.sym s) (.rule r))).Leaves Left ts) :
    ∀ t ∈ ts, t.kind = r.kind ∧ Role r t := by
  refine forall_of_leaves_star h fun xs hxs => ?_
  obtain ⟨_, us, rfl, rfl, hus⟩ := hxs
  exact Left.node hr hus

lemma forall_of_leaves_commaList (h : (Rules.commaList r).Leaves Left ts) :
    ∀ t ∈ ts, t.kind = r.kind ∧ Role r t := by
  rcases h with ⟨xs, _, rfl, hxs, ys, zs, rfl, hys, hzs⟩ | rfl
  · have hzs : zs = [] := by
      rcases hzs with rfl | rfl
      · rfl
      · rfl
    obtain ⟨t, rfl, ht⟩ := Left.node hr hxs
    rw [hzs, append_nil]
    exact forall_mem_cons.mpr ⟨ht, forall_of_leaves_symbols hr hys⟩
  · exact forall_mem_nil _

end

/-! ## Expressions -/

section

variable {N : Float → Prop} {pos : Position} {a b c : Expr}

/-- An expression without parts can be written if it is proper. -/
lemma writable_leaf {e : Expr} (hproper : e.Proper N) (hparts : e.parts = []) : e.Writable N :=
  ⟨hproper, by rw [hparts]; exact forall_mem_nil _⟩

lemma writable_signed {op : Tree} (ha : a.Writable N) : (signed op a).Writable N := by
  unfold signed
  split
  · exact ⟨trivial, forall_mem_singleton.mpr ha⟩
  · exact ⟨trivial, forall_mem_singleton.mpr ha⟩
  · exact ha

lemma writable_operation {symbol : String} {join : Position → Expr → Expr → Expr}
    (h : operation? symbol = some join) (ha : a.Writable N) (hb : b.Writable N) :
    (join pos a b).Writable N := by
  have hparts : ∀ p ∈ [a, b], p.Writable N := by simp [ha, hb]
  unfold operation? at h
  split at h <;> cases h <;> exact ⟨trivial, hparts⟩

end

section

variable {text : String} {pos : Position} {ns : List Tree}

lemma isExpr_expr (h : Inside .expr ns) : IsExpr (.node "expr" text pos ns) := by
  obtain ⟨t, rfl, -, ht⟩ := h
  exact ht

/-- A conditional has three operands, or is its condition alone. -/
lemma isExpr_ternary (h : Inside .ternary ns) : IsExpr (.node "ternary" text pos ns) := by
  obtain ⟨_, _, rfl, ⟨c, rfl, -, hc⟩,
    ⟨_, _, rfl, rfl, _, _, rfl, ⟨a, rfl, -, ha⟩, _, _, rfl, rfl, b, rfl, -, hb⟩ | rfl⟩ := h
  · show Accepts WritableExpr (conditional _ [c, a, b])
    refine .bind hc fun c hc => .bind ha fun a ha => .bind hb fun b hb => .pure ⟨trivial, ?_⟩
    simp [Expr.parts, hc, ha, hb]
  · exact hc

lemma accepts_operands {join : Expr → Expr → Expr}
    (hjoin : ∀ a b, WritableExpr a → WritableExpr b → WritableExpr (join a b)) {left : Expr}
    (hleft : WritableExpr left) (h : ∀ t ∈ ns, IsExpr t) :
    Accepts WritableExpr (operands join left ns) := by
  induction ns generalizing left with
  | nil => exact .pure hleft
  | cons t ns ih =>
    obtain ⟨ht, hns⟩ := forall_mem_cons.mp h
    rw [operands]
    exact .bind ht fun right hright => ih (hjoin left right hleft hright) hns

/-- The two levels of operators that leave no node. -/
lemma accepts_joined {r : Name} (hr : (programs.rules r).form = .node)
    (hoperand : ∀ t, Role r t → IsExpr t) {s : String} {node : Tree} {join : Expr → Expr → Expr}
    (hjoin : ∀ a b, WritableExpr a → WritableExpr b → WritableExpr (join a b))
    (h : (Rules.leftChain r (Rules.sym s)).body.Leaves Left ns) :
    Accepts WritableExpr (joined node join ns) := by
  obtain ⟨_, ts, rfl, ht, hts⟩ := h
  obtain ⟨t, rfl, -, ht⟩ := Left.node hr ht
  refine .bind (hoperand t ht) fun left hleft => accepts_operands hjoin hleft fun u hu => ?_
  exact hoperand u (forall_of_leaves_symbols hr hts u hu).2

variable {node t : Tree}

/-- Operands behind known operators, two nodes at a time. -/
lemma accepts_chain {left : Expr} (hleft : WritableExpr left) {xss : List (List Tree)}
    (h : ∀ xs ∈ xss, ∃ op t, xs = [op, t] ∧ (operation? op.text).isSome ∧ IsExpr t) :
    Accepts WritableExpr (chain node left xss.flatten) := by
  induction xss generalizing left with
  | nil => exact .pure hleft
  | cons xs xss ih =>
    obtain ⟨⟨op, t, rfl, hop, ht⟩, hxss⟩ := forall_mem_cons.mp h
    change Accepts WritableExpr (chain node left (op :: t :: xss.flatten))
    rw [chain]
    refine .bind ht fun right hright => ?_
    obtain ⟨join, hjoin⟩ := Option.isSome_iff_exists.mp hop
    rw [hjoin]
    exact ih (writable_operation hjoin hleft hright) hxss

/-- The four levels of operators that stand in the tree. -/
lemma accepts_chained (r q : Name) (h : (Rules.leftChain r (.rule q)).body.Leaves Left ns)
    (hr : (programs.rules r).form = .node := by rfl)
    (hq : (programs.rules q).form = .node := by rfl)
    (hoperand : ∀ t, Role r t → IsExpr t := by exact fun _ => id)
    (hoperator : ∀ t, Role q t → (operation? t.text).isSome := by exact fun _ => id) :
    Accepts WritableExpr (chained node ns) := by
  obtain ⟨_, _, rfl, ht, xss, rfl, hxss⟩ := h
  obtain ⟨t, rfl, -, ht⟩ := Left.node hr ht
  refine .bind (hoperand t ht) fun left hleft => accepts_chain hleft fun xs hxs => ?_
  obtain ⟨_, _, rfl, hop, hu⟩ := hxss xs hxs
  obtain ⟨op, rfl, -, hop⟩ := Left.node hq hop
  obtain ⟨u, rfl, -, hu⟩ := Left.node hr hu
  exact ⟨op, u, rfl, hoperator op hop, hoperand u hu⟩

/-- The operand stands behind all signs, so there is one. -/
lemma accepts_signs (ht : IsExpr t) (ops : List Tree) :
    Accepts WritableExpr (signs node (ops ++ [t])) := by
  induction ops with
  | nil => exact ht
  | cons op ops ih =>
    obtain ⟨u, us, hus⟩ : ∃ u us, ops ++ [t] = u :: us :=
      exists_cons_of_ne_nil (append_ne_nil_of_right_ne_nil ops (cons_ne_nil t []))
    rw [hus] at ih
    rw [cons_append, hus, signs]
    exact .bind ih fun e he => .pure (writable_signed he)

/-- Signs stand in front of an operand. -/
lemma isExpr_unary (h : Inside .unary ns) : IsExpr (.node "unary" text pos ns) := by
  obtain ⟨ops, _, rfl, -, t, rfl, -, ht⟩ := h
  exact accepts_signs ht ops

lemma isExpr_power (h : Inside .power ns) : IsExpr (.node "power" text pos ns) := by
  obtain ⟨_, _, rfl, ⟨a, rfl, -, ha⟩, ⟨_, _, rfl, rfl, b, rfl, -, hb⟩ | rfl⟩ := h
  · show Accepts WritableExpr (power _ [a, b])
    refine .bind ha fun a ha => .bind hb fun b hb => .pure ⟨trivial, ?_⟩
    simp [Expr.parts, ha, hb]
  · exact ha

/-- Any number of indices can stand behind an expression. -/
lemma accepts_indices {target : Expr} (htarget : WritableExpr target)
    (h : ∀ t ∈ ns, Accepts WritableExpr (value t)) : Accepts WritableExpr (indices target ns) := by
  induction ns generalizing target with
  | nil => exact .pure htarget
  | cons t ns ih =>
    obtain ⟨ht, hns⟩ := forall_mem_cons.mp h
    rw [indices]
    refine .bind ht fun i hi => ih ⟨trivial, ?_⟩ hns
    simp [Expr.parts, htarget, hi]

lemma isExpr_postfixed (h : Inside .postfixed ns) : IsExpr (.node "postfix" text pos ns) := by
  obtain ⟨_, ts, rfl, ⟨t, rfl, ht⟩, hts⟩ := h
  have hts : ∀ t ∈ ts, Accepts WritableExpr (value t) := fun t ht =>
    (forall_of_leaves_star hts (fun _ => Left.node (r := .index) rfl) t ht).2
  exact Recording.Ends.bind ht fun target htarget => accepts_indices htarget hts

lemma accepts_index (h : Inside .index ns) :
    Accepts WritableExpr (value (.node "index" text pos ns)) := by
  obtain ⟨_, _, rfl, rfl, _, _, rfl, ⟨t, rfl, hkind, ht⟩, rfl⟩ := h
  exact accepts_value (accepts_firstExpr_cons hkind ht)

variable {kind : String}

lemma hasName_cons (hkind : t.kind = "ident") (h : IsName t.text) :
    HasName (.node kind text pos (t :: ns)) :=
  ⟨t, child?_cons hkind, h⟩

lemma accepts_firstArguments (hkind : t.kind = "call_args") (h : Role .callArgs t) :
    Accepts (fun found => ∃ args, found = some args ∧ WritableArguments [] args)
      (firstArguments (t :: ns)) := by
  rw [firstArguments_cons hkind]
  exact .map ((h []).mono (fun args hargs => ⟨args, rfl, hargs⟩) fun _ he => he)

/-- Accepted arguments make a proper call. -/
lemma WritableArguments.properCall {name : String} {args : List Argument} (hname : IsName name)
    (h : WritableArguments [] args) : ProperCall name args := ⟨hname, h.keywords, h.nodup⟩

lemma isExpr_functionCall (h : Inside .functionCall ns) :
    IsExpr (.node "function_call" text pos ns) := by
  obtain ⟨_, _, rfl, ⟨callee, rfl, hkind, hname⟩, _, _, rfl, rfl, _, _, rfl,
    ⟨list, rfl, hlist, h⟩, rfl⟩ := h
  have hne : callee.kind ≠ "call_args" := by rw [hkind]; decide
  rw [IsExpr, expr_functionCall]
  refine .bind (accepts_name (hasName_cons hkind hname)) fun name hname => ?_
  change Accepts _ (firstArguments [callee, list] >>= _)
  rw [firstArguments_cons_of_ne hne]
  refine .bind (accepts_firstArguments hlist h) fun found hfound => ?_
  obtain ⟨args, rfl, hargs⟩ := hfound
  exact .pure ⟨hargs.properCall hname, forall_mem_map.mpr hargs.values⟩

/-- A range has two or three bounds. -/
lemma isExpr_range (h : Inside .range ns) : IsExpr (.node "range" text pos ns) := by
  obtain ⟨_, _, rfl, rfl, _, _, rfl, ⟨a, rfl, -, ha⟩, _, _, rfl, rfl, _, _, rfl, hrest⟩ := h
  obtain ⟨⟨b, rfl, -, hb⟩, _, _, rfl, hstep, rfl⟩ := hrest
  have ha : IsExpr a := ha
  have hb : IsExpr b := hb
  rcases hstep with ⟨_, _, rfl, rfl, c, rfl, -, hc⟩ | rfl
  · have hc : IsExpr c := hc
    refine Recording.Ends.bind (@accepts_exprs [a, b, c] (by simp [ha, hb, hc]))
      fun es ⟨hlength, hes⟩ => ?_
    obtain ⟨start, step, stop, rfl⟩ := length_eq_three.mp hlength
    exact .pure ⟨trivial, hes⟩
  · refine Recording.Ends.bind (@accepts_exprs [a, b] (by simp [ha, hb])) fun es ⟨hlength, hes⟩ =>
      ?_
    obtain ⟨start, stop, rfl⟩ := length_eq_two.mp hlength
    exact .pure ⟨trivial, hes⟩

lemma isExpr_vector (h : Inside .vector ns) : IsExpr (.node "vector" text pos ns) := by
  obtain ⟨_, _, rfl, rfl, ts, _, rfl, hts, rfl⟩ := h
  have hts : ∀ t ∈ ts, IsExpr t :=
    fun t ht => (forall_of_leaves_commaList (r := .expr) rfl hts t ht).2
  rw [nil_append, append_nil]
  exact Recording.Ends.bind (accepts_exprs hts) fun es hes => .pure ⟨trivial, hes.2⟩

lemma isExpr_reference (h : Inside .reference ns) : IsExpr (.node "variable" text pos ns) := by
  obtain ⟨t, rfl, hkind, hname⟩ := h
  exact Recording.Ends.bind (accepts_name (hasName_cons hkind hname)) fun name hname =>
    .pure (writable_leaf hname rfl)

lemma isExpr_number (h : IsNumeral text) : IsExpr (.node "number" text pos ns) := by
  obtain ⟨x, hx⟩ := Option.isSome_iff_exists.mp (Words.isSome_read? h)
  rw [IsExpr, expr_number, hx]
  exact .pure (writable_leaf ⟨text, h, hx⟩ rfl)

lemma isExpr_leaf {e : Expr} (hexpr : expr (.node kind text pos ns) = pure e)
    (hproper : e.Proper HasNumeral) (hparts : e.parts = []) : IsExpr (.node kind text pos ns) := by
  rw [IsExpr, hexpr]
  exact .pure (writable_leaf hproper hparts)

/-! ## Arguments and parameters -/

/-- A name and an expression behind it. -/
lemma isNamed_pair {id : Tree} (hkind : id.kind = "ident") (hname : IsName id.text)
    (hexpr : t.kind = "expr") (ht : IsExpr t) : IsNamed (.node kind text pos [id, t]) := by
  refine ⟨hasName_cons hkind hname, accepts_value ?_⟩
  change Accepts _ (firstExpr [id, t])
  rw [firstExpr_cons_of_ne (by rw [hkind]; decide)]
  exact accepts_firstExpr_cons hexpr ht

lemma role_namedArg (h : Inside .namedArg ns) : IsNamed (.node "named_arg" text pos ns) := by
  obtain ⟨_, _, rfl, ⟨id, rfl, hkind, hname⟩, _, _, rfl, rfl, _, _, rfl, rfl, t, rfl, hexpr, ht⟩ :=
    h
  exact isNamed_pair hkind hname hexpr ht

lemma role_forBinding (h : Inside .forBinding ns) : IsNamed (.node "for_binding" text pos ns) := by
  obtain ⟨_, _, rfl, ⟨id, rfl, hkind, hname⟩, _, _, rfl, rfl, t, rfl, hexpr, ht⟩ := h
  exact isNamed_pair hkind hname hexpr ht

lemma role_param (h : Inside .param ns) : IsParam (.node "param" text pos ns) := by
  obtain ⟨_, _, rfl, ⟨id, rfl, hkind, hname⟩, hdefault⟩ := h
  have hne : id.kind ≠ "expr" := by rw [hkind]; decide
  refine ⟨hasName_cons hkind hname, ?_⟩
  rcases hdefault with ⟨_, _, rfl, rfl, t, rfl, hexpr, ht⟩ | rfl
  · change Accepts _ (firstExpr [id, t])
    rw [firstExpr_cons_of_ne hne]
    refine (accepts_firstExpr_cons hexpr ht).mono (fun found hfound e he => ?_) fun _ he => he
    obtain ⟨e', rfl, he'⟩ := hfound
    cases he
    exact he'
  · change Accepts _ (firstExpr [id])
    rw [firstExpr_cons_of_ne hne]
    exact .pure fun _ he => nomatch he

lemma role_argument (h : Inside .argument ns) : Role .argument (.node "argument" text pos ns) := by
  intro node seen
  change Accepts _ (argument node seen ns)
  rcases h with ⟨t, rfl, hkind, ht⟩ | ⟨t, rfl, hkind, ht⟩
  · have ht : IsNamed t := ht
    rw [argument, if_pos (show t.kind = "named_arg" from hkind)]
    refine .bind (accepts_name ht.name) fun keyword hkeyword => ?_
    dsimp only
    split
    · exact .bind (.throw (E := Stop.IsDuplicate) ⟨keyword, t.pos, .inr rfl⟩) fun _ (h : False) =>
        h.elim
    · rename_i hseen
      refine .bind ht.value fun e he => .pure ⟨?_, he, ?_⟩
      · rintro n ⟨⟩
        exact hkeyword
      · rintro n ⟨⟩
        simpa using hseen
  · rw [argument, if_neg (by rw [hkind]; decide)]
    exact .bind ht fun e he => .pure ⟨fun _ hn => (nomatch hn), he, fun _ hn => (nomatch hn)⟩

lemma accepts_arguments (seen : List String)
    (h : ∀ t ∈ ns, t.kind = "argument" ∧ Role .argument t) :
    Accepts (WritableArguments seen) (arguments seen ns) := by
  induction ns generalizing seen with
  | nil =>
    refine .pure ⟨?_, ?_, nodup_nil, ?_⟩ <;> exact forall_mem_nil _
  | cons t ns ih =>
    obtain ⟨⟨hkind, ht⟩, hns⟩ := forall_mem_cons.mp h
    obtain ⟨kind, text, pos, children⟩ := t
    rw [arguments, if_pos (show kind = _ from hkind)]
    refine .bind (ht _ seen) fun arg ⟨hname, hvalue, hfresh⟩ => .bind (ih _ hns)
      fun args hargs => .pure ?_
    obtain ⟨hnodup, hfresh⟩ := nodup_keywords_cons hfresh hargs.nodup hargs.fresh
    exact ⟨forall_mem_cons.mpr ⟨hname, hargs.keywords⟩, forall_mem_cons.mpr ⟨hvalue, hargs.values⟩,
      hnodup, hfresh⟩

/-- Parameters that can be written where these have been given. -/
structure WritableParams (seen : List String) (params : List Param) : Prop where
  names : ∀ p ∈ params, IsName p.name
  defaults : ∀ p ∈ params, ∀ e ∈ p.default, WritableExpr e
  nodup : (params.map Param.name).Nodup
  fresh : ∀ n ∈ params.map Param.name, n ∉ seen

/-- Parameters fail only where a name is repeated. -/
lemma accepts_paramList (seen : List String) (h : ∀ t ∈ ns, t.kind = "param" ∧ IsParam t) :
    Accepts (WritableParams seen) (paramList seen ns) := by
  induction ns generalizing seen with
  | nil =>
    refine .pure ⟨?_, ?_, nodup_nil, ?_⟩ <;> exact forall_mem_nil _
  | cons t ns ih =>
    obtain ⟨⟨hkind, ht⟩, hns⟩ := forall_mem_cons.mp h
    rw [paramList, if_pos hkind]
    refine .bind (accepts_name ht.name) fun param hparam => ?_
    dsimp only
    split
    · exact .bind (.throw (E := Stop.IsDuplicate) ⟨param, t.pos, .inl rfl⟩) fun _ (h : False) =>
        h.elim
    · rename_i hseen
      refine .bind ht.default fun default hdefault => .bind (ih _ hns) fun params hparams =>
        .pure ⟨?_, ?_, ?_, ?_⟩
      · exact forall_mem_cons.mpr ⟨hparam, hparams.names⟩
      · exact forall_mem_cons.mpr ⟨hdefault, hparams.defaults⟩
      · refine nodup_cons.mpr ⟨fun hn => hparams.fresh param hn mem_cons_self, hparams.nodup⟩
      · refine forall_mem_cons.mpr ⟨by simpa using hseen, fun n hn hmem => ?_⟩
        exact hparams.fresh n hn (mem_cons_of_mem _ hmem)

/-- Sorting the parameters keeps them. -/
lemma properParams_sorted {params : List Param} (h : WritableParams [] params) :
    ProperParams (params.filter (·.default.isNone) ++ params.filter (·.default.isSome)) := by
  have hperm := perm_sorted params
  refine ⟨fun p hp => h.names p (hperm.mem_iff.mp hp), (hperm.map Param.name).nodup_iff.mpr h.nodup,
    ?_⟩
  have hnone : ∀ p : Param, (p.default.isNone && p.default.isSome) = false :=
    fun p => by cases p.default <;> rfl
  have hsome : ∀ p : Param, (p.default.isSome && p.default.isNone) = false :=
    fun p => by cases p.default <;> rfl
  simp only [filter_append, filter_filter, Bool.and_self, hnone, hsome, filter_false, append_nil,
    nil_append]

lemma accepts_params {list : Tree} (ht : t.kind = "ident") (hlist : list.kind = "params")
    (h : Role .params list) :
    Accepts (fun params => ProperParams params ∧ ∀ e ∈ params.filterMap Param.default,
      WritableExpr e)
      (params (.node kind text pos (t :: list :: ns))) := by
  rw [params, child?_cons_of_ne (by rw [ht]; decide), child?_cons hlist]
  refine .bind (accepts_paramList [] h) fun ps hps =>
    .pure ⟨properParams_sorted hps, fun e he => ?_⟩
  obtain ⟨p, hp, he⟩ := mem_filterMap.mp he
  refine hps.defaults p ?_ e he
  rcases mem_append.mp hp with hp | hp
  · exact (mem_filter.mp hp).1
  · exact (mem_filter.mp hp).1

/-! ## Statements -/

lemma writableBlock_nil : WritableBlock [] := forall_mem_nil _

lemma writableBlock_single {stmt : Statement} (h : WritableStatement stmt) : WritableBlock [stmt] :=
  forall_mem_singleton.mpr h

lemma accepts_statements (known : Known) (h : ∀ t ∈ ns, IsStatement t) :
    Accepts WritableBlock (statements known ns) := by
  induction ns with
  | nil => exact .pure writableBlock_nil
  | cons t ns ih =>
    obtain ⟨ht, hns⟩ := forall_mem_cons.mp h
    rw [statements]
    refine .bind (accepts_kept writableBlock_nil (ht.alone known)) fun ss hss => ?_
    exact .bind (ih hns) fun rest hrest => .pure (forall_mem_append.mpr ⟨hss, hrest⟩)

/-- A body is a block or a single statement. -/
lemma admits_body (known : Known)
    (h : IsStatement t) : Admits WritableBlock (body known t (inside · t) (statement · t)) := by
  have hhoist (block : Program) (hblock : WritableBlock block) :
      WritableBlock (Program.hoist block) :=
    fun stmt hstmt => hblock stmt (Program.mem_hoist.mp hstmt)
  refine admits_owned (.map ?_)
  split
  · rename_i hkind
    exact (h.inside hkind _).mono hhoist fun _ he => he
  · exact (accepts_kept writableBlock_nil (h.alone _)).mono hhoist fun _ he => he

/-- A statement that holds no statements by itself. -/
lemma isStatement_of_alone (hkind : kind ∈ statementKinds ∧ kind ≠ "block")
    (h : ∀ known, Admits WritableBlock (statement known (.node kind text pos ns))) :
    IsStatement (.node kind text pos ns) :=
  ⟨hkind.1, h, fun hblock => absurd hblock hkind.2⟩

lemma isStatement_emptyStatement : IsStatement (.node "empty_stmt" text pos ns) := by
  refine isStatement_of_alone (by decide) fun known => ?_
  exact Recording.Ends.pure writableBlock_nil

lemma accepts_statements_of_leaves {ts : List Tree} (known : Known)
    (h : (Peg.star (.rule .statement)).Leaves Left ts) :
    Accepts WritableBlock (statements known ts) :=
  accepts_statements known (forall_of_leaves_star h fun _ hxs => hxs)

lemma isStatement_block (h : Inside .block ns) : IsStatement (.node "block" text pos ns) := by
  obtain ⟨_, _, rfl, rfl, ts, _, rfl, hts, rfl⟩ := h
  rw [nil_append, append_nil]
  refine ⟨show "block" ∈ statementKinds by decide, fun known => ?_,
    fun _ known => accepts_statements_of_leaves known hts⟩
  rw [statement_block]
  exact admits_own (accepts_statements_of_leaves known hts)

lemma role_program (h : Inside .program ns) : Role .program (.node "program" text pos ns) := by
  obtain ⟨_, _, rfl, rfl, ts, _, rfl, hts, rfl⟩ := h
  intro known
  rw [nil_append, append_nil]
  exact accepts_statements_of_leaves known hts

lemma isStatement_assignment (h : Inside .assignment ns) :
    IsStatement (.node "assignment" text pos ns) := by
  obtain ⟨_, _, rfl, ⟨id, rfl, hkind, hname⟩, _, _, rfl, rfl, _, _, rfl, rfl, _, _, rfl,
    ⟨t, rfl, hexpr, ht⟩, rfl⟩ := h
  have hnamed : IsNamed (.node "assignment" text pos [id, t]) := isNamed_pair hkind hname hexpr ht
  refine isStatement_of_alone (by decide) fun known => ?_
  rw [statement_assignment]
  refine .bind (admits_own (accepts_name hnamed.name)) fun name hname => ?_
  refine .bind (admits_own hnamed.value) fun e he => .pure (writableBlock_single ⟨hname, ?_, ?_⟩)
  · exact forall_mem_singleton.mpr he
  · exact forall_mem_nil _

lemma isStatement_moduleDef (h : Inside .moduleDef ns) :
    IsStatement (.node "module_def" text pos ns) := by
  obtain ⟨_, _, rfl, rfl, _, _, rfl, ⟨id, rfl, hkind, hname⟩, _, _, rfl, rfl, _, _, rfl,
    ⟨list, rfl, hlist, hparams⟩, _, _, rfl, rfl, t, rfl, ht⟩ := h
  refine isStatement_of_alone (by decide) fun known => ?_
  rw [statement_moduleDef]
  refine .bind (admits_own (accepts_name (hasName_cons hkind hname))) fun name hname => ?_
  refine .bind (admits_own (accepts_params hkind hlist hparams)) fun params ⟨hproper, hdefaults⟩ =>
    ?_
  refine .bind (admits_body known ht) fun block hblock => .pure (writableBlock_single ?_)
  exact ⟨⟨hname, hproper⟩, hdefaults, hblock⟩

/-- A function has a name, parameters and a value. -/
lemma isStatement_functionDef (h : Inside .functionDef ns) :
    IsStatement (.node "function_def" text pos ns) := by
  obtain ⟨_, _, rfl, rfl, _, _, rfl, ⟨id, rfl, hkind, hname⟩, _, _, rfl, rfl, _, _, rfl,
    ⟨list, rfl, hlist, hparams⟩, _, _, rfl, rfl, _, _, rfl, rfl, _, _, rfl,
    ⟨t, rfl, hexpr, ht⟩, rfl⟩ := h
  have hvalue : Accepts WritableExpr (value (.node "function_def" text pos [id, list, t])) := by
    refine accepts_value ?_
    change Accepts _ (firstExpr [id, list, t])
    rw [firstExpr_cons_of_ne (by rw [hkind]; decide), firstExpr_cons_of_ne (by rw [hlist]; decide)]
    exact accepts_firstExpr_cons hexpr ht
  refine isStatement_of_alone (by decide) fun known => ?_
  rw [statement_functionDef]
  refine .bind (admits_own (accepts_name (hasName_cons hkind hname))) fun name hname => ?_
  refine .bind (admits_own (accepts_params hkind hlist hparams)) fun params ⟨hproper, hdefaults⟩ =>
    ?_
  refine .bind (admits_own hvalue) fun e he =>
    .pure (writableBlock_single ⟨⟨hname, hproper⟩, ?_, ?_⟩)
  · exact forall_mem_append.mpr ⟨hdefaults, forall_mem_singleton.mpr he⟩
  · exact forall_mem_nil _

lemma isStatement_ifStatement (h : Inside .ifStatement ns) :
    IsStatement (.node "if_stmt" text pos ns) := by
  obtain ⟨_, _, rfl, rfl, _, _, rfl, rfl, _, _, rfl, ⟨c, rfl, hexpr, hc⟩, _, _, rfl, rfl, _,
    rest, rfl, ⟨yes, rfl, hyes⟩, helse⟩ := h
  refine isStatement_of_alone (by decide) fun known => ?_
  rw [statement_ifStatement]
  refine .bind (admits_own (accepts_value (accepts_firstExpr_cons hexpr hc)))
    fun condition hcondition => ?_
  have hbranches :
    Admits (fun blocks : Program × Program => WritableBlock blocks.1 ∧ WritableBlock blocks.2)
      (branches known (.node "if_stmt" text pos (c :: yes :: rest)) (c :: yes :: rest)) := by
    rcases helse with ⟨_, _, rfl, rfl, no, rfl, hno⟩ | rfl
    · refine .bind (admits_body known hyes) fun yes hyes => ?_
      exact .bind (admits_body known hno) fun no hno => .pure ⟨hyes, hno⟩
    · exact .bind (admits_body known hyes) fun yes hyes => .pure ⟨hyes, writableBlock_nil⟩
  refine .bind hbranches fun blocks hblocks => .pure (writableBlock_single ⟨trivial, ?_, ?_⟩)
  · exact forall_mem_singleton.mpr hcondition
  · exact forall_mem_append.mpr hblocks

/-- Only nodes for loop variables are looked at. -/
lemma accepts_bindings (ht : t.kind ≠ "for_binding")
    (h : ∀ u ∈ ns, u.kind = "for_binding" ∧ IsNamed u) :
    Accepts (fun loops => loops.length = ns.length ∧ ∀ b ∈ loops, IsName b.name ∧
      WritableExpr b.domain)
      (bindings (ns ++ [t])) := by
  induction ns with
  | nil =>
    rw [nil_append, bindings, if_neg ht]
    exact .pure ⟨rfl, forall_mem_nil _⟩
  | cons u ns ih =>
    obtain ⟨⟨hkind, hu⟩, hns⟩ := forall_mem_cons.mp h
    rw [cons_append, bindings, if_pos hkind]
    refine .bind (accepts_name hu.name) fun name hname => .bind hu.value fun e he => ?_
    refine .bind (ih hns) fun loops hloops => ?_
    refine .pure ⟨?_, forall_mem_cons.mpr ⟨⟨hname, he⟩, hloops.2⟩⟩
    rw [length_cons, length_cons, hloops.1]

lemma isStatement_forStatement (h : Inside .forStatement ns) :
    IsStatement (.node "for_stmt" text pos ns) := by
  obtain ⟨_, _, rfl, rfl, _, _, rfl, rfl, _, _, rfl, ⟨u, rfl, hu⟩, us, _, rfl, hus, _, _, rfl, rfl,
    t, rfl, ht⟩ := h
  have hns : ∀ v ∈ u :: us, v.kind = "for_binding" ∧ IsNamed v :=
    forall_mem_cons.mpr ⟨hu, forall_of_leaves_symbols (r := .forBinding) rfl hus⟩
  have hkind : t.kind ≠ "for_binding" := fun hkind => absurd ht.kind (by rw [hkind]; decide)
  refine isStatement_of_alone (by decide) fun known => ?_
  rw [statement_forStatement]
  change Admits WritableBlock (own (bindings ((u :: us) ++ [t])) >>= _)
  refine .bind (admits_own (accepts_bindings hkind hns)) fun loops ⟨hlength, hloops⟩ => ?_
  have hne : loops ≠ [] := fun hnil => by
    rw [hnil] at hlength
    nomatch hlength
  dsimp only
  rw [if_neg (by simpa using hne)]
  change Admits WritableBlock (lastBody known _ ((u :: us) ++ [t]) >>= _)
  rw [lastBody_append]
  refine .bind (admits_body known ht) fun block hblock =>
    .pure (writableBlock_single ⟨⟨hne, ?_⟩, ?_, hblock⟩)
  · exact fun b hb => (hloops b hb).1
  · exact forall_mem_map.mpr fun b hb => (hloops b hb).2

lemma isStatement_operatorCall (h : Inside .operatorCall ns) :
    IsStatement (.node "operator_call" text pos ns) := by
  obtain ⟨ms, _, rfl, hms, _, _, rfl, ⟨id, rfl, hkind, hname⟩, _, _, rfl, rfl, _, _, rfl,
    ⟨list, rfl, hlist, hargs⟩, _, _, rfl, rfl, t, rfl, ht⟩ := h
  change IsStatement (.node "operator_call" text pos (ms ++ ([id, list] ++ [t])))
  rw [← append_assoc]
  -- with a mark in front or without, the name and the arguments are found
  have hparts : HasName (.node "operator_call" text pos (ms ++ [id, list] ++ [t])) ∧
      firstArguments (ms ++ [id, list] ++ [t]) = firstArguments [list, t] := by
    have hne : id.kind ≠ "call_args" := by rw [hkind]; decide
    rcases hms with ⟨m, rfl, hm, -⟩ | rfl
    · have hident : m.kind ≠ "ident" := by rw [hm]; decide
      have hcall : m.kind ≠ "call_args" := by rw [hm]; decide
      refine ⟨⟨id, ?_, hname⟩, ?_⟩
      · exact (child?_cons_of_ne hident).trans (child?_cons hkind)
      · exact (firstArguments_cons_of_ne hcall).trans (firstArguments_cons_of_ne hne)
    · exact ⟨hasName_cons hkind hname, firstArguments_cons_of_ne hne⟩
  obtain ⟨hhas, hfirst⟩ := hparts
  have hcallArguments :
      Accepts (WritableArguments [])
        (callArguments (.node "operator_call" text pos (ms ++ [id, list] ++ [t]))) := by
    unfold callArguments
    change Accepts _ (firstArguments (ms ++ [id, list] ++ [t]) >>= _)
    rw [hfirst]
    refine .bind (accepts_firstArguments hlist hargs) fun found hfound => ?_
    obtain ⟨args, rfl, hargs⟩ := hfound
    exact .pure hargs
  refine isStatement_of_alone (by decide) fun known => ?_
  rw [statement_operatorCall]
  split
  · exact .pure writableBlock_nil
  · refine .bind (admits_own (accepts_name hhas)) fun callee hcallee => ?_
    refine .bind (admits_own hcallArguments) fun args hargs => ?_
    rw [lastBody_append]
    refine .bind (admits_body known ht) fun block hblock => ?_
    have hcall := hargs.properCall hcallee
    have hvalues : ∀ e ∈ args.map Argument.value, WritableExpr e := forall_mem_map.mpr hargs.values
    split
    · refine .pure (writableBlock_single ⟨trivial, forall_mem_singleton.mpr ⟨hcall, hvalues⟩, ?_⟩)
      exact forall_mem_nil _
    · exact .pure (writableBlock_single ⟨hcall, hvalues, hblock⟩)

lemma isStatement_statement (h : Inside .statement ns) : ∃ t, ns = [t] ∧ IsStatement t := by
  rcases h with h | h | h | h | h | h | h | h <;> obtain ⟨t, rfl, -, ht⟩ := h <;> exact ⟨t, rfl, ht⟩

/-! ## All nodes -/

/-- The text of an operator is one of its symbols. -/
lemma textTo_mem_of_parses {symbols : List String} {j : Bool} {c d : Cursor} (hc : c.Sound)
    (h : Parses programs j (.one (Peg.oneOf (symbols.map Rules.sym))) c (some (d, ns))) :
    c.textTo d ∈ symbols := by
  have htext {s : String} (h : Parses programs j (.one (Rules.sym s)) c (some (d, ns))) :
      c.textTo d = s :=
    String.toList_inj.mp (Pattern.takes_literal.mp (h.takes hc))
  induction symbols with
  | nil =>
    obtain ⟨_, _, hfalse⟩ := Pattern.takes_char.mp (Parses.takes hc h)
    exact Bool.noConfusion hfalse
  | cons s symbols ih =>
    cases symbols with
    | nil => exact mem_singleton.mpr (htext h)
    | cons s' symbols =>
      cases h with
      | alt_left h => exact mem_cons.mpr (.inl (htext h))
      | alt_right _ h => exact mem_cons_of_mem _ (ih h)

/-- A node is good for what its rule says, as soon as the nodes inside of it are. -/
theorem left_of_inside {r : Name} {j : Bool} {c d : Cursor} (hc : c.Sound)
    (hparses : Parses programs j (.one (programs.rules r).body) c (some (d, ns)))
    (h : Inside r ns) : Left r (programs.leaves r c d ns) := by
  have hsymbol {symbols : List String} (h : ∀ s ∈ symbols, (operation? s).isSome = true)
      (hparses : Parses programs j (.one (Peg.oneOf (symbols.map Rules.sym))) c (some (d, ns))) :
      (operation? (c.textTo d)).isSome = true := h _ (textTo_mem_of_parses hc hparses)
  cases r
  case statement => exact isStatement_statement h
  case primary =>
    rcases h with h | h | h | h | h | h | h | h | ⟨_, _, rfl, rfl, _, _, rfl, h, rfl⟩ <;>
      obtain ⟨t, rfl, -, ht⟩ := h <;>
      exact ⟨t, rfl, ht⟩
  case wordModule | wordFunction | wordIf | wordElse | wordFor | finish => rfl
  all_goals refine ⟨_, rfl, rfl, ?_⟩
  case program => exact role_program h
  case emptyStatement => exact isStatement_emptyStatement
  case block => exact isStatement_block h
  case moduleDef => exact isStatement_moduleDef h
  case functionDef => exact isStatement_functionDef h
  case params => exact forall_of_leaves_commaList (r := .param) rfl h
  case param => exact role_param h
  case ifStatement => exact isStatement_ifStatement h
  case forStatement => exact isStatement_forStatement h
  case forBinding => exact role_forBinding h
  case assignment => exact isStatement_assignment h
  case operatorCall => exact isStatement_operatorCall h
  case callArgs => exact fun seen =>
    accepts_arguments seen (forall_of_leaves_commaList (r := .argument) rfl h)
  case argument => exact role_argument h
  case namedArg => exact role_namedArg h
  case expr => exact isExpr_expr h
  case ternary => exact isExpr_ternary h
  case logicOr =>
    exact accepts_joined (r := .logicAnd) rfl (fun _ => id)
      (fun _ _ ha hb => ⟨trivial, by simp [Expr.parts, ha, hb]⟩) h
  case logicAnd =>
    exact accepts_joined (r := .equality) rfl (fun _ => id)
      (fun _ _ ha hb => ⟨trivial, by simp [Expr.parts, ha, hb]⟩) h
  case equality => exact accepts_chained .comparison .eqOp h
  case comparison => exact accepts_chained .additive .cmpOp h
  case additive => exact accepts_chained .multiplicative .addOp h
  case multiplicative => exact accepts_chained .unary .mulOp h
  case unary => exact isExpr_unary h
  case power => exact isExpr_power h
  case postfixed => exact isExpr_postfixed h
  case index => exact accepts_index h
  case functionCall => exact isExpr_functionCall h
  case range => exact isExpr_range h
  case vector => exact isExpr_vector h
  case reference => exact isExpr_reference h
  case string | boolean | undefined => exact isExpr_leaf rfl trivial rfl
  case unaryOp | modifier | stringInner => trivial
  case number =>
    obtain ⟨m, x, hw, hm, hx⟩ := Words.numeral_of_takes (Parses.takes hc hparses)
    refine isExpr_number ?_
    rw [IsNumeral, hw]
    exact Words.takes_number hm hx fun _ hd => by cases hd
  case identifier => exact (Words.takes_identifier_iff.mp (Parses.takes hc hparses)).1
  case eqOp | cmpOp | addOp | mulOp => exact hsymbol (by decide) hparses

end

end OfTree

namespace Program

/-- The statements of a source text can be written again, or a parameter or keyword of it is
repeated. -/
theorem accepts_statements_of_parse {source : String} {tree : Tree} (h : parse source = .ok tree)
    (known : Known) : Accepts WritableBlock (statements known tree.nodes) := by
  obtain ⟨d, hparses⟩ := parse_eq_ok.mp h
  obtain ⟨t, ht, hkind, hrole⟩ : Left .program [tree] :=
    hparses.leaves left_of_inside (Cursor.sound_start _) d [tree] rfl
  cases ht
  rw [Tree.nodes, if_pos (show tree.kind = "program" from hkind)]
  exact hrole known

/-- A source text that the grammar accepts gives a program, or the mistake in it is a repeated
parameter or a repeated keyword; all issues on the way are of that kind, too. -/
theorem ofTree_parse {source : String} {tree : Tree} (h : Grammar.parse source = .ok tree)
    (functions : List String) :
    ((∃ program, (ofTree functions tree).1 = .ok program) ∨
      ∃ e, (ofTree functions tree).1 = .error (.mistake e) ∧ e.IsDuplicate) ∧
    ∀ e ∈ (ofTree functions tree).2, e.IsDuplicate := by
  have haccepts := accepts_statements_of_parse h (Known.union { functions } (.ofBlock tree.nodes))
  rw [ofTree_eq]
  refine ⟨?_, haccepts.records⟩
  have hfails := haccepts.fails
  generalize (statements (Known.union { functions } (.ofBlock tree.nodes))
    tree.nodes).run.value = result at hfails
  rcases result with (e | node) | block
  · exact .inr ⟨e, rfl, hfails _ rfl⟩
  · exact (hfails _ rfl).elim
  · exact .inl ⟨hoist block, rfl⟩

/-- A text that the grammar accepts although a parameter is repeated. -/
theorem ofTree_parse_repeated : ∃ tree, Grammar.parse "module m(a, a) cube(a);" = .ok tree ∧
    ((∃ program, (ofTree [] tree).1 = .ok program) ∨
      ∃ e, (ofTree [] tree).1 = .error (.mistake e) ∧ e.IsDuplicate) ∧
    ∀ e ∈ (ofTree [] tree).2, e.IsDuplicate := by
  have hsome : (Grammar.parse "module m(a, a) cube(a);").toOption.isSome = true := by cbv
  cases htree : Grammar.parse "module m(a, a) cube(a);" with
  | error e =>
    rw [htree] at hsome
    exact Bool.noConfusion hsome
  | ok tree => exact ⟨tree, rfl, ofTree_parse htree []⟩

end Program

end SolidScript
