import SolidScript.Proofs.Program.Likeness
import SolidScript.Proofs.Program.Writable

/-!
# What trees of any kind are lowered to

What the lowering of a tree gives is well-formed at every level. What it stops with is a mistake, or
a node that was taken apart although it lacks its operand.
-/

namespace SolidScript

open List OfTree

/-! ## Well-formed programs -/

/-- A call that repeats no keyword, or an expression that is no call. -/
def Expr.KeywordsDiffer : Expr → Prop
  | call _ _ args => (args.filterMap Argument.name).Nodup
  | _ => True

/-- An expression that occurs in another one: it is that one, or occurs in one of its parts. -/
inductive Expr.IsPartOf (e : Expr) : Expr → Prop where
  | self : e.IsPartOf e
  | inside {whole part : Expr} (hpart : part ∈ whole.parts) (h : e.IsPartOf part) : e.IsPartOf whole

/-- No call in the expression repeats a keyword. -/
def Expr.WellFormed (e : Expr) : Prop := ∀ part : Expr, part.IsPartOf e → part.KeywordsDiffer

lemma Expr.WellFormed.of_parts {e : Expr} (he : e.KeywordsDiffer)
    (h : ∀ part ∈ e.parts, part.WellFormed) : e.WellFormed := by
  rintro _ (_ | ⟨hpart, hinner⟩)
  · exact he
  · exact h _ hpart _ hinner

namespace Statement

/-- The blocks of a statement. -/
def blocks : Statement → List Program
  | assign _ _ _ | evaluate _ _ | defineFunction _ _ => []
  | invoke _ _ _ body => [body]
  | defineModule _ m => [m.body]
  | branch _ _ yes no => [yes, no]
  | loop _ _ body => [body]

/-- What a statement itself must fulfil: a call repeats no keyword, an expression that stands alone
is a call, the parameters of a definition are in order, and a loop has variables. -/
def Regular : Statement → Prop
  | assign _ _ _ | branch _ _ _ _ => True
  | evaluate _ value => ∃ pos name args, value = .call pos name args
  | invoke _ _ args _ => (args.filterMap Argument.name).Nodup
  | defineModule _ m => ParamsInOrder m.params
  | defineFunction _ f => ParamsInOrder f.params
  | loop _ bindings _ => bindings ≠ []

end Statement

namespace Program

/-- A block of a program: the program itself, or a block of a statement in one of its blocks. -/
inductive HasBlock (program : Program) : Program → Prop where
  | whole : program.HasBlock program
  | inside {block inner : Program} {stmt : Statement} (h : program.HasBlock block)
    (hstmt : stmt ∈ block)
      (hinner : inner ∈ stmt.blocks) : program.HasBlock inner

/-- At every level definitions come first, statements are regular, and no call in their expressions
repeats a keyword. -/
structure WellFormed (program : Program) : Prop where
  hoisted (block : Program) (hblock : program.HasBlock block) : block.Hoisted
  regular (block : Program) (hblock : program.HasBlock block) (stmt : Statement)
    (hstmt : stmt ∈ block) : stmt.Regular
  exprs (block : Program) (hblock : program.HasBlock block) (stmt : Statement)
    (hstmt : stmt ∈ block) (e : Expr)
    (he : e ∈ stmt.exprs) : e.WellFormed

end Program

/-- A regular statement with well-formed parts. -/
structure Statement.WellFormed (stmt : Statement) : Prop where
  regular : stmt.Regular
  exprs : ∀ e ∈ stmt.exprs, e.WellFormed
  blocks : ∀ block ∈ stmt.blocks, Program.WellFormed block

namespace Program

/-- A block of a program is the program itself, or a block of a block of one of its statements. -/
lemma HasBlock.cases_outside {program block : Program} (h : program.HasBlock block) :
    block = program ∨ ∃ stmt ∈ program, ∃ inner ∈ stmt.blocks, HasBlock inner block := by
  induction h with
  | whole => exact .inl rfl
  | inside _ hstmt hinner ih =>
    rcases ih with rfl | ⟨outer, houter, b, hb, h⟩
    · exact .inr ⟨_, hstmt, _, hinner, .whole⟩
    · exact .inr ⟨outer, houter, b, hb, h.inside hstmt hinner⟩

/-- Well-formed statements are a well-formed program, once definitions come first. -/
lemma wellFormed_hoist {block : Program} (h : ∀ stmt ∈ block, stmt.WellFormed) :
    block.hoist.WellFormed := by
  have hall : ∀ stmt ∈ block.hoist, stmt.WellFormed := fun stmt hstmt => h stmt (mem_hoist.mp hstmt)
  refine ⟨fun b hb => ?_, fun b hb stmt hstmt => ?_, fun b hb stmt hstmt => ?_⟩
  all_goals rcases hb.cases_outside with rfl | ⟨outer, houter, inner, hinner, hb⟩
  · exact hoisted_hoist block
  · exact ((hall outer houter).blocks inner hinner).hoisted b hb
  · exact (hall stmt hstmt).regular
  · exact ((hall outer houter).blocks inner hinner).regular b hb stmt hstmt
  · exact (hall stmt hstmt).exprs
  · exact ((hall outer houter).blocks inner hinner).exprs b hb stmt hstmt

end Program

/-! ## The rules of well-formedness -/

/-- Expressions without parts are well-formed. -/
lemma wellFormed_leaf {e : Expr} (he : e.KeywordsDiffer) (hparts : e.parts = []) :
    e.WellFormed := by
  refine .of_parts he fun part hpart => ?_
  rw [hparts] at hpart
  nomatch hpart

lemma wellFormed_pair {e a b : Expr} (he : e.KeywordsDiffer) (hparts : e.parts = [a, b])
    (ha : a.WellFormed) (hb : b.WellFormed) : e.WellFormed := by
  refine .of_parts he ?_
  rw [hparts]
  exact forall_mem_cons.mpr ⟨ha, forall_mem_singleton.mpr hb⟩

lemma wellFormed_triple {e a b c : Expr} (he : e.KeywordsDiffer) (hparts : e.parts = [a, b, c])
    (ha : a.WellFormed) (hb : b.WellFormed) (hc : c.WellFormed) : e.WellFormed := by
  refine .of_parts he ?_
  rw [hparts]
  exact forall_mem_cons.mpr ⟨ha, forall_mem_cons.mpr ⟨hb, forall_mem_singleton.mpr hc⟩⟩

lemma forall_of_forall₂ {α β : Type} {P : α → Prop} {as : List α} {bs : List β}
    (h : Forall₂ (fun a _ => P a) as bs) : ∀ a ∈ as, P a := by
  induction h with
  | nil => exact nofun
  | cons h _ ih => exact forall_mem_cons.mpr ⟨h, ih⟩

section

variable {P : Expr → Prop}

/-- What holds of like arguments holds of their values. -/
lemma forall_value_of_forall₂ {args args' : List Argument}
    (h : Forall₂ (Argument.Like fun e _ => P e) args args') : ∀ e ∈ args.map Argument.value, P e :=
  forall_mem_map.mpr (forall_of_forall₂ (h.imp fun _ _ harg => harg.2))

lemma forall_domain_of_forall₂ {bs bs' : List Binding}
    (h : Forall₂ (Binding.Like fun e _ => P e) bs bs') : ∀ e ∈ bs.map Binding.domain, P e :=
  forall_mem_map.mpr (forall_of_forall₂ (h.imp fun _ _ hbinding => hbinding.2))

lemma forall_default_of_forall₂ {ps ps' : List Param}
    (h : Forall₂ (Param.Like fun e _ => P e) ps ps') : ∀ e ∈ ps.filterMap Param.default, P e := by
  have hdefaults : ∀ p ∈ ps, ∀ e ∈ p.default, P e := by
    refine forall_of_forall₂ (h.imp fun p p' ⟨_, hdefault⟩ => ?_)
    generalize p.default = default at hdefault
    generalize p'.default = default' at hdefault
    cases hdefault with
    | none => exact nofun
    | some h => exact fun _ he => Option.some.inj he ▸ h
  intro e he
  obtain ⟨p, hp, hdefault⟩ := mem_filterMap.mp he
  exact hdefaults p hp e hdefault

end

/-- Nodes that hold only some nodes, each with itself, and well-formed programs. -/
def wellFormedLikeness (S : Tree → Prop) : Likeness where
  tree t t' := t' = t ∧ ∀ node : Tree, node.IsPartOf t → S node
  place _ _ := True
  issue _ _ := True
  expr e _ := e.WellFormed
  statement stmt _ := stmt.WellFormed
  block b _ := b.WellFormed
  kind h := h.1 ▸ rfl
  pos _ := trivial
  text h _ := h.1 ▸ rfl
  children {t t'} h := by
    obtain ⟨rfl, hparts⟩ := h
    obtain ⟨kind, text, pos, children⟩ := t'
    exact forall₂_same.mpr fun u hu => ⟨rfl, fun node hnode => hparts node (.inside hu hnode)⟩
  operators h := by
    rw [h.1]
    exact forall₂_same.mpr fun _ _ => rfl
  noteUnmapped _ _ := trivial
  noteBinding _ _ := trivial
  noteMalformed _ _ _ := trivial
  number _ _ := wellFormed_leaf trivial rfl
  string _ _ := wellFormed_leaf trivial rfl
  bool _ _ := wellFormed_leaf trivial rfl
  undefined _ := wellFormed_leaf trivial rfl
  var _ _ := wellFormed_leaf trivial rfl
  vector _ hes := .of_parts trivial (forall_of_forall₂ hes)
  index _ := wellFormed_pair trivial rfl
  binary _ _ := wellFormed_pair trivial rfl
  negate _ ha := .of_parts trivial (forall_mem_singleton.mpr ha)
  not _ ha := .of_parts trivial (forall_mem_singleton.mpr ha)
  compare _ _ := wellFormed_pair trivial rfl
  and _ := wellFormed_pair trivial rfl
  or _ := wellFormed_pair trivial rfl
  cond _ := wellFormed_triple trivial rfl
  range _ := wellFormed_pair trivial rfl
  rangeBy _ := wellFormed_triple trivial rfl
  call _ _ hnodup hargs := .of_parts hnodup (forall_value_of_forall₂ hargs)
  assign _ _ he := ⟨trivial, forall_mem_singleton.mpr he, nofun⟩
  evaluate _ _ he := ⟨⟨_, _, _, rfl⟩, forall_mem_singleton.mpr he, nofun⟩
  invoke _ _ hnodup hargs hb := ⟨hnodup, forall_value_of_forall₂ hargs, forall_mem_singleton.mpr hb⟩
  defineModule _ _ horder hps hb :=
    ⟨horder, forall_default_of_forall₂ hps, forall_mem_singleton.mpr hb⟩
  defineFunction _ _ horder hps he :=
    ⟨horder, forall_mem_append.mpr ⟨forall_default_of_forall₂ hps, forall_mem_singleton.mpr he⟩,
      nofun⟩
  branch _ he ha hb :=
    ⟨trivial, forall_mem_singleton.mpr he, forall_mem_cons.mpr ⟨ha, forall_mem_singleton.mpr hb⟩⟩
  loop _ hne hbs hb := ⟨hne, forall_domain_of_forall₂ hbs, forall_mem_singleton.mpr hb⟩
  hoist h := Program.wellFormed_hoist (forall_of_forall₂ h)

/-! ## Whole trees -/

namespace OfTree

variable {S : Tree → Prop}

/-- A mistake, or a node that lacks its operand and is one of some nodes. -/
def StopsIn (S : Tree → Prop) : Stop → Prop
  | .mistake _ => True
  | .outOfRange node => S node ∧ node.LacksOperand

/-- The computation gives something with `Q`, or stops with a mistake or with one of some nodes. -/
abbrev Lowers {α : Type} (S : Tree → Prop) (Q : α → Prop) (x : Recording Stop α) : Prop :=
  Recording.Ends (fun _ => True) (StopsIn S) Q x

abbrev WellFormedBlock (block : Program) : Prop := ∀ stmt ∈ block, stmt.WellFormed

/-- A node that stands for statements, alone or with those inside of it. -/
abbrev Handled (S : Tree → Prop) (t : Tree) : Prop := (wellFormedLikeness S).Handled t t

/-- Statements that are handled make a well-formed block. -/
lemma lowers_statements {ts : List Tree} (known : Known) (h : ∀ t ∈ ts, Handled S t) :
    Lowers S WellFormedBlock (statements known ts) := by
  have hvalue := (Likeness.lowers_statements known (forall₂_same.mpr h)).value
  refine ⟨fun block hblock => ?_, fun e he => ?_, fun _ _ => trivial⟩
  · rcases hvalue with ⟨_, _, hok, -, hall⟩ | ⟨_, _, herror, -, -⟩
    · cases hok.symm.trans hblock
      exact forall_of_forall₂ hall
    · nomatch herror.symm.trans hblock
  · rcases hvalue with ⟨_, _, hok, -, -⟩ | ⟨_, _, herror, -, hstops⟩
    · nomatch hok.symm.trans he
    · cases herror.symm.trans he
      cases hstops with
      | mistake => trivial
      | outOfRange hlike hlacks => exact ⟨hlike.2 _ .self, hlacks⟩

theorem handled (t : Tree) (h : ∀ node, node.IsPartOf t → S node) : Handled S t :=
  Likeness.handled t t ⟨rfl, h⟩

end OfTree

/-- Whatever tree a program comes from, and whatever was left out on the way, the program is
well-formed at every level. -/
theorem Program.wellFormed_of_ofTree (functions : List String) (t : Tree) (program : Program)
    (h : (Program.ofTree functions t).1 = .ok program) : program.WellFormed := by
  have hlowers : Lowers (fun _ => True) WellFormedBlock
      (statements (Known.union { functions } (.ofBlock t.nodes)) t.nodes) :=
    lowers_statements _ fun u _ => handled u fun _ _ => trivial
  have hgives := hlowers.gives
  rw [Program.ofTree_eq] at h
  generalize (statements (Known.union { functions } (.ofBlock t.nodes)) t.nodes).run.value =
    result at hgives h
  rcases result with e | block
  · nomatch h
  · cases h
    exact Program.wellFormed_hoist (hgives block rfl)

/-- A module around a loop without variables, which is left out, a call of a function, and that
function with a default in front of a required parameter. -/
def disorderlyTree : Tree :=
  .node "program" "" .start [
    .node "module_def" "" .start [
      .node "ident" "m" .start [],
      .node "block" "" .start [.node "for_stmt" "" .start [.node "empty_stmt" "" .start []]]],
    .node "operator_call" "" .start [
      .node "ident" "f" .start [], .node "call_args" "" .start [], .node "empty_stmt" "" .start []],
    .node "function_def" "" .start [
      .node "ident" "f" .start [],
      .node "params" "" .start [
        .node "param" "" .start [
          .node "ident" "a" .start [], .node "expr" "" .start [.node "undef" "" .start []]],
        .node "param" "" .start [.node "ident" "b" .start []]],
      .node "expr" "" .start [.node "undef" "" .start []]]]

theorem Program.wellFormed_of_disorderlyTree :
    let program : Program := [
      .defineFunction .start ⟨"f", [⟨"b", none⟩, ⟨"a", some (.undefined .start)⟩],
        .undefined .start⟩,
      .evaluate .start (.call .start "f" [])]
    (Program.ofTree [] disorderlyTree).1 = .ok program ∧ program.WellFormed :=
  ⟨rfl, Program.wellFormed_of_ofTree [] disorderlyTree _ rfl⟩

end SolidScript
