import Mathlib.Data.List.Forall2
import Mathlib.Data.Option.Defs
import SolidScript.Proofs.Grammar.Tree
import SolidScript.Proofs.Program.Classification

/-!
# Like trees are lowered alike

One walk over the lowering of two trees that go together. What they give goes together, too, and so
does what they stop with and what they record on the way. What that means is left open but for a few
rules, one for each way in which a program is put together.
-/

namespace SolidScript

open Known List Tree Option

/-! ## Computations -/

namespace Recording

variable {ε ε' α β γ δ : Type}

/-- Both computations give something, as `Q` says, or both fail, as `E` says. The issues that they
record go together one by one, as `I` says. -/
structure Corresponds (I : CompileError → CompileError → Prop) (E : ε → ε → Prop) (Q : α → β → Prop)
    (x : Recording ε α) (y : Recording ε β) : Prop where
  value : (∃ a b, x.run.value = .ok a ∧ y.run.value = .ok b ∧ Q a b) ∨
    ∃ e e', x.run.value = .error e ∧ y.run.value = .error e' ∧ E e e'
  notes : Forall₂ I x.run.notes.toList y.run.notes.toList

namespace Corresponds

variable {I : CompileError → CompileError → Prop} {E : ε → ε → Prop} {P : α → β → Prop}
  {Q : γ → δ → Prop}
  {x : Recording ε α} {y : Recording ε β}

lemma pure {c : γ} {d : δ} (h : Q c d) :
    Corresponds I E Q (Pure.pure c : Recording ε γ) (Pure.pure d) :=
  ⟨.inl ⟨c, d, rfl, rfl, h⟩, .nil⟩

lemma throw {e e' : ε} (h : E e e') :
    Corresponds I E Q (MonadExcept.throw e : Recording ε γ)
      (MonadExcept.throw e' : Recording ε δ) :=
  ⟨.inr ⟨e, e', rfl, rfl, h⟩, .nil⟩

/-- Corresponding notes. -/
lemma record {e e' : CompileError} (h : I e e') :
    Corresponds I E (fun _ _ => True) (OfTree.record e : Recording ε Unit)
      (OfTree.record e' : Recording ε Unit) :=
  ⟨.inl ⟨(), (), rfl, rfl, trivial⟩, .cons h .nil⟩

lemma bind {k : α → Recording ε γ} {l : β → Recording ε δ} (hx : Corresponds I E P x y)
    (hk : ∀ a b, P a b → Corresponds I E Q (k a) (l b)) :
    Corresponds I E Q (x >>= k) (y >>= l) := by
  obtain ⟨result, notes⟩ := x
  obtain ⟨result', notes'⟩ := y
  obtain ⟨⟨a, b, rfl, rfl, h⟩ | ⟨e, e', rfl, rfl, h⟩, hnotes⟩ := hx
  · refine ⟨(hk a b h).value, ?_⟩
    show Forall₂ I (notes ++ (k a).run.notes).toList (notes' ++ (l b).run.notes).toList
    rw [Array.toList_append, Array.toList_append]
    exact rel_append hnotes (hk a b h).notes
  · refine ⟨.inr ⟨e, e', rfl, rfl, h⟩, ?_⟩
    show Forall₂ I (notes ++ #[]).toList (notes' ++ #[]).toList
    rwa [Array.append_empty, Array.append_empty]

lemma mono {P' : α → β → Prop} (hx : Corresponds I E P x y) (h : ∀ a b, P a b → P' a b) :
    Corresponds I E P' x y :=
  ⟨hx.value.imp_left fun ⟨a, b, ha, hb, hP⟩ => ⟨a, b, ha, hb, h a b hP⟩, hx.notes⟩

lemma map {p : α → γ} {q : β → δ} (hx : Corresponds I E (fun a b => Q (p a) (q b)) x y) :
    Corresponds I E Q (p <$> x) (q <$> y) := by
  rw [map_eq_bind, map_eq_bind]
  exact hx.bind fun _ _ => pure

/-- Errors seen from outside. -/
lemma adapt {E' : ε' → ε' → Prop} {p : ε → ε'}
    (hx : Corresponds I (fun e e' => E' (p e) (p e')) P x y) :
    Corresponds I E' P (x.adapt p) (y.adapt p) := by
  obtain ⟨result, notes⟩ := x
  obtain ⟨result', notes'⟩ := y
  obtain ⟨hvalue, hnotes⟩ := hx
  have hnotes' : Forall₂ I (notes ++ #[]).toList (notes' ++ #[]).toList := by
    rwa [Array.append_empty, Array.append_empty]
  obtain ⟨a, b, rfl, rfl, h⟩ | ⟨e, e', rfl, rfl, h⟩ := hvalue
  · exact ⟨.inl ⟨a, b, rfl, rfl, h⟩, hnotes'⟩
  · exact ⟨.inr ⟨p e, p e', rfl, rfl, h⟩, hnotes'⟩

end Corresponds

end Recording

/-! ## What goes together -/

namespace Tree

/-- The operators of a chain stand in front of its further operands. -/
def everyOther : List Tree → List Tree
  | op :: _ :: ts => op :: everyOther ts
  | _ => []

/-- The children of a node whose texts are read as operators. -/
def operators (t : Tree) : List Tree :=
  if t.kind ∈ ["equality", "comparison", "additive", "multiplicative"]
    then everyOther t.children.tail
  else if t.kind = "unary" then t.children.dropLast
  else []

/-- Signs with nothing behind them. -/
def LacksOperand (t : Tree) : Prop := t.kind = "unary" ∧ t.children = []

end Tree

/-- Parameters with different names, those without a default in front of those with one. -/
structure ParamsInOrder (params : List Param) : Prop where
  nodup : (params.map Param.name).Nodup
  sorted : params.Pairwise fun p q => p.default.isSome → q.default.isSome

/-- The same keyword, and values that go together. -/
def Argument.Like (R : Expr → Expr → Prop) (a a' : Argument) : Prop := a.name = a'.name ∧
    R a.value a'.value

def Param.Like (R : Expr → Expr → Prop) (p p' : Param) : Prop := p.name = p'.name ∧
    Rel R p.default p'.default

def Binding.Like (R : Expr → Expr → Prop) (b b' : Binding) : Prop := b.name = b'.name ∧
    R b.domain b'.domain

/-- What goes together in two trees and in what they are lowered to. Like nodes have the same kind,
like children and, where it is read, the same text. What is put together of like parts at like
places goes together, provided that keywords and parameters are not repeated, that parameters are in
order and that loops have variables. -/
structure Likeness where
  tree : Tree → Tree → Prop
  place : Position → Position → Prop
  issue : CompileError → CompileError → Prop
  expr : Expr → Expr → Prop
  statement : Statement → Statement → Prop
  block : Program → Program → Prop
  kind : ∀ {t t'}, tree t t' → t'.kind = t.kind
  pos : ∀ {t t'}, tree t t' → place t.pos t'.pos
  text : ∀ {t t'}, tree t t' → t.kind ∈ wordKinds → t'.text = t.text
  children : ∀ {t t'}, tree t t' → Forall₂ tree t.children t'.children
  operators : ∀ {t t'}, tree t t' → Forall₂ (·.text = ·.text) t.operators t'.operators
  noteUnmapped : ∀ {p p'}, place p p' → ∀ kind, issue (.unmapped kind p) (.unmapped kind p')
  noteBinding : ∀ {p p'}, place p p' →
    ∀ detail, issue (.argumentBinding detail p) (.argumentBinding detail p')
  noteMalformed : ∀ {p p'}, place p p' →
    ∀ kind detail, issue (.malformed kind detail p) (.malformed kind detail p')
  number : ∀ {p p'}, place p p' → ∀ x, expr (.number p x) (.number p' x)
  string : ∀ {p p'}, place p p' → ∀ s, expr (.string p s) (.string p' s)
  bool : ∀ {p p'}, place p p' → ∀ b, expr (.bool p b) (.bool p' b)
  undefined : ∀ {p p'}, place p p' → expr (.undefined p) (.undefined p')
  var : ∀ {p p'}, place p p' → ∀ name, expr (.var p name) (.var p' name)
  vector : ∀ {p p' es es'}, place p p' → Forall₂ expr es es' → expr (.vector p es) (.vector p' es')
  index : ∀ {p p' a a' b b'}, place p p' → expr a a' → expr b b' →
    expr (.index p a b) (.index p' a' b')
  binary : ∀ {p p' a a' b b'}, place p p' → ∀ op, expr a a' → expr b b' →
    expr (.binary p op a b) (.binary p' op a' b')
  negate : ∀ {p p' a a'}, place p p' → expr a a' → expr (.negate p a) (.negate p' a')
  not : ∀ {p p' a a'}, place p p' → expr a a' → expr (.not p a) (.not p' a')
  compare : ∀ {p p' a a' b b'}, place p p' → ∀ op, expr a a' → expr b b' →
    expr (.compare p op a b) (.compare p' op a' b')
  and : ∀ {p p' a a' b b'}, place p p' → expr a a' → expr b b' → expr (.and p a b) (.and p' a' b')
  or : ∀ {p p' a a' b b'}, place p p' → expr a a' → expr b b' → expr (.or p a b) (.or p' a' b')
  cond : ∀ {p p' a a' b b' c c'}, place p p' → expr a a' → expr b b' → expr c c' →
    expr (.cond p a b c) (.cond p' a' b' c')
  range : ∀ {p p' a a' b b'}, place p p' → expr a a' → expr b b' →
    expr (.range p a b) (.range p' a' b')
  rangeBy : ∀ {p p' a a' b b' c c'}, place p p' → expr a a' → expr b b' → expr c c' →
    expr (.rangeBy p a b c) (.rangeBy p' a' b' c')
  call : ∀ {p p' args args'}, place p p' → ∀ name, (args.filterMap Argument.name).Nodup →
    Forall₂ (Argument.Like expr) args args' → expr (.call p name args) (.call p' name args')
  assign : ∀ {p p' e e'}, place p p' → ∀ name, expr e e' →
    statement (.assign p name e) (.assign p' name e')
  evaluate : ∀ {p p' q q' args args'}, place p p' →
    ∀ name, expr (.call q name args) (.call q' name args') →
    statement (.evaluate p (.call q name args)) (.evaluate p' (.call q' name args'))
  invoke : ∀ {p p' args args' b b'}, place p p' → ∀ name, (args.filterMap Argument.name).Nodup →
    Forall₂ (Argument.Like expr) args args' → block b b' →
      statement (.invoke p name args b) (.invoke p' name args' b')
  defineModule : ∀ {p p' ps ps' b b'}, place p p' → ∀ name, ParamsInOrder ps →
    Forall₂ (Param.Like expr) ps ps' →
    block b b' → statement (.defineModule p ⟨name, ps, b⟩) (.defineModule p' ⟨name, ps', b'⟩)
  defineFunction : ∀ {p p' ps ps' e e'}, place p p' → ∀ name, ParamsInOrder ps →
    Forall₂ (Param.Like expr) ps ps' →
    expr e e' → statement (.defineFunction p ⟨name, ps, e⟩) (.defineFunction p' ⟨name, ps', e'⟩)
  branch : ∀ {p p' e e' a a' b b'}, place p p' → expr e e' → block a a' → block b b' →
    statement (.branch p e a b) (.branch p' e' a' b')
  loop : ∀ {p p' bs bs' b b'},
    place p p' → bs ≠ [] → Forall₂ (Binding.Like expr) bs bs' → block b b' →
    statement (.loop p bs b) (.loop p' bs' b')
  hoist : ∀ {b b' : Program}, Forall₂ statement b b' → block b.hoist b'.hoist

namespace Likeness

open OfTree hiding expr statement
open Recording (Corresponds)

variable {L : Likeness} {α β : Type} {Q : α → β → Prop} {t t' : Tree} {ts ts' : List Tree}

/-- Like mistakes, or like nodes that lack their operand. -/
inductive Stops (L : Likeness) : Stop → Stop → Prop where
  | mistake {e e' : CompileError} (h : L.issue e e') : L.Stops (.mistake e) (.mistake e')
  | outOfRange {t t' : Tree} (h : L.tree t t') (hlacks : t.LacksOperand) :
    L.Stops (.outOfRange t) (.outOfRange t')

inductive Fails (L : Likeness) : Failure → Failure → Prop where
  | here {e e' : Stop} (h : L.Stops e e') : L.Fails (.here e) (.here e')
  | within {e e' : Stop} (h : L.Stops e e') : L.Fails (.within e) (.within e')

/-- The computations give what goes together as `Q` says, or stop alike. -/
abbrev Lowers (L : Likeness) (Q : α → β → Prop) (x : Recording Stop α) (y : Recording Stop β) :
    Prop :=
  Corresponds L.issue L.Stops Q x y

/-- The same of statements, with their failures. -/
abbrev Builds (L : Likeness) (Q : α → β → Prop) (x : Recording Failure α)
    (y : Recording Failure β) : Prop :=
  Corresponds L.issue L.Fails Q x y

/-! ## Expressions -/

lemma lowers_malformed (h : L.tree t t') (detail : String) :
    L.Lowers Q (malformed t detail : Recording Stop α)
      (malformed t' detail : Recording Stop β) := by
  unfold malformed
  rw [L.kind h]
  exact .throw (.mistake (L.noteMalformed (L.pos h) _ _))

/-- The first children of a kind are alike. -/
lemma like_find? (h : Forall₂ L.tree ts ts') (kind : String) :
    Rel L.tree (ts.find? (·.kind = kind)) (ts'.find? (·.kind = kind)) := by
  induction h with
  | nil => exact .none
  | cons ht _ ih =>
    rw [find?_cons, find?_cons, L.kind ht]
    split
    · exact .some ht
    · exact ih

/-- The text of a word that is looked up among like nodes is the same. -/
lemma text_find? (h : Forall₂ L.tree ts ts') (kind : String) (hkind : kind ∈ Tree.wordKinds) :
    (ts'.find? (·.kind = kind)).map Tree.text = (ts.find? (·.kind = kind)).map Tree.text := by
  induction h with
  | nil => rfl
  | @cons t t' _ _ ht _ ih =>
    rw [find?_cons, find?_cons, L.kind ht]
    by_cases hword : t.kind = kind
    · simp [hword, L.text ht (hword ▸ hkind)]
    · simpa [hword] using ih

lemma lowers_name (h : L.tree t t') : L.Lowers Eq (name t) (name t') := by
  have htext := text_find? (L.children h) "ident" (by decide)
  unfold name Tree.child?
  cases hchild : t.children.find? (·.kind = "ident") with
  | none =>
    rw [hchild] at htext
    rw [map_eq_none_iff.mp htext]
    exact lowers_malformed h _
  | some child =>
    rw [hchild] at htext
    obtain ⟨child', hchild', htext⟩ := map_eq_some_iff.mp htext
    rw [hchild']
    exact .pure htext.symm

/-- Operators join like operands to like expressions. -/
lemma like_operation {symbol : String} {join : Position → Expr → Expr → Expr}
    (h : operation? symbol = some join) {p p' : Position} (hp : L.place p p') {a a' b b' : Expr}
    (ha : L.expr a a') (hb : L.expr b b') : L.expr (join p a b) (join p' a' b') := by
  unfold operation? at h
  split at h <;> cases h <;> first | exact L.binary hp _ ha hb | exact L.compare hp _ ha hb

/-- Like arguments that repeat no keyword and give none of some keywords. -/
structure Arguments (L : Likeness) (seen : List String) (args args' : List Argument) : Prop where
  like : Forall₂ (Argument.Like L.expr) args args'
  nodup : (args.filterMap Argument.name).Nodup
  fresh : ∀ n ∈ args.filterMap Argument.name, n ∉ seen

lemma Arguments.cons {seen : List String} {arg arg' : Argument} {args args' : List Argument}
    (harg : Argument.Like L.expr arg arg') (hfresh : ∀ n ∈ arg.name, n ∉ seen)
    (h : L.Arguments (arg.name.toList ++ seen) args args') :
    L.Arguments seen (arg :: args) (arg' :: args') :=
  have ⟨hnodup, hfresh⟩ := nodup_keywords_cons hfresh h.nodup h.fresh
  ⟨.cons harg h.like, hnodup, hfresh⟩

/-- Whatever like nodes are taken for, they are lowered alike. -/
structure Lowered (L : Likeness) (t t' : Tree) : Prop where
  like : L.tree t t'
  expr : L.Lowers L.expr (OfTree.expr t) (OfTree.expr t')
  value : L.Lowers L.expr (value t) (value t')
  arguments : ∀ seen, L.Lowers (L.Arguments seen) (arguments seen t.children)
    (arguments seen t'.children)
  argument : ∀ {node node'}, L.tree node node' → ∀ seen,
    L.Lowers (fun a a' => Argument.Like L.expr a a' ∧ ∀ n ∈ a.name, n ∉ seen)
      (argument node seen t.children)
      (argument node' seen t'.children)

section

variable (h : Forall₂ (Lowered L) ts ts')

include h

/-! ### Several nodes -/

/-- Like operands are lowered alike. -/
lemma lowers_exprs : L.Lowers (Forall₂ L.expr) (exprs ts) (exprs ts') := by
  induction h with
  | nil => exact .pure .nil
  | cons ht _ ih =>
    rw [exprs, exprs]
    exact .bind ht.expr fun _ _ he => .bind ih fun _ _ hes => .pure (.cons he hes)

lemma lowers_firstExpr : L.Lowers (Rel L.expr) (firstExpr ts) (firstExpr ts') := by
  induction h with
  | nil => exact .pure .none
  | cons ht _ ih =>
    rw [firstExpr, firstExpr, L.kind ht.like]
    split
    · exact .map (ht.expr.mono fun _ _ => .some)
    · exact ih

/-- Operands that are joined from the left. -/
lemma lowers_operands {join join' : Expr → Expr → Expr}
    (hjoin : ∀ {a a' b b'}, L.expr a a' → L.expr b b' → L.expr (join a b) (join' a' b'))
    {left left' : Expr} (hleft : L.expr left left') :
    L.Lowers L.expr (operands join left ts) (operands join' left' ts') := by
  induction h generalizing left left' with
  | nil => exact .pure hleft
  | cons ht _ ih =>
    rw [operands, operands]
    exact .bind ht.expr fun _ _ he => ih (hjoin hleft he)

lemma lowers_indices {target target' : Expr} (htarget : L.expr target target') :
    L.Lowers L.expr (indices target ts) (indices target' ts') := by
  induction h generalizing target target' with
  | nil => exact .pure htarget
  | cons ht _ ih =>
    rw [indices, indices]
    exact .bind ht.value fun _ _ he => ih (L.index (L.pos ht.like) htarget he)

omit h in
/-- Operators stand between operands, so two nodes are taken at a time. -/
lemma lowers_chain (hnode : L.tree t t') :
    ∀ (ts ts' : List Tree) {left left' : Expr}, L.expr left left' →
    Forall₂ (·.text = ·.text) (everyOther ts) (everyOther ts') →
      Forall₂ (Lowered L) ts ts' →
    L.Lowers L.expr (chain t left ts) (chain t' left' ts')
  | [], [], _, _, hleft, _, _ => .pure hleft
  | [_], [_], _, _, _, _, _ => lowers_malformed hnode _
  | op :: u :: us, op' :: u' :: us', _, _, hleft, hops, h => by
    obtain ⟨htext, hops⟩ := forall₂_cons.mp hops
    obtain ⟨hop, h⟩ := forall₂_cons.mp h
    obtain ⟨hu, hus⟩ := forall₂_cons.mp h
    rw [chain, chain, ← htext]
    refine .bind hu.expr fun _ _ hright => ?_
    split
    · rename_i join hjoin
      exact lowers_chain hnode us us' (like_operation hjoin (L.pos hop.like) hleft hright) hops hus
    · exact lowers_malformed hop.like _

lemma lowers_signs (hnode : L.tree t t') (hlacks : ts = [] → t.LacksOperand)
    (hops : Forall₂ (·.text = ·.text) ts.dropLast ts'.dropLast) :
    L.Lowers L.expr (signs t ts) (signs t' ts') := by
  induction h with
  | nil => exact .throw (.outOfRange hnode (hlacks rfl))
  | cons hop hts ih =>
    cases hts with
    | nil => exact hop.expr
    | cons ht hts =>
      obtain ⟨htext, hops⟩ := forall₂_cons.mp hops
      rw [signs, signs]
      refine .bind (ih nofun hops) fun _ _ he => .pure ?_
      unfold signed
      rw [← htext]
      split
      · exact L.negate (L.pos hop.like) he
      · exact L.not (L.pos hop.like) he
      · exact he

lemma lowers_firstArguments :
    L.Lowers (Rel (L.Arguments [])) (firstArguments ts) (firstArguments ts') := by
  induction h with
  | nil => exact .pure .none
  | @cons t t' _ _ ht _ ih =>
    obtain ⟨kind, text, pos, children⟩ := t
    obtain ⟨kind', text', pos', children'⟩ := t'
    obtain rfl : kind' = kind := L.kind ht.like
    rw [firstArguments, firstArguments]
    split
    · exact .map ((ht.arguments []).mono fun _ _ => .some)
    · exact ih

/-- Arguments are lowered alike, repeated keywords included. -/
lemma lowers_arguments (seen : List String) :
    L.Lowers (L.Arguments seen) (arguments seen ts) (arguments seen ts') := by
  induction h generalizing seen with
  | nil => exact .pure ⟨.nil, nodup_nil, forall_mem_nil _⟩
  | @cons t t' _ _ ht _ ih =>
    obtain ⟨kind, text, pos, children⟩ := t
    obtain ⟨kind', text', pos', children'⟩ := t'
    obtain rfl : kind' = kind := L.kind ht.like
    rw [arguments, arguments]
    split
    · refine .bind (ht.argument ht.like seen) fun arg arg' harg => ?_
      rw [← harg.1.1]
      exact .bind (ih _) fun _ _ hargs => .pure (.cons harg.1 harg.2 hargs)
    · exact ih _

lemma lowers_argument (hnode : L.tree t t') (seen : List String) :
    L.Lowers (fun a a' => Argument.Like L.expr a a' ∧ ∀ n ∈ a.name, n ∉ seen) (argument t seen ts)
      (argument t' seen ts') := by
  cases h with
  | nil => exact lowers_malformed hnode _
  | cons ht _ =>
    rw [argument, argument, L.kind ht.like]
    split
    · refine .bind (lowers_name ht.like) ?_
      rintro keyword _ rfl
      dsimp only
      split
      · refine .bind (P := fun _ _ => False) (.throw (.mistake (L.noteBinding (L.pos ht.like) _)))
          fun _ _ => False.elim
      · rename_i hseen
        refine .bind ht.value fun _ _ he => .pure ⟨⟨rfl, he⟩, ?_⟩
        rintro _ ⟨⟩
        simpa using hseen
    · exact .bind ht.expr fun _ _ he => .pure ⟨⟨rfl, he⟩, nofun⟩

/-! ### One node -/

lemma lowers_wrapped (hnode : L.tree t t') : L.Lowers L.expr (wrapped t ts) (wrapped t' ts') := by
  have hother :
    L.Lowers L.expr (record (.unmapped t.kind t.pos) >>= fun _ => pure (.undefined t.pos))
      (record (.unmapped t'.kind t'.pos) >>= fun _ => pure (.undefined t'.pos)) := by
    rw [L.kind hnode]
    exact .bind (.record (L.noteUnmapped (L.pos hnode) _)) fun _ _ _ =>
      .pure (L.undefined (L.pos hnode))
  cases h with
  | nil => exact hother
  | cons ht hts =>
    cases hts with
    | nil => exact ht.expr
    | cons => exact hother

lemma lowers_conditional (hnode : L.tree t t') :
    L.Lowers L.expr (conditional t ts) (conditional t' ts') := by
  rcases h with _ | ⟨hc, _ | ⟨ha, _ | ⟨hb, _ | _⟩⟩⟩
  case cons.cons.cons.nil =>
    refine .bind hc.expr fun _ _ hc => .bind ha.expr fun _ _ ha => .bind hb.expr fun _ _ hb => ?_
    exact .pure (L.cond (L.pos hnode) hc ha hb)
  case cons.nil => exact hc.expr
  all_goals exact lowers_malformed hnode _

lemma lowers_power (hnode : L.tree t t') : L.Lowers L.expr (power t ts) (power t' ts') := by
  rcases h with _ | ⟨ha, _ | ⟨hb, _ | _⟩⟩
  case cons.cons.nil =>
    exact .bind ha.expr fun _ _ ha => .bind hb.expr fun _ _ hb =>
      .pure (L.binary (L.pos hnode) _ ha hb)
  case cons.nil => exact ha.expr
  all_goals exact lowers_malformed hnode _

lemma lowers_joined (hnode : L.tree t t') {join join' : Expr → Expr → Expr}
    (hjoin : ∀ {a a' b b'}, L.expr a a' → L.expr b b' → L.expr (join a b) (join' a' b')) :
    L.Lowers L.expr (joined t join ts) (joined t' join' ts') := by
  cases h with
  | nil => exact lowers_malformed hnode _
  | cons ht hts => exact .bind ht.expr fun _ _ he => lowers_operands hts hjoin he

/-- Operators that stand in the tree. -/
lemma lowers_chained (hnode : L.tree t t')
    (hops : Forall₂ (·.text = ·.text) (everyOther ts.tail) (everyOther ts'.tail)) :
    L.Lowers L.expr (chained t ts) (chained t' ts') := by
  cases h with
  | nil => exact lowers_malformed hnode _
  | cons ht hts => exact .bind ht.expr fun _ _ he => lowers_chain hnode _ _ he hops hts

lemma lowers_indexed (hnode : L.tree t t') : L.Lowers L.expr (indexed t ts) (indexed t' ts') := by
  cases h with
  | nil => exact lowers_malformed hnode _
  | cons ht hts => exact .bind ht.expr fun _ _ he => lowers_indices hts he

end

lemma chain_operators (h : L.tree t t')
    (hkind : t.kind ∈ ["equality", "comparison", "additive", "multiplicative"]) :
    Forall₂ (·.text = ·.text) (Tree.everyOther t.children.tail)
      (Tree.everyOther t'.children.tail) := by
  have hops := L.operators h
  rwa [Tree.operators, Tree.operators, L.kind h, if_pos hkind, if_pos hkind] at hops

/-- Like signs are the same. -/
lemma sign_operators (h : L.tree t t') (hkind : t.kind = "unary") :
    Forall₂ (·.text = ·.text) t.children.dropLast t'.children.dropLast := by
  have hops := L.operators h
  have hne : t.kind ∉ ["equality", "comparison", "additive", "multiplicative"] := by
    rw [hkind]
    decide
  rwa [Tree.operators, Tree.operators, L.kind h, if_neg hne, if_neg hne, if_pos hkind,
    if_pos hkind] at hops

section

variable {kind text text' : String} {pos pos' : Position} {children children' : List Tree}

lemma lowers_expr (hlike : L.tree (.node kind text pos children) (.node kind text' pos' children'))
    (h : Forall₂ (Lowered L) children children') :
    L.Lowers L.expr (OfTree.expr (.node kind text pos children))
      (OfTree.expr (.node kind text' pos' children')) := by
  have hp : L.place pos pos' := L.pos hlike
  have htext : kind ∈ Tree.wordKinds → text' = text := L.text hlike
  rw [OfTree.expr, OfTree.expr]
  cases hrule : Grammar.Name.ofKind? kind with
  | none => exact lowers_wrapped h hlike
  | some rule =>
    have hkind := Grammar.Name.kind_of_ofKind? hrule
    cases rule
    case number =>
      rw [htext (by rw [hkind]; decide)]
      dsimp only
      split
      · exact .pure (L.number hp _)
      · exact lowers_malformed hlike _
    case string =>
      refine .pure ?_
      have hinner := text_find? (L.children hlike) "string_inner" (by decide)
      dsimp only [Tree.child?]
      rw [hinner]
      exact L.string hp _
    case boolean =>
      rw [htext (by rw [hkind]; decide)]
      exact .pure (L.bool hp _)
    case undefined => exact .pure (L.undefined hp)
    case reference =>
      refine .bind (lowers_name hlike) ?_
      rintro name _ rfl
      exact .pure (L.var hp name)
    case vector => exact .bind (lowers_exprs h) fun _ _ hes => .pure (L.vector hp hes)
    case range =>
      refine .bind (lowers_exprs h) fun bounds bounds' hbounds => ?_
      rcases hbounds with _ | ⟨ha, _ | ⟨hb, _ | ⟨hc, _⟩⟩⟩
      · exact lowers_malformed hlike _
      · exact lowers_malformed hlike _
      · exact .pure (L.range hp ha hb)
      · exact .pure (L.rangeBy hp ha hb hc)
    case functionCall =>
      refine .bind (lowers_name hlike) ?_
      rintro callee _ rfl
      refine .bind (lowers_firstArguments h) fun found found' hfound => ?_
      cases hfound with
      | none => exact lowers_malformed hlike _
      | some hargs => exact .pure (L.call hp callee hargs.nodup hargs.like)
    case ternary => exact lowers_conditional h hlike
    case logicOr => exact lowers_joined h hlike fun ha hb => L.or hp ha hb
    case logicAnd => exact lowers_joined h hlike fun ha hb => L.and hp ha hb
    case equality | comparison | additive | multiplicative =>
      exact lowers_chained h hlike (chain_operators hlike (by rw [Tree.kind, hkind]; decide))
    case unary =>
      exact lowers_signs h hlike (fun hnil => ⟨hkind, hnil⟩) (sign_operators hlike hkind)
    case power => exact lowers_power h hlike
    case postfixed => exact lowers_indexed h hlike
    all_goals exact lowers_wrapped h hlike

end

/-- Like nodes are lowered alike. -/
theorem lowered (t : Tree) : ∀ t', L.tree t t' → Lowered L t t' := by
  induction t using induction with
  | h kind text pos children ih =>
    rintro ⟨kind', text', pos', children'⟩ hlike
    obtain rfl : kind' = kind := L.kind hlike
    have hchildren : Forall₂ (Lowered L) children children' :=
      ((forall₂_and_left _ _).mpr ⟨ih, L.children hlike⟩).imp fun _ _ h => h.1 _ h.2
    refine ⟨hlike, lowers_expr hlike hchildren, ?_, lowers_arguments hchildren,
      lowers_argument hchildren⟩
    rw [value, value]
    refine .bind (lowers_firstExpr hchildren) fun found found' hfound => ?_
    cases hfound with
    | none => exact lowers_malformed hlike _
    | some he => exact .pure he

/-! ## Statements -/

/-- A block defines the same names if its statements do. -/
lemma ofBlock_congr (h : Forall₂ (fun t t' => ofStatement t' = ofStatement t) ts ts') :
    ofBlock ts' = ofBlock ts := by
  induction h with
  | nil => rfl
  | cons ht _ ih => rw [ofBlock, ofBlock, ht, ih]

/-- Like statements define the same names. -/
lemma ofStatement_eq (t : Tree) : ∀ t', L.tree t t' → ofStatement t' = ofStatement t := by
  induction t using Tree.induction with
  | h kind text pos children ih =>
    rintro ⟨kind', text', pos', children'⟩ hlike
    obtain rfl : kind' = kind := L.kind hlike
    have hident := text_find? (L.children hlike) "ident" (by decide)
    have hblock : ofBlock children' = ofBlock children :=
      ofBlock_congr (((forall₂_and_left _ _).mpr ⟨ih, L.children hlike⟩).imp fun _ _ h => h.1 _ h.2)
    dsimp only [Tree.children] at hident
    rw [ofStatement, ofStatement, ← toList_map, ← toList_map, hident, hblock]

/-- Like blocks define the same names. -/
lemma ofBlock_eq (h : Forall₂ L.tree ts ts') : ofBlock ts' = ofBlock ts :=
  ofBlock_congr (h.imp ofStatement_eq)

lemma isMuted_eq (h : L.tree t t') : isMuted t' = isMuted t := by
  have hmap (o : Option Tree) : o.map (fun m => m.text == "*" || m.text == "%") =
      (o.map Tree.text).map fun text => text == "*" || text == "%" := by
    rw [Option.map_map]
    rfl
  rw [isMuted, isMuted, hmap, hmap, Tree.child?, Tree.child?,
    text_find? (L.children h) _ (by decide)]

lemma builds_own {x : Recording Stop α} {y : Recording Stop β} (h : L.Lowers Q x y) :
    L.Builds Q (own x) (own y) :=
  .adapt ⟨h.value.imp_right fun ⟨e, e', he, he', hstops⟩ => ⟨e, e', he, he', .here hstops⟩, h.notes⟩

lemma builds_owned {x : Recording Stop α} {y : Recording Stop β} (h : L.Lowers Q x y) :
    L.Builds Q (owned x) (owned y) :=
  .adapt ⟨h.value.imp_right fun ⟨e, e', he, he', hstops⟩ => ⟨e, e', he, he', .within hstops⟩,
    h.notes⟩

/-- Statements are left out of both, with like issues. -/
lemma lowers_kept {x y : Recording Failure Program} (h : L.Builds (Forall₂ L.statement) x y) :
    L.Lowers (Forall₂ L.statement) (kept x) (kept y) := by
  obtain ⟨result, notes⟩ := x
  obtain ⟨result', notes'⟩ := y
  obtain ⟨⟨a, b, rfl, rfl, hblock⟩ | ⟨_, _, rfl, rfl, hfails⟩, hnotes⟩ := h
  · exact ⟨.inl ⟨a, b, rfl, rfl, hblock⟩, hnotes⟩
  · cases hfails with
    | here hstops => exact ⟨.inr ⟨_, _, rfl, rfl, hstops⟩, hnotes⟩
    | within hstops =>
      cases hstops with
      | mistake hissue =>
        refine ⟨.inl ⟨[], [], rfl, rfl, .nil⟩, ?_⟩
        show Forall₂ L.issue (notes.push _).toList (notes'.push _).toList
        rw [Array.toList_push, Array.toList_push]
        exact rel_append hnotes (.cons hissue .nil)
      | outOfRange hlike hlacks => exact ⟨.inr ⟨_, _, rfl, rfl, .outOfRange hlike hlacks⟩, hnotes⟩

/-- Like parameters with different names, none of them one of some names. -/
structure Params (L : Likeness) (seen : List String) (ps ps' : List Param) : Prop where
  like : Forall₂ (Param.Like L.expr) ps ps'
  nodup : (ps.map Param.name).Nodup
  fresh : ∀ n ∈ ps.map Param.name, n ∉ seen

/-- Parameters are lowered alike, repeated names included. -/
lemma lowers_paramList (seen : List String) (h : Forall₂ L.tree ts ts') :
    L.Lowers (L.Params seen) (paramList seen ts) (paramList seen ts') := by
  induction h generalizing seen with
  | nil => exact .pure ⟨.nil, nodup_nil, forall_mem_nil _⟩
  | cons ht _ ih =>
    rw [paramList, paramList, L.kind ht]
    split
    · refine .bind (lowers_name ht) ?_
      rintro param _ rfl
      dsimp only
      split
      · exact .bind (P := fun _ _ => False) (.throw (.mistake (L.noteBinding (L.pos ht) _)))
          fun _ _ => False.elim
      · rename_i hseen
        refine .bind (lowers_firstExpr ((L.children ht).imp lowered)) fun _ _ hdefault => ?_
        refine .bind (ih _) fun _ _ hps => .pure ⟨.cons ⟨rfl, hdefault⟩ hps.like, ?_, ?_⟩
        · exact nodup_cons.mpr ⟨fun hn => hps.fresh param hn mem_cons_self, hps.nodup⟩
        · refine forall_mem_cons.mpr ⟨by simpa using hseen, fun n hn hmem => ?_⟩
          exact hps.fresh n hn (mem_cons_of_mem _ hmem)
    · exact ih _

/-- To put the parameters without a default first changes neither their names nor their defaults. -/
lemma paramsInOrder {params : List Param} (h : (params.map Param.name).Nodup) :
    ParamsInOrder (params.filter (·.default.isNone) ++ params.filter (·.default.isSome)) := by
  have hperm := OfTree.perm_sorted params
  refine ⟨(hperm.map Param.name).nodup_iff.mpr h, ?_⟩
  rw [Param.isSome_default_eq]
  refine (pairwise_filter_append (fun p : Param => p.default.isNone) params).imp
    fun {p q} hnone => ?_
  revert hnone
  cases p.default <;> cases q.default <;> simp

lemma lowers_params (h : L.tree t t') :
    L.Lowers (fun ps ps' => ParamsInOrder ps ∧ Forall₂ (Param.Like L.expr) ps ps') (params t)
      (params t') := by
  have hlist := like_find? (L.children h) "params"
  have hsame {p p' : Param} (hp : Param.Like L.expr p p') :
      p.default.isNone = p'.default.isNone ∧ p.default.isSome = p'.default.isSome := by
    obtain ⟨-, hdefault⟩ := hp
    generalize p.default = d, p'.default = d' at hdefault
    cases hdefault <;> exact ⟨rfl, rfl⟩
  unfold params child?
  generalize t.children.find? (·.kind = "params") = found, t'.children.find? (·.kind = "params") =
    found' at hlist ⊢
  cases hlist with
  | none => exact .pure ⟨⟨nodup_nil, .nil⟩, .nil⟩
  | some hlist =>
    refine .bind (lowers_paramList [] (L.children hlist)) fun ps ps' hps =>
      .pure ⟨paramsInOrder hps.nodup, ?_⟩
    refine rel_append (rel_filter (fun p p' hp => ?_) hps.like)
      (rel_filter (fun p p' hp => ?_) hps.like)
    · exact iff_of_eq (congrArg (· = true) (hsame hp).1)
    · exact iff_of_eq (congrArg (· = true) (hsame hp).2)

lemma lowers_callArguments (h : L.tree t t') :
    L.Lowers (L.Arguments []) (callArguments t) (callArguments t') := by
  refine .bind (lowers_firstArguments ((L.children h).imp lowered)) fun _ _ hfound => ?_
  cases hfound with
  | none => exact lowers_malformed h _
  | some hargs => exact .pure hargs

/-- Bindings of a loop are lowered alike. -/
lemma lowers_bindings (h : Forall₂ L.tree ts ts') :
    L.Lowers (Forall₂ (Binding.Like L.expr)) (bindings ts) (bindings ts') := by
  induction h with
  | nil => exact .pure .nil
  | cons ht _ ih =>
    rw [bindings, bindings, L.kind ht]
    split
    · refine .bind (lowers_name ht) ?_
      rintro name _ rfl
      exact .bind (lowered _ _ ht).value fun _ _ he => .bind ih fun _ _ hbs =>
        .pure (.cons ⟨rfl, he⟩ hbs)
    · exact ih

/-- Like blocks, both of them empty or none. -/
structure Blocks (L : Likeness) (b b' : Program) : Prop where
  like : L.block b b'
  isEmpty : b.isEmpty = b'.isEmpty

lemma Blocks.hoist {b b' : Program} (h : Forall₂ L.statement b b') : L.Blocks b.hoist b'.hoist := by
  refine ⟨L.hoist h, ?_⟩
  have hempty (b : Program) : b.hoist.isEmpty = b.isEmpty := by
    rw [Bool.eq_iff_iff, List.isEmpty_iff, List.isEmpty_iff, eq_nil_iff_forall_not_mem,
      eq_nil_iff_forall_not_mem]
    exact forall_congr' fun _ => not_congr Program.mem_hoist
  rw [hempty, hempty]
  cases h <;> rfl

/-- Like nodes that stand for statements, alone or with those inside of them. -/
structure Handled (L : Likeness) (t t' : Tree) : Prop where
  like : L.tree t t'
  statement : ∀ known, L.Builds (Forall₂ L.statement) (OfTree.statement known t)
    (OfTree.statement known t')
  inside : ∀ known, L.Lowers (Forall₂ L.statement) (inside known t) (inside known t')

section

variable (known : Known)

/-- Bodies of like nodes are built alike. -/
lemma builds_body (h : Handled L t t') :
    L.Builds L.Blocks (body known t (inside · t) (OfTree.statement · t))
      (body known t' (inside · t') (OfTree.statement · t')) := by
  unfold body
  rw [L.kind h.like, ofStatement_eq _ _ h.like, ofBlock_eq (L.children h.like)]
  refine builds_owned (.map ?_)
  split
  · exact (h.inside _).mono fun _ _ => .hoist
  · exact (lowers_kept (h.statement _)).mono fun _ _ => .hoist

variable (h : Forall₂ (Handled L) ts ts')

include h

lemma lowers_statements :
    L.Lowers (Forall₂ L.statement) (statements known ts) (statements known ts') := by
  induction h with
  | nil => exact .pure .nil
  | cons ht _ ih =>
    rw [statements, statements]
    refine .bind (lowers_kept (ht.statement known)) fun _ _ hss => ?_
    exact .bind ih fun _ _ hrest => .pure (rel_append hss hrest)

lemma builds_lastBody (hnode : L.tree t t') :
    L.Builds L.Blocks (lastBody known t ts) (lastBody known t' ts') := by
  induction h with
  | nil => exact builds_own (lowers_malformed hnode _)
  | cons ht hts ih =>
    cases hts with
    | nil => exact builds_body known ht
    | cons => exact ih

lemma builds_branches (hnode : L.tree t t') :
    L.Builds (fun b b' => L.block b.1 b'.1 ∧ L.block b.2 b'.2) (branches known t ts)
      (branches known t' ts') := by
  rcases h with _ | ⟨_, _ | ⟨hyes, _ | ⟨hno, _⟩⟩⟩
  · exact builds_own (lowers_malformed hnode _)
  · exact builds_own (lowers_malformed hnode _)
  · exact .bind (builds_body known hyes) fun _ _ hyes => .pure ⟨hyes.like, L.hoist .nil⟩
  · refine .bind (builds_body known hyes) fun _ _ hyes => ?_
    exact .bind (builds_body known hno) fun _ _ hno => .pure ⟨hyes.like, hno.like⟩

/-- A statement is built like another, if their children are. -/
lemma builds_statement {kind text text' : String} {pos pos' : Position}
    (hlike : L.tree (.node kind text pos ts) (.node kind text' pos' ts')) :
    L.Builds (Forall₂ L.statement) (OfTree.statement known (.node kind text pos ts))
      (OfTree.statement known (.node kind text' pos' ts')) := by
  have hp : L.place pos pos' := L.pos hlike
  have hname := builds_own (lowers_name hlike)
  have hvalue := builds_own (lowered _ _ hlike).value
  have hbody := builds_lastBody known h hlike
  have hparams := builds_own (lowers_params hlike)
  have hother : L.Builds (Forall₂ L.statement) (record (.unmapped kind pos) >>= fun _ => pure [])
      (record (.unmapped kind pos') >>= fun _ => pure []) :=
    .bind (.record (L.noteUnmapped hp kind)) fun _ _ _ => .pure .nil
  rw [OfTree.statement, OfTree.statement]
  cases hrule : Grammar.Name.ofKind? kind with
  | none => exact hother
  | some rule =>
    cases rule
    case emptyStatement => exact .pure .nil
    case block => exact builds_own (lowers_statements known h)
    case assignment =>
      refine .bind hname ?_
      rintro name _ rfl
      exact .bind hvalue fun _ _ he => .pure (.cons (L.assign hp name he) .nil)
    case moduleDef =>
      refine .bind hname ?_
      rintro name _ rfl
      refine .bind hparams fun _ _ hps => .bind hbody fun _ _ hb => ?_
      exact .pure (.cons (L.defineModule hp name hps.1 hps.2 hb.like) .nil)
    case functionDef =>
      refine .bind hname ?_
      rintro name _ rfl
      refine .bind hparams fun _ _ hps => .bind hvalue fun _ _ he => ?_
      exact .pure (.cons (L.defineFunction hp name hps.1 hps.2 he) .nil)
    case ifStatement =>
      refine .bind hvalue fun _ _ he => .bind (builds_branches known h hlike) fun _ _ hb => ?_
      exact .pure (.cons (L.branch hp he hb.1 hb.2) .nil)
    case forStatement =>
      refine .bind (builds_own (lowers_bindings (L.children hlike))) fun loops loops' hloops => ?_
      cases hloops with
      | nil =>
        exact .bind (P := fun _ _ => False) (builds_own (lowers_malformed hlike _)) fun _ _ =>
          False.elim
      | cons hb hbs =>
        refine .bind hbody fun _ _ hblock => .pure (.cons ?_ .nil)
        exact L.loop hp (cons_ne_nil _ _) (.cons hb hbs) hblock.like
    case operatorCall =>
      dsimp only
      rw [isMuted_eq hlike]
      split
      · exact .pure .nil
      · refine .bind hname ?_
        rintro callee _ rfl
        refine .bind (builds_own (lowers_callArguments hlike)) fun args args' hargs => ?_
        refine .bind hbody fun b b' hb => ?_
        rw [← hb.isEmpty]
        split
        · exact .pure (.cons (L.evaluate hp callee (L.call hp callee hargs.nodup hargs.like)) .nil)
        · exact .pure (.cons (L.invoke hp callee hargs.nodup hargs.like hb.like) .nil)
    all_goals exact hother

end

theorem handled (t : Tree) : ∀ t', L.tree t t' → Handled L t t' := by
  induction t using induction with
  | h kind text pos children ih =>
    rintro ⟨kind', text', pos', children'⟩ hlike
    obtain rfl : kind' = kind := L.kind hlike
    have hchildren : Forall₂ (Handled L) children children' :=
      ((forall₂_and_left _ _).mpr ⟨ih, L.children hlike⟩).imp fun _ _ h => h.1 _ h.2
    exact ⟨hlike, fun known => builds_statement known hchildren hlike,
      fun known => lowers_statements known hchildren⟩

end Likeness

end SolidScript
