import SolidScript.Proofs.Program.Likeness
import SolidScript.Proofs.Program.Statements

/-!
# Places do not matter to the lowering

The lowering copies places from the nodes of a tree to what it gives, and reads the texts of words
only. So a tree without places and without the texts of its larger nodes is lowered as the tree
itself is, but for the places.
-/

namespace SolidScript

open Statement List

def CompileError.unplaced : CompileError → CompileError
  | unmapped kind _ => .unmapped kind .start
  | argumentBinding detail _ => .argumentBinding detail .start
  | malformed kind detail _ => .malformed kind detail .start

def Stop.unplaced : Stop → Stop
  | mistake e => .mistake e.unplaced
  | outOfRange node => .outOfRange node.bare

/-- What a tree comes to, without places: the program or the mistake, and the issues. -/
def Program.unplacedOutcome (outcome : Except Stop Program × Array CompileError) :
    Except Stop Program × Array CompileError :=
  ((outcome.1.map Program.unplaced).mapError Stop.unplaced, outcome.2.map CompileError.unplaced)

/-- Every operator in the tree is a word. -/
def Tree.Worded (t : Tree) : Prop := ∀ node : Tree, node.IsPartOf t →
    ∀ op ∈ node.operators, op.kind ∈ Tree.wordKinds

/-! ## With places and without -/

lemma everyOther_map_bare : ∀ ts : List Tree, Tree.everyOther (ts.map Tree.bare) =
    (Tree.everyOther ts).map Tree.bare
  | [] | [_] => rfl
  | op :: _ :: ts => congrArg (op.bare :: ·) (everyOther_map_bare ts)

lemma operators_bare (t : Tree) : t.bare.operators = t.operators.map Tree.bare := by
  unfold Tree.operators
  rw [Tree.kind_bare, Tree.children_bare, ← map_tail, everyOther_map_bare, ← map_dropLast]
  split
  · rfl
  · split
    · rfl
    · rfl

/-- What goes together with something one by one is its image. -/
lemma eq_map_of_forall₂ {α β : Type} {R : α → β → Prop} {f : α → β} (hR : ∀ {a b}, R a b → b = f a)
    {as : List α} {bs : List β} (h : List.Forall₂ R as bs) : bs = as.map f := by
  induction h with
  | nil => rfl
  | cons h _ ih => rw [hR h, ih, map_cons]

lemma eq_unplacedAll_of_forall₂ {args args' : List Argument}
    (h : List.Forall₂ (Argument.Like fun e e' => e' = e.unplaced) args args') :
    args' = Argument.unplacedAll args := by
  rw [Argument.unplacedAll_eq_map]
  exact eq_map_of_forall₂ (fun {a a'} ⟨hname, hvalue⟩ => by
    obtain ⟨name, value⟩ := a'
    rw [Argument.unplaced, hname, ← hvalue]) h

lemma eq_map_unplaced_of_forall₂ {ps ps' : List Param}
    (h : List.Forall₂ (Param.Like fun e e' => e' = e.unplaced) ps ps') :
    ps' = ps.map Param.unplaced :=
  eq_map_of_forall₂ (fun {p p'} ⟨hname, hdefault⟩ => by
    obtain ⟨name, default⟩ := p
    obtain ⟨name', default'⟩ := p'
    cases hname
    cases hdefault with
    | none => rfl
    | some h =>
      cases h
      rfl) h

/-- Order does not depend on places. -/
lemma unplaced_hoist (block : Program) :
    Program.hoist (unplacedAll block) = unplacedAll block.hoist := by
  have hpred : isDefinition ∘ unplaced = isDefinition :=
    funext isDefinition_unplaced
  have hothers : (fun stmt => !stmt.isDefinition) ∘ unplaced = fun stmt => !stmt.isDefinition :=
    funext fun stmt => congrArg not stmt.isDefinition_unplaced
  rw [Program.hoist, Program.hoist, unplacedAll_eq_map, unplacedAll_eq_map, filter_map,
    filter_map, map_append]
  exact congrArg₂ (fun p q => (block.filter p).map _ ++ (block.filter q).map _) hpred hothers

/-- Trees and what they are lowered to, with places and without. -/
def bareLikeness : Likeness where
  tree t t' := t' = t.bare ∧ t.Worded
  place _ p' := p' = .start
  issue e e' := e' = e.unplaced
  expr e e' := e' = e.unplaced
  statement stmt stmt' := stmt' = stmt.unplaced
  block b b' := b' = Statement.unplacedAll b
  kind {t _} h := h.1 ▸ t.kind_bare
  pos {t _} h := h.1 ▸ t.pos_bare
  text h hkind := h.1 ▸ Tree.text_bare hkind
  children {t t'} h := by
    obtain ⟨rfl, hwords⟩ := h
    obtain ⟨kind, text, pos, children⟩ := t
    rw [Tree.children_bare, forall₂_map_right_iff]
    exact forall₂_same.mpr fun u hu => ⟨rfl, fun node hnode => hwords node (.inside hu hnode)⟩
  operators {t t'} h := by
    obtain ⟨rfl, hwords⟩ := h
    rw [operators_bare, forall₂_map_right_iff]
    exact forall₂_same.mpr fun op hop => (Tree.text_bare (hwords t .self op hop)).symm
  noteUnmapped h _ := by cases h; rfl
  noteBinding h _ := by cases h; rfl
  noteMalformed h _ _ := by cases h; rfl
  number h _ := by cases h; rfl
  string h _ := by cases h; rfl
  bool h _ := by cases h; rfl
  undefined h := by cases h; rfl
  var h _ := by cases h; rfl
  vector h hes := by
    cases h
    rw [eq_map_of_forall₂ id hes, Expr.unplaced, Expr.unplacedAll_eq_map]
  index h ha hb := by cases h; cases ha; cases hb; rfl
  binary h _ ha hb := by cases h; cases ha; cases hb; rfl
  negate h ha := by cases h; cases ha; rfl
  not h ha := by cases h; cases ha; rfl
  compare h _ ha hb := by cases h; cases ha; cases hb; rfl
  and h ha hb := by cases h; cases ha; cases hb; rfl
  or h ha hb := by cases h; cases ha; cases hb; rfl
  cond h ha hb hc := by cases h; cases ha; cases hb; cases hc; rfl
  range h ha hb := by cases h; cases ha; cases hb; rfl
  rangeBy h ha hb hc := by cases h; cases ha; cases hb; cases hc; rfl
  call h _ _ hargs := by
    cases h
    rw [eq_unplacedAll_of_forall₂ hargs, Expr.unplaced]
  assign h _ he := by cases h; cases he; rfl
  evaluate h _ he := by
    cases h
    rw [he, Statement.unplaced]
  invoke h _ _ hargs hb := by
    cases h
    rw [eq_unplacedAll_of_forall₂ hargs, hb, Statement.unplaced]
  defineModule h _ _ hps hb := by
    cases h
    rw [eq_map_unplaced_of_forall₂ hps, hb, Statement.unplaced]
  defineFunction h _ _ hps he := by
    cases h
    rw [eq_map_unplaced_of_forall₂ hps, he, Statement.unplaced]
  branch h he ha hb := by cases h; cases he; cases ha; cases hb; rfl
  loop h _ hbs hb := by
    cases h
    rw [hb, Statement.unplaced]
    exact congrArg (Statement.loop .start · _) (eq_map_of_forall₂ (fun {b b'} ⟨hname, hdomain⟩ => by
      obtain ⟨name, domain⟩ := b'
      rw [Binding.unplaced, hname, ← hdomain]) hbs)
  hoist h := by
    rw [eq_map_of_forall₂ id h, ← Statement.unplacedAll_eq_map]
    exact unplaced_hoist _

/-- Without places, a tree comes to what it comes to with them. -/
theorem Program.ofTree_bare (functions : List String) {t : Tree} (h : t.Worded) :
    Program.ofTree functions t.bare = Program.unplacedOutcome (Program.ofTree functions t) := by
  have hnodes : List.Forall₂ bareLikeness.tree t.nodes (t.nodes.map Tree.bare) := by
    refine forall₂_map_right_iff.mpr (forall₂_same.mpr
      fun u hu => ⟨rfl, fun node hnode => ?_⟩)
    exact h node (Tree.isPartOf_of_mem_nodes hu hnode)
  have hlowers := Likeness.lowers_statements (Known.union { functions } (.ofBlock t.nodes))
    (hnodes.imp Likeness.handled)
  rw [Program.ofTree_eq, Program.ofTree_eq, Tree.nodes_bare, Likeness.ofBlock_eq hnodes,
    unplacedOutcome]
  refine congrArg₂ Prod.mk ?_ (Array.toList_inj.mp ?_)
  · rcases hlowers.value with ⟨a, b, ha, hb, hblock⟩ | ⟨_, _, he, he', hstops⟩
    · rw [ha, hb]
      exact congrArg Except.ok (bareLikeness.hoist hblock)
    · rw [he, he']
      cases hstops with
      | mistake hissue =>
        cases hissue
        rfl
      | outOfRange hlike =>
        cases hlike.1
        rfl
  · rw [Array.toList_map]
    exact eq_map_of_forall₂ id hlowers.notes

end SolidScript
