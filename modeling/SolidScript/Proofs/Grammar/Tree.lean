import Mathlib.Tactic.Common
import SolidScript.Program.OfTree

/-!
# Nodes of syntax trees

Induction over trees, and the nodes that are part of one.
-/

namespace SolidScript

/-- Nodes of a kind belong to its rule. -/
lemma Grammar.Name.kind_of_ofKind? {kind : String} {r : Grammar.Name} (h : ofKind? kind = some r) :
    kind = r.kind := by
  have hkind := List.find?_some h
  exact (of_decide_eq_true hkind).symm

namespace Tree

/-- What is shown of the children of a node is shown of the node. -/
theorem induction {P : Tree → Prop}
    (h : ∀ kind text pos children, (∀ t ∈ children, P t) → P (.node kind text pos children)) :
    ∀ t, P t
  | .node kind text pos children => h kind text pos children (all children)
where
  all : ∀ ts : List Tree, ∀ t ∈ ts, P t
    | [] => List.forall_mem_nil _
    | t :: ts => List.forall_mem_cons.mpr ⟨induction h t, all ts⟩

/-- A node of a tree: the tree itself, or a node of one of its children. -/
inductive IsPartOf (node : Tree) : Tree → Prop where
  | self : node.IsPartOf node
  | inside {kind text : String} {pos : Position} {children : List Tree} {t : Tree}
    (h : t ∈ children)
      (hnode : node.IsPartOf t) : node.IsPartOf (.node kind text pos children)

/-- The statements that a tree stands for at the outermost level. -/
def nodes (t : Tree) : List Tree := if t.kind = "program" then t.children else [t]

lemma isPartOf_of_mem_nodes {t u node : Tree} (hu : u ∈ t.nodes) (hnode : node.IsPartOf u) :
    node.IsPartOf t := by
  obtain ⟨kind, text, pos, children⟩ := t
  unfold nodes at hu
  split at hu
  · exact .inside hu hnode
  · rw [List.mem_singleton] at hu
    exact hu ▸ hnode

/-! ## Trees without places -/

/-- The kinds of nodes whose text is read. -/
def wordKinds : List String :=
  ["number", "boolean", "ident", "string_inner", "modifier", "eq_op", "cmp_op", "add_op", "mul_op",
    "unary_op"]

mutual

/-- The tree without places, and without texts that may hold layout. -/
def bare : Tree → Tree
  | .node kind text _ children =>
    .node kind (if kind ∈ wordKinds then text else "") .start (bareAll children)

def bareAll : List Tree → List Tree
  | [] => []
  | t :: ts => t.bare :: bareAll ts

end

lemma bareAll_eq_map (ts : List Tree) : bareAll ts = ts.map bare := by
  induction ts with
  | nil => rfl
  | cons t ts ih => rw [bareAll, ih, List.map_cons]

variable (t : Tree)

@[simp]
lemma kind_bare : t.bare.kind = t.kind := by
  obtain ⟨kind, text, pos, children⟩ := t
  rfl

@[simp]
lemma pos_bare : t.bare.pos = .start := by
  obtain ⟨kind, text, pos, children⟩ := t
  rfl

@[simp]
lemma children_bare : t.bare.children = t.children.map bare := by
  obtain ⟨kind, text, pos, children⟩ := t
  exact bareAll_eq_map children

/-- The text of a word stays. -/
lemma text_bare {t : Tree} (h : t.kind ∈ wordKinds) : t.bare.text = t.text := by
  obtain ⟨kind, text, pos, children⟩ := t
  exact if_pos h

lemma nodes_bare : t.bare.nodes = t.nodes.map bare := by
  unfold nodes
  rw [kind_bare, children_bare]
  split
  · rfl
  · rfl

end Tree

/-- A tree gives the statements that its nodes give, with definitions first. -/
lemma Program.ofTree_eq (functions : List String) (t : Tree) :
    Program.ofTree functions t =
      (Program.hoist <$>
      (OfTree.statements (Known.union { functions } (.ofBlock t.nodes)) t.nodes).run.value,
        (OfTree.statements (Known.union { functions } (.ofBlock t.nodes)) t.nodes).run.notes) := rfl

end SolidScript
