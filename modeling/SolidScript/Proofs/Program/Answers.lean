import SolidScript.Proofs.Program.Lowering

/-!
# Trees are answered

A tree of any kind gives a program or a mistake, with one exception: signs that have no operand.
Where it gives neither, it holds a `unary` node without children.
-/

namespace SolidScript

open Program

namespace OfTree

/-- The computation stops with a mistake or with one of some nodes. -/
abbrev Stopping {α : Type} (S : Tree → Prop) (x : Recording Stop α) : Prop :=
  Lowers S (fun _ => True) x

lemma stopping_statements {S : Tree → Prop} {ts : List Tree} (known : Known)
    (h : ∀ t ∈ ts, Handled S t) : Stopping S (statements known ts) :=
  (lowers_statements known h).mono (fun _ _ => trivial) fun _ he => he

end OfTree

/-- Every tree is answered, with a program or with a mistake, unless signs in it have no operand:
where there is no answer, the tree holds such a node. -/
theorem Program.ofTree_answers (functions : List String) (t : Tree) :
    (∃ program, (ofTree functions t).1 = .ok program) ∨
      (∃ e, (ofTree functions t).1 = .error (.mistake e)) ∨
      ∃ node, node.IsPartOf t ∧ node.LacksOperand ∧ (ofTree functions t).1 =
      .error (.outOfRange node) := by
  have hstops : OfTree.Stopping (Tree.IsPartOf · t)
      (OfTree.statements (Known.union { functions } (.ofBlock t.nodes)) t.nodes) :=
    OfTree.stopping_statements _ fun u hu => OfTree.handled u fun node =>
      Tree.isPartOf_of_mem_nodes hu
  have hfails := hstops.fails
  rw [ofTree_eq]
  generalize (OfTree.statements (Known.union { functions } (.ofBlock t.nodes)) t.nodes).run.value =
    result at hfails
  rcases result with (e | node) | block
  · exact .inr (.inl ⟨e, rfl⟩)
  · obtain ⟨hpart, hlacks⟩ := hfails _ rfl
    exact .inr (.inr ⟨node, hpart, hlacks, rfl⟩)
  · exact .inl ⟨hoist block, rfl⟩

/-- An assignment whose value is made of signs without an operand. -/
def operandlessTree : Tree :=
  .node "program" "" .start [
    .node "assignment" "" .start [
      .node "ident" "x" .start [], .node "expr" "" .start [.node "unary" "" .start []]]]

/-- It gives neither a program nor a mistake. -/
theorem Program.ofTree_operandless :
    ¬((∃ program, (ofTree [] operandlessTree).1 = .ok program) ∨
      ∃ e, (ofTree [] operandlessTree).1 = .error (.mistake e)) := by
  have hresult : (ofTree [] operandlessTree).1 =
      .error (.outOfRange (.node "unary" "" .start [])) := rfl
  rw [hresult]
  rintro (⟨program, h⟩ | ⟨e, h⟩)
  · nomatch h
  · nomatch h

end SolidScript
