import Mathlib
import SolidScript.Proofs.Grammar.Lexing
import SolidScript.Proofs.Program.Unplaced

/-!
# Layout does not matter

Layout may be put in between any two tokens of a source text, and in front of the first and behind
the last one. What the text compiles to stays the same, but for places.
-/

namespace SolidScript

open Grammar List

namespace Grammar

/-! ## Trees of source texts -/

/-- The nodes that a rule leaves: trees whose operators are words, and one of its own kind where it
leaves a node. -/
structure LeavesWords (r : Name) (ns : List Tree) : Prop where
  worded : ∀ t ∈ ns, t.Worded
  node : (programs.rules r).form = .node → ∃ t, ns = [t] ∧ t.kind = r.kind

/-- The operators between operands are those of the rule. -/
lemma words_of_leftChain {r q : Name} (hr : (programs.rules r).form = .node)
    (hq : (programs.rules q).form = .node) (hword : q.kind ∈ Tree.wordKinds) {ns : List Tree}
    (h : (Rules.leftChain r (.rule q)).body.Leaves LeavesWords ns) :
    ∀ op ∈ Tree.everyOther ns.tail, op.kind ∈ Tree.wordKinds := by
  obtain ⟨_, _, rfl, hfirst, xss, rfl, hxss⟩ := h
  obtain ⟨t, rfl, -⟩ := LeavesWords.node hfirst hr
  induction xss with
  | nil => exact forall_mem_nil _
  | cons xs xss ih =>
    obtain ⟨hxs, hrest⟩ := forall_mem_cons.mp hxss
    obtain ⟨_, _, rfl, hop, hu⟩ := hxs
    obtain ⟨op, rfl, hkind⟩ := LeavesWords.node hop hq
    obtain ⟨u, rfl, -⟩ := LeavesWords.node hu hr
    exact forall_mem_cons.mpr ⟨hkind ▸ hword, ih hrest⟩

lemma words_of_unary {ns : List Tree} (h : (programs.rules .unary).body.Leaves LeavesWords ns) :
    ∀ op ∈ ns.dropLast, op.kind ∈ Tree.wordKinds := by
  obtain ⟨ops, _, rfl, ⟨xss, rfl, hxss⟩, ht⟩ := h
  obtain ⟨t, rfl, -⟩ := LeavesWords.node ht rfl
  rw [dropLast_concat]
  intro op hop
  obtain ⟨xs, hxs, hop⟩ := mem_flatten.mp hop
  obtain ⟨u, rfl, hkind⟩ := LeavesWords.node (hxss xs hxs) rfl
  rw [mem_singleton.mp hop, hkind]
  decide

lemma words_of_leaves {r : Name} {text : String} {pos : Position} {ns : List Tree}
    (h : (programs.rules r).body.Leaves LeavesWords ns) :
    ∀ op ∈ (Tree.node r.kind text pos ns).operators, op.kind ∈ Tree.wordKinds := by
  cases r
  case equality => exact words_of_leftChain rfl rfl (by decide) h
  case comparison => exact words_of_leftChain rfl rfl (by decide) h
  case additive => exact words_of_leftChain rfl rfl (by decide) h
  case multiplicative => exact words_of_leftChain rfl rfl (by decide) h
  case unary => exact words_of_unary h
  all_goals exact forall_mem_nil _

/-- Every operator in the tree of a source text is a word. -/
theorem worded_of_parse {source : String} {tree : Tree} (hparse : parse source = .ok tree) :
    tree.Worded := by
  obtain ⟨d, hparses⟩ := parse_eq_ok.mp hparse
  have hleaves : (Phase.one (.rule .program)).Leaves LeavesWords [tree] := by
    refine hparses.leaves (fun {_ r c d ns} _ _ hbody => ?_) (Cursor.sound_start _) d [tree] rfl
    have hns : ∀ t ∈ ns, t.Worded := hbody.forall_mem fun _ _ h => h.worded
    unfold RuleSet.leaves
    split
    · refine ⟨forall_mem_singleton.mpr ?_, fun _ => ⟨_, rfl, rfl⟩⟩
      rintro _ (_ | ⟨ht, hnode⟩)
      · exact words_of_leaves hbody
      · exact hns _ ht _ hnode
    · exact ⟨forall_mem_nil _, fun hform => by simp_all⟩
    · exact ⟨hns, fun hform => by simp_all⟩
  exact hleaves.worded tree mem_cons_self

end Grammar

/-! ## Source texts with more layout -/

/-- A source text with a tree is made of tokens and layout throughout; and wherever layout is put in
between them, the text still has a tree, and the program, the issues and the mistake stay the same
but for places. -/
theorem Program.layout_irrelevant (functions : List String) {source : String} {tree : Tree}
    (hparse : parse source = .ok tree) :
    Grammar.Lexed source.toList ∧
      ∀ source' : String, Grammar.Relaid source.toList source'.toList →
        ∃ tree', parse source' = .ok tree' ∧
          unplacedOutcome (ofTree functions tree') = unplacedOutcome (ofTree functions tree) := by
  refine ⟨lexed_of_parse hparse, fun source' hrelaid => ?_⟩
  obtain ⟨tree', hparse', hbare⟩ := parse_alike hrelaid.sameTokens hparse
  refine ⟨tree', hparse', ?_⟩
  have hwords := worded_of_parse hparse
  have hwords' := worded_of_parse hparse'
  rw [← ofTree_bare functions hwords, ← ofTree_bare functions hwords', hbare]

/-- A comment in front of an operand, and one to the end of its line behind the last token. -/
theorem Program.layout_irrelevant_commented :
    ∃ tree tree', parse "a=b/c;" = .ok tree ∧ parse "a=b/ /*!*/c;//\n" = .ok tree' ∧
      unplacedOutcome (ofTree [] tree') = unplacedOutcome (ofTree [] tree) := by
  have hsome : (parse "a=b/c;").toOption.isSome = true := by cbv
  have hword {x d : Char} {k : List Char} (hx : Grammar.Words.isNameStart x)
    (hd : Grammar.Words.isWordChar d = false) :
      Grammar.Token .word [x] (d :: k) :=
    .word hx (fun _ h => absurd h not_mem_nil) (Grammar.Words.wordEnd_cons.mpr hd)
  have hfront : Grammar.Layout [' ', '/', '*', '!', '*', '/'] :=
    .blank rfl (.comment (.block (x := ['!']) (by decide)) .nil)
  have hback : Grammar.Layout ['/', '/', '\n'] := .comment (.line (x := []) not_mem_nil) .nil
  have hrelaid : Grammar.Relaid ['a', '=', 'b', '/', 'c', ';']
      ['a', '=', 'b', '/', ' ', '/', '*', '!', '*', '/', 'c', ';', '/', '/', '\n'] := by
    refine .token (hword rfl rfl) (by decide) ?_
    refine .token (w := ['=']) (.symbol (s := "=") (by decide) (fun d hd => by cases hd; decide))
      (by decide) ?_
    refine .token (hword rfl rfl) (by decide) ?_
    refine .token (w := ['/']) (.symbol (s := "/") (by decide) (fun d hd => by cases hd; decide))
      (by decide) ?_
    refine .insert hfront (.token (hword rfl rfl) (by decide) ?_)
    refine .token (w := [';']) (.symbol (s := ";") (by decide) (fun d hd => by cases hd))
      (by decide) ?_
    exact .insert hback .nil
  cases htree : parse "a=b/c;" with
  | error e =>
    rw [htree] at hsome
    exact Bool.noConfusion hsome
  | ok tree =>
    obtain ⟨tree', hparse', hsame⟩ := (layout_irrelevant [] htree).2 "a=b/ /*!*/c;//\n" hrelaid
    exact ⟨tree, tree', rfl, hparse', hsame⟩

end SolidScript
