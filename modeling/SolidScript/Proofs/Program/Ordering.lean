import SolidScript.Proofs.Program.Nodes
import SolidScript.Proofs.Program.Outcome

/-!
# The order of definitions and bare braces

A block stands for its definitions, then for its other statements. Where definitions stand among the
others, and which statements are grouped by bare braces, makes no difference.
-/

namespace SolidScript

open List Tree Program Known

open Recording (Succeeds succeeds_pure succeeds_bind succeeds_map succeeds_adapt)

/-! ## Statements without braces -/

namespace Tree

/-- Whether a node defines a module or a function. -/
def isDefinition (t : Tree) : Bool := t.kind == "module_def" || t.kind == "function_def"

mutual

/-- A statement, or those of a bare block. -/
def ungrouped : Tree → List Tree
  | t@(.node kind _ _ children) => if kind = "block" then ungroupedAll children else [t]

/-- Statements, with those of a bare block in its place. -/
def ungroupedAll : List Tree → List Tree
  | [] => []
  | t :: ts => t.ungrouped ++ ungroupedAll ts

end

lemma ungroupedAll_eq (ts : List Tree) : ungroupedAll ts = ts.flatMap ungrouped := by
  induction ts with
  | nil => rfl
  | cons t ts ih => rw [ungroupedAll, ih, flatMap_cons]

/-- No bare block is left. -/
lemma kind_ne_of_mem_ungrouped (t : Tree) : ∀ u ∈ t.ungrouped, u.kind ≠ "block" := by
  induction t using induction with
  | h kind text pos children ih =>
    rw [ungrouped]
    split
    · intro u hu
      rw [ungroupedAll_eq] at hu
      obtain ⟨t, ht, hu⟩ := mem_flatMap.mp hu
      exact ih t ht u hu
    · rename_i hkind
      exact forall_mem_singleton.mpr hkind

lemma kind_ne_of_mem_ungroupedAll (ts : List Tree) : ∀ u ∈ ungroupedAll ts, u.kind ≠ "block" := by
  intro u hu
  rw [ungroupedAll_eq] at hu
  obtain ⟨t, -, hu⟩ := mem_flatMap.mp hu
  exact kind_ne_of_mem_ungrouped t u hu

end Tree

/-! ## Names -/

variable {t : Tree}

namespace Known

lemma union_assoc (a b c : Known) : (a.union b).union c = a.union (b.union c) :=
  congrArg₂ mk (append_assoc ..) (append_assoc ..)

lemma ofBlock_append (ts us : List Tree) :
    ofBlock (ts ++ us) = (ofBlock ts).union (ofBlock us) := by
  induction ts with
  | nil => rfl
  | cons t ts ih => rw [cons_append, ofBlock, ofBlock, ih, union_assoc]

lemma ofBlock_ungroupedAll {ts : List Tree} (h : ∀ t ∈ ts, ofBlock t.ungrouped = ofStatement t) :
    ofBlock (ungroupedAll ts) = ofBlock ts := by
  induction ts with
  | nil => rfl
  | cons t ts ih =>
    obtain ⟨ht, hts⟩ := forall_mem_cons.mp h
    rw [ungroupedAll, ofBlock_append, ht, ih hts, ofBlock]

lemma ofBlock_singleton (t : Tree) : ofBlock [t] = ofStatement t :=
  congrArg₂ mk (append_nil _) (append_nil _)

/-- The names of a bare block belong to the block around it. -/
lemma ofBlock_ungrouped (t : Tree) : ofBlock t.ungrouped = ofStatement t := by
  induction t using induction with
  | h kind text pos children ih =>
    rw [ungrouped]
    split
    · rename_i hkind
      subst hkind
      exact ofBlock_ungroupedAll ih
    · exact ofBlock_singleton _

lemma ofStatement_of_not_isDefinition (hblock : t.kind ≠ "block") (h : t.isDefinition = false) :
    ofStatement t = {} := by
  obtain ⟨kind, text, pos, children⟩ := t
  simp only [Tree.isDefinition, Tree.kind, Bool.or_eq_false_iff, beq_eq_false_iff_ne] at h
  rw [ofStatement]
  split <;> rename_i hrule
  · exact absurd (Grammar.Name.kind_of_ofKind? hrule) h.1
  · exact absurd (Grammar.Name.kind_of_ofKind? hrule) h.2
  · exact absurd (Grammar.Name.kind_of_ofKind? hrule) hblock
  · rfl

lemma ofBlock_filter {ts : List Tree} (h : ∀ t ∈ ts, t.kind ≠ "block") :
    ofBlock (ts.filter isDefinition) = ofBlock ts := by
  induction ts with
  | nil => rfl
  | cons t ts ih =>
    obtain ⟨ht, hts⟩ := forall_mem_cons.mp h
    rw [filter_cons, ofBlock]
    split
    · rw [ofBlock, ih hts]
    · rename_i hdef
      rw [ih hts, ofStatement_of_not_isDefinition ht (Bool.eq_false_iff.mpr hdef)]
      rfl

/-- The definitions of a block give its names, wherever they stand. -/
lemma ofBlock_definitions (ts : List Tree) :
    ofBlock ((ungroupedAll ts).filter (·.isDefinition)) = ofBlock ts := by
  rw [ofBlock_filter (kind_ne_of_mem_ungroupedAll ts), ofBlock_ungroupedAll
    fun t _ => ofBlock_ungrouped t]

end Known

namespace OfTree

variable {known : Known} {ts us : List Tree} {ss : List Statement}

/-! ## Statements one by one -/

lemma kept_own (x : Recording Stop (List Statement)) :
    Succeeds (kept (own x)) ss ↔ Succeeds x ss := by
  obtain ⟨result, issues⟩ := x
  cases result with
  | error e =>
    constructor
    · intro h
      nomatch h
    · intro h
      nomatch h
  | ok a => exact Iff.rfl

lemma succeeds_statements_cons : Succeeds (statements known (t :: ts)) ss ↔
    ∃ a, Succeeds (kept (statement known t)) a ∧ ∃ b, Succeeds (statements known ts) b ∧
      a ++ b = ss := by
  rw [statements]
  simp

lemma succeeds_statements_append : Succeeds (statements known (ts ++ us)) ss ↔
    ∃ a, Succeeds (statements known ts) a ∧ ∃ b, Succeeds (statements known us) b ∧
      a ++ b = ss := by
  induction ts generalizing ss with
  | nil =>
    rw [statements]
    simp
  | cons t ts ih =>
    rw [cons_append, succeeds_statements_cons]
    simp only [succeeds_statements_cons, ih]
    constructor
    · rintro ⟨a, ha, _, ⟨b, hb, c, hc, rfl⟩, rfl⟩
      exact ⟨a ++ b, ⟨a, ha, b, hb, rfl⟩, c, hc, append_assoc a b c⟩
    · rintro ⟨_, ⟨a, ha, b, hb, rfl⟩, c, hc, rfl⟩
      exact ⟨a, ha, b ++ c, ⟨b, hb, c, hc, rfl⟩, (append_assoc a b c).symm⟩

lemma succeeds_ungroupedAll
    (h : ∀ t ∈ ts, ∀ ss, Succeeds (statements known t.ungrouped) ss ↔
      Succeeds (kept (statement known t)) ss) :
    Succeeds (statements known (ungroupedAll ts)) ss ↔ Succeeds (statements known ts) ss := by
  induction ts generalizing ss with
  | nil => exact Iff.rfl
  | cons t ts ih =>
    obtain ⟨ht, hts⟩ := forall_mem_cons.mp h
    rw [ungroupedAll, succeeds_statements_append, succeeds_statements_cons]
    simp only [ht, ih hts]

lemma succeeds_ungrouped (t : Tree) :
    ∀ ss, Succeeds (statements known t.ungrouped) ss ↔ Succeeds (kept (statement known t)) ss := by
  induction t using induction with
  | h kind text pos children ih =>
    intro ss
    rw [ungrouped]
    split
    · rename_i hkind
      subst hkind
      rw [statement_block, kept_own]
      exact succeeds_ungroupedAll ih
    · rw [succeeds_statements_cons]
      simp [statements]

/-! ## Definitions and other statements -/

/-- Whatever the computation gives has `Q`. -/
abbrev Gets {ε α : Type} (Q : α → Prop) (x : Recording ε α) : Prop :=
  Recording.Ends (fun _ => True) (fun _ => True) Q x

/-- What comes last decides. -/
lemma gets_bind {ε α β : Type} {Q : β → Prop} (x : Recording ε α) {f : α → Recording ε β}
    (hf : ∀ a, Gets Q (f a)) : Gets Q (x >>= f) :=
  have hx : Gets (fun _ => True) x := ⟨fun _ _ => trivial, fun _ _ => trivial, fun _ _ => trivial⟩
  hx.bind fun a _ => hf a

/-- All statements are definitions, or none is. -/
def AllDefine (define : Bool) (ss : List Statement) : Prop :=
  ∀ stmt ∈ ss, stmt.isDefinition = define

lemma allDefine_nil (define : Bool) : AllDefine define [] := forall_mem_nil _

lemma allDefine_singleton {define : Bool} {stmt : Statement} (h : stmt.isDefinition = define) :
    AllDefine define [stmt] := forall_mem_singleton.mpr h

/-- Nodes that define stand for definitions, other ones for other statements. -/
lemma gets_statement (hblock : t.kind ≠ "block") :
    Gets (AllDefine t.isDefinition) (statement known t) := by
  obtain ⟨kind, text, pos, children⟩ := t
  rw [statement]
  split <;> rename_i hrule
  · exact .pure (allDefine_nil _)
  · exact absurd (Grammar.Name.kind_of_ofKind? hrule) hblock
  all_goals try obtain rfl := Grammar.Name.kind_of_ofKind? hrule
  · exact gets_bind _ fun _ => gets_bind _ fun _ => .pure (allDefine_singleton rfl)
  · exact gets_bind _ fun _ => gets_bind _ fun _ => gets_bind _ fun _ =>
      .pure (allDefine_singleton rfl)
  · exact gets_bind _ fun _ => gets_bind _ fun _ => gets_bind _ fun _ =>
      .pure (allDefine_singleton rfl)
  · exact gets_bind _ fun _ => gets_bind _ fun _ => .pure (allDefine_singleton rfl)
  · refine gets_bind _ fun loops => ?_
    dsimp only
    split
    · exact gets_bind _ fun _ => gets_bind _ fun _ => .pure (allDefine_singleton rfl)
    · exact gets_bind _ fun _ => .pure (allDefine_singleton rfl)
  · split
    · exact .pure (allDefine_nil _)
    · refine gets_bind _ fun _ => gets_bind _ fun _ => gets_bind _ fun _ => ?_
      split <;> exact .pure (allDefine_singleton rfl)
  · exact gets_bind _ fun _ => .pure (allDefine_nil _)

lemma allDefine_of_kept (hblock : t.kind ≠ "block") (h : Succeeds (kept (statement known t)) ss) :
    AllDefine t.isDefinition ss := by
  have hgets : Gets (AllDefine t.isDefinition) (statement known t) := gets_statement hblock
  revert h hgets
  generalize statement known t = x
  intro h hgets
  obtain ⟨result, issues⟩ := x
  rcases result with (e | ⟨_ | _⟩) | a
  · nomatch h
  · cases h
    exact allDefine_nil _
  · nomatch h
  · cases h
    exact hgets.gives _ rfl

/-- Nodes give statements if each one does. -/
lemma exists_statements_iff : (∃ ss, Succeeds (statements known ts) ss) ↔
    ∀ t ∈ ts, ∃ ss, Succeeds (kept (statement known t)) ss := by
  induction ts with
  | nil => exact ⟨fun _ _ ht => absurd ht not_mem_nil, fun _ => ⟨[], rfl⟩⟩
  | cons t ts ih =>
    rw [forall_mem_cons, ← ih]
    constructor
    · rintro ⟨ss, hss⟩
      obtain ⟨a, ha, b, hb, -⟩ := succeeds_statements_cons.mp hss
      exact ⟨⟨a, ha⟩, b, hb⟩
    · rintro ⟨⟨a, ha⟩, b, hb⟩
      exact ⟨a ++ b, succeeds_statements_cons.mpr ⟨a, ha, b, hb, rfl⟩⟩

/-- The definitions among some nodes stand for the definitions among their statements, and likewise
the others. -/
lemma succeeds_filter (hts : ∀ t ∈ ts, t.kind ≠ "block") (define : Bool)
    (h : Succeeds (statements known ts) ss) :
    Succeeds (statements known (ts.filter (·.isDefinition == define)))
      (ss.filter (·.isDefinition == define)) := by
  induction ts generalizing ss with
  | nil =>
    cases succeeds_pure.mp h
    rfl
  | cons t ts ih =>
    obtain ⟨ht, hts⟩ := forall_mem_cons.mp hts
    obtain ⟨a, ha, b, hb, rfl⟩ := succeeds_statements_cons.mp h
    have hdef := allDefine_of_kept ht ha
    rw [filter_append]
    by_cases hsame : t.isDefinition = define
    · have hall : a.filter (·.isDefinition == define) = a :=
        filter_eq_self.mpr fun stmt hstmt => by simp [hdef stmt hstmt, hsame]
      rw [filter_cons_of_pos (by simp [hsame]), hall]
      exact succeeds_statements_cons.mpr ⟨a, ha, _, ih hts hb, rfl⟩
    · have hnone : a.filter (·.isDefinition == define) = [] :=
        filter_eq_nil_iff.mpr fun stmt hstmt => by simp [hdef stmt hstmt, hsame]
      rw [filter_cons_of_neg (by simp [hsame]), hnone]
      exact ih hts hb

/-! ## Blocks -/

lemma statements_singleton (known : Known) (t : Tree) :
    statements known [t] = kept (statement known t) := by
  rw [statements, statements]
  generalize kept (statement known t) = x
  obtain ⟨result, issues⟩ := x
  cases result with
  | error e => exact congrArg (Noted.mk _) (Array.append_empty ..)
  | ok ss => exact congrArg₂ Noted.mk (congrArg _ (append_nil ss)) (by simp; rfl)

/-- The block that some nodes stand for inside of blocks that define some names. -/
def block (known : Known) (nodes : List Tree) : Recording Stop Program :=
  hoist <$> statements (known.union (.ofBlock nodes)) nodes

/-- A tree stands for the block of its statements. -/
lemma ofTree_eq_block (functions : List String) (t : Tree) :
    ofTree functions t =
      ((block { functions } t.nodes).run.value, (block { functions } t.nodes).run.notes) := by
  rw [ofTree_eq, block]
  generalize statements _ t.nodes = x
  obtain ⟨result, issues⟩ := x
  cases result with
  | error e => exact congrArg _ (Array.append_empty ..).symm
  | ok ss => exact congrArg _ (Array.append_empty ..).symm

/-- A body stands for the block of its statements. -/
lemma body_eq_block (known : Known) (t : Tree) :
    body known t (inside · t) (statement · t) =
      owned (block known (if t.kind = "block" then t.children else [t])) := by
  obtain ⟨kind, text, pos, children⟩ := t
  unfold body block
  split
  · rfl
  · rw [ofBlock_singleton, statements_singleton]

/-- Without bare braces, the nodes have the same definitions and the same other statements, each in
the same order. -/
structure SameStatements (nodes nodes' : List Tree) : Prop where
  definitions : (ungroupedAll nodes).filter (·.isDefinition) =
    (ungroupedAll nodes').filter (·.isDefinition)
  others : (ungroupedAll nodes).filter (!·.isDefinition) =
    (ungroupedAll nodes').filter (!·.isDefinition)

namespace SameStatements

variable {nodes nodes' : List Tree}

lemma symm (h : SameStatements nodes nodes') : SameStatements nodes' nodes :=
  ⟨h.definitions.symm, h.others.symm⟩

lemma filter_eq (h : SameStatements nodes nodes') (define : Bool) :
    (ungroupedAll nodes).filter (·.isDefinition == define) =
      (ungroupedAll nodes').filter (·.isDefinition == define) := by
  cases define with
  | false => simpa using h.others
  | true => simpa using h.definitions

lemma mem_of_mem (h : SameStatements nodes nodes') (ht : t ∈ ungroupedAll nodes') :
    t ∈ ungroupedAll nodes := by
  have hmem : t ∈ (ungroupedAll nodes').filter (·.isDefinition == t.isDefinition) :=
    mem_filter.mpr ⟨ht, beq_self_eq_true _⟩
  rw [← h.filter_eq] at hmem
  exact (mem_filter.mp hmem).1

/-- The same names are defined. -/
lemma ofBlock_eq (h : SameStatements nodes nodes') : ofBlock nodes = ofBlock nodes' := by
  rw [← ofBlock_definitions, h.definitions, ofBlock_definitions]

end SameStatements

lemma succeeds_block {nodes : List Tree} {program : Program} :
    Succeeds (block known nodes) program ↔
    ∃ ss, Succeeds (statements (known.union (.ofBlock nodes)) (ungroupedAll nodes)) ss ∧
      hoist ss = program := by
  simp only [block, succeeds_map, succeeds_ungroupedAll fun t _ => succeeds_ungrouped t]

lemma SameStatements.succeeds {nodes nodes' : List Tree} (h : SameStatements nodes nodes')
    {program : Program} (hblock : Succeeds (block known nodes) program) :
    Succeeds (block known nodes') program := by
  obtain ⟨ss, hss, rfl⟩ := succeeds_block.mp hblock
  rw [h.ofBlock_eq] at hss
  obtain ⟨ss', hss'⟩ := exists_statements_iff.mpr fun t ht =>
    exists_statements_iff.mp ⟨ss, hss⟩ t (h.mem_of_mem ht)
  refine succeeds_block.mpr ⟨ss', hss', ?_⟩
  have hfilter (define : Bool) :
      ss'.filter (·.isDefinition == define) = ss.filter (·.isDefinition == define) := by
    have hnodes := succeeds_filter (kind_ne_of_mem_ungroupedAll nodes) define hss
    have hnodes' := succeeds_filter (kind_ne_of_mem_ungroupedAll nodes') define hss'
    rw [h.filter_eq] at hnodes
    exact Except.ok.inj (hnodes'.symm.trans hnodes)
  have hdefs := hfilter true
  have hothers := hfilter false
  simp only [beq_true, beq_false] at hdefs hothers
  rw [hoist, hoist, hdefs, hothers]

/-- Where definitions stand among the other statements, and which statements bare braces group,
makes no difference to the block that nodes stand for. -/
theorem definition_order_irrelevant (known : Known) {nodes nodes' : List Tree}
    (h : SameStatements nodes nodes') (program : Program) :
    Succeeds (block known nodes) program ↔ Succeeds (block known nodes') program :=
  ⟨h.succeeds, h.symm.succeeds⟩

/-- A call in front of the definition of its function, which stands in bare braces with an
assignment. -/
theorem definition_order_irrelevant_grouped :
    let call : Tree := .node "operator_call" "" ⟨1, 1⟩
      [.node "ident" "f" .start [], .node "call_args" "" .start [], .node "empty_stmt" "" .start []]
    let assign : Tree := .node "assignment" "" ⟨2, 1⟩
      [.node "ident" "x" .start [], .node "expr" "" .start [.node "undef" "" ⟨2, 5⟩ []]]
    let define : Tree := .node "function_def" "" ⟨3, 1⟩
      [.node "ident" "f" .start [], .node "params" "" .start [],
        .node "expr" "" .start [.node "undef" "" ⟨3, 9⟩ []]]
    let program : Program := [.defineFunction ⟨3, 1⟩ ⟨"f", [], .undefined ⟨3, 9⟩⟩,
      .evaluate ⟨1, 1⟩ (.call ⟨1, 1⟩ "f" []), .assign ⟨2, 1⟩ "x" (.undefined ⟨2, 5⟩)]
    SameStatements [call, .node "block" "" .start [assign, define]] [define, call, assign] ∧
      Succeeds (block {} [call, .node "block" "" .start [assign, define]]) program :=
  ⟨⟨rfl, rfl⟩, (definition_order_irrelevant {} ⟨rfl, rfl⟩ _).mpr rfl⟩

end OfTree

end SolidScript
