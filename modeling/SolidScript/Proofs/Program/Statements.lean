import SolidScript.Proofs.Program.Calls
import SolidScript.Proofs.Program.Classification

/-!
# Rereading statements

The canonical text of a statement is read as that statement, up to places, wherever its calls are of
the right kind.
-/

namespace SolidScript

open Statement Grammar Known List OfTree

open Grammar (Name Peg programs Reads Refuses One Follows gap_nil)
open Grammar.Rules (sym)
open Grammar.Pattern Grammar.Words
open Recording (Yields yields_pure)

variable {numeral : Float → String}

/-! ## Blocks -/

lemma Statement.isDefinition_unplaced (stmt : Statement) :
    stmt.unplaced.isDefinition = stmt.isDefinition := by
  cases stmt with
  | defineModule pos m =>
    obtain ⟨name, params, body⟩ := m
    rfl
  | _ => rfl

/-- Moving some members of a list to the front changes nothing exactly if they stand there. -/
lemma filter_append_filter_eq_self {α : Type} {p : α → Bool} {xs : List α} :
    xs.filter p ++ xs.filter (fun a => !p a) = xs ↔ (xs.map p).Pairwise fun a b => b = true →
      a = true := by
  constructor
  · intro h
    rw [← h, pairwise_map]
    exact pairwise_filter_append p xs
  · intro h
    induction xs with
    | nil => rfl
    | cons x xs ih =>
      obtain ⟨hx, hxs⟩ := pairwise_cons.mp h
      have hih := ih hxs
      by_cases hp : p x = true
      · rw [filter_cons_of_pos hp, filter_cons_of_neg (by simp [hp]), cons_append, hih]
      · -- nothing behind belongs to the front
        have hnone : xs.filter p = [] :=
          filter_eq_nil_iff.mpr fun y hy hpy => hp (hx _ (mem_map_of_mem hy) hpy)
        rw [hnone, nil_append] at hih
        rw [filter_cons_of_neg hp, hnone, filter_cons_of_pos (by simp [hp]), hih, nil_append]

variable {block : Program} {k w : List Char} {pos : Position} {args : List Argument}

/-- Blocks that differ in places only, with definitions first in one of them. -/
lemma Program.hoist_eq_self_of_unplaced {block' : Program}
    (h : unplacedAll block' = unplacedAll block)
    (hblock : block.Hoisted) : block'.hoist = block' := by
  have hsame : ∀ block : Program,
      (unplacedAll block).map isDefinition = block.map isDefinition := by
    intro block
    rw [unplacedAll_eq_map, map_map]
    exact map_congr_left fun stmt _ => stmt.isDefinition_unplaced
  refine filter_append_filter_eq_self.mpr ?_
  rw [← hsame block', h, hsame block, pairwise_map]
  exact hblock

/-! ## Nodes of statements -/

/-- The node stands for the statement, up to places, wherever its calls are of the right kind. -/
structure Means (stmt : Statement) (t : Tree) : Prop where
  names : (Known.ofStatement t).names = stmt.names
  yields : ∀ known : Known, stmt.Classified known.names →
    ∃ stmt', Yields (statement known t) [stmt'] ∧ stmt'.unplaced = stmt.unplaced

lemma Recording.Yields.kept {x : Recording Failure (List Statement)} {block : List Statement}
    (h : Yields x block) : Yields (kept x) block := by
  obtain ⟨result, notes⟩ := x
  cases h
  rfl

variable {known : Known} {loops : List Binding} {p : Position} {no yes : Program}
  {name text : String} {t : Tree}
    {B : Tree → Prop}

namespace OfTree

variable {block : Program} {ts : List Tree}

lemma names_ofBlock (h : Forall₂ Means block ts) : (ofBlock ts).names = block.names := by
  induction h with
  | nil => exact names_empty.trans Program.names_nil.symm
  | cons ht _ ih => rw [ofBlock, names_union, Program.names_cons, ht.names, ih]

lemma yields_statements (h : Forall₂ Means block ts)
    (hclassified : ClassifiedAll known.names block) :
    ∃ block', Yields (statements known ts) block' ∧ unplacedAll block' = unplacedAll block := by
  induction h with
  | nil => exact ⟨[], yields_pure [], rfl⟩
  | cons ht _ ih =>
    obtain ⟨hstmt, hrest⟩ := hclassified
    obtain ⟨stmt', hstmt', heq⟩ := ht.yields known hstmt
    obtain ⟨block', hblock', heqs⟩ := ih hrest
    refine ⟨stmt' :: block', hstmt'.kept.bind (hblock'.bind (yields_pure _)), ?_⟩
    rw [unplacedAll, unplacedAll, heq, heqs]

/-- Statements that are known to the names they define, with definitions first. -/
lemma yields_hoisted (h : Forall₂ Means block ts) (hclassified : block.Classified known.names) :
    ∃ block', Yields (Program.hoist <$> statements (known.union (.ofBlock ts)) ts) block' ∧
      unplacedAll block' = unplacedAll block := by
  have hvisible : (known.union (.ofBlock ts)).names = known.names ∪ block.names := by
    rw [names_union, names_ofBlock h]
  obtain ⟨block', hblock', heq⟩ := yields_statements h (by rw [hvisible]; exact hclassified.2)
  refine ⟨block', ?_, heq⟩
  -- the definitions stand in front already
  have hyields : Yields _ (Program.hoist block') := hblock'.map
  rwa [Program.hoist_eq_self_of_unplaced heq hclassified.1] at hyields

/-- The node is a block of these statements. -/
structure IsBlock (block : Program) (t : Tree) : Prop where
  kind : t.kind = "block"
  children : List.Forall₂ Means block t.children

lemma IsBlock.yields_body (h : IsBlock block t) (hclassified : block.Classified known.names) :
    ∃ block', Yields (body known t (inside · t) (statement · t)) block' ∧
      unplacedAll block' = unplacedAll block := by
  obtain ⟨block', hblock', heq⟩ := yields_hoisted h.children hclassified
  refine ⟨block', ?_, heq⟩
  obtain ⟨kind, text, pos, children⟩ := t
  rw [body, if_pos h.kind]
  exact hblock'.adapt

end OfTree

/-! ## Texts of statements -/

/-- What may stand behind a statement: no blanks, and no other branch. -/
structure StatementEnd (k : List Char) : Prop where
  clear : Clear k
  notElse : (word "else").take k = none

/-- The text is read as the statement, and another statement may stand in front of it. -/
structure ReadsStatement (u : List Char) (stmt : Statement) : Prop where
  start : ∀ k, StatementEnd (u ++ k)
  reads : ∀ k, StatementEnd k → Reads false (.rule .statement) u k (One (Means stmt))

/-- The texts of the statements are read as those statements. -/
def ReadsBlock (numeral : Float → String) (block : Program) : Prop :=
  ∀ stmt ∈ block, ReadsStatement (stmt.render numeral) stmt

/-- Statements one after the other. -/
lemma reads_statements (h : ReadsBlock numeral block) (hk : StatementEnd k)
    (hend : Refuses false (.rule .statement) k) :
    Reads false (.star (.rule .statement)) (renderAll numeral block) k (Forall₂ Means block) ∧
      StatementEnd (renderAll numeral block ++ k) := by
  induction block with
  | nil => exact ⟨(Reads.star_nil hend).imp fun ns hns => hns ▸ .nil, hk⟩
  | cons stmt rest ih =>
    obtain ⟨hstmt, hrest⟩ := forall_mem_cons.mp h
    obtain ⟨hreads, hstart⟩ := ih hrest
    rw [renderAll]
    refine ⟨?_, by rw [append_assoc]; exact hstmt.start _⟩
    -- the rest starts with a statement or is the end, and so with no other branch
    refine .star_append (n := 4) (by decide) (hstmt.reads _ hstart) (gap_nil hstart.clear) hreads ?_
    intro xs ys hxs hys
    obtain ⟨t, rfl, ht⟩ := hxs
    exact .cons ht hys

/-- A block in braces. -/
lemma reads_braced (h : ReadsBlock numeral block) (k : List Char) :
    Reads false (.rule .statement) (braced (renderAll numeral block)) k
      (One (IsBlock block)) := by
  have hclose : StatementEnd ('}' :: k) := ⟨clear_cons rfl, rfl⟩
  have hend : Refuses false (.rule .statement) ('}' :: k) :=
    .of_starts (n := 4) (by decide) (by decide) hclose.clear
  obtain ⟨hreads, hstart⟩ := reads_statements h hclose hend
  have hinner := hreads.seq_sym "\x7d" (gap_nil hclose.clear)
  have hclear : Clear ((renderAll numeral block ++ ['}']) ++ k) := by
    rw [append_assoc]
    exact hstart.clear
  refine .silent rfl (.oneOf 1 rfl (refuses_of_starts (n := 4) (by rfl) (by decide)) ?_)
  exact .node rfl (.sym_seq "\x7b" (gap_nil hclear) hinner) fun _ _ hns => ⟨rfl, hns⟩

lemma reads_closed (h : ReadsBlock numeral block) (k : List Char) :
    Reads false (.seq (sym ")") (.rule .statement)) (')' :: braced (renderAll numeral block)) k
      (One (IsBlock block)) :=
  .sym_seq ")" (gap_nil (clear_cons (by rfl))) (reads_braced h k)

/-! ### Statements that start with a name -/

/-- The forms of statements. -/
def statementForms : List (Peg Name) :=
  [.rule .emptyStatement, .rule .block, .rule .moduleDef, .rule .functionDef, .rule .ifStatement,
    .rule .forStatement, .rule .assignment, .rule .operatorCall]

lemma reads_statement (n : Nat) {a : Peg Name} {u : List Char} {A : Tree → Prop}
    (hn : statementForms[n]? = some a)
    (hbefore : ∀ b ∈ statementForms.take n, Refuses false b (u ++ k))
    (h : Reads false a u k (One A)) : Reads false (.rule .statement) u k (One A) :=
  .silent rfl (.oneOf n hn hbefore h)

/-- A name begins none of the statements with a keyword. -/
lemma refuses_statementForms (h : identifier.Takes w k) :
    ∀ a ∈ statementForms.take 6, Refuses false a (w ++ k) := by
  simp only [statementForms, take_succ_cons, take_zero, forall_mem_cons]
  refine ⟨?_, ?_, ?_, ?_, ?_, ?_, forall_mem_nil _⟩
  · exact .rule (refuses_sym (c := ';') rfl (head_ne_of_name h (by decide)))
  · exact .rule (.seq (refuses_sym (c := '{') rfl (head_ne_of_name h (by decide))))
  all_goals exact .rule (.seq (refuses_keyword rfl (take_word_of_name (by decide) h)))

lemma statementEnd_of_name (h : IsName name) (hk : WordEnd k) : StatementEnd (name.toList ++ k) :=
  ⟨(starts_name h).expr.clear k, take_word_of_name (by decide) (takes_identifier_iff.mpr ⟨h, hk⟩)⟩

namespace OfTree

/-- The first expression, behind other nodes. -/
lemma yields_firstExpr_append (ts : List Tree) {e : Expr} (hts : ∀ u ∈ ts, u.kind ≠ "expr")
    (hkind : t.kind = "expr") (h : Yields (expr t) e) (rest : List Tree) :
    Yields (firstExpr (ts ++ t :: rest)) (some e) := by
  induction ts with
  | nil => exact yields_firstExpr hkind h
  | cons u ts ih =>
    obtain ⟨hu, hts⟩ := forall_mem_cons.mp hts
    rw [cons_append, firstExpr_cons_of_ne hu]
    exact ih hts

/-- Statements that are no definitions define nothing. -/
lemma names_ofStatement_of_mem {kind : String} {ts : List Tree}
    (h : kind ∈ ["assignment", "operator_call", "if_stmt", "for_stmt"]) :
    (ofStatement (.node kind text pos ts)).names = ∅ := by
  simp only [mem_cons, not_mem_nil, or_false] at h
  rcases h with rfl | rfl | rfl | rfl <;> exact names_empty

lemma means_assignment {assigned : String} {e : Expr} {t' : Tree}
    (ht : t.kind = "ident" ∧ t.text = assigned) (hkind : t'.kind = "expr") (h : Denotes t' e) :
    Means (.assign pos assigned e) (.node "assignment" text p [t, t']) := by
  have hpair : Yields (name (.node "assignment" text p [t, t'])) assigned ∧ _ :=
    yields_pair ht hkind h
  obtain ⟨hname, e', he', heq⟩ := hpair
  refine ⟨names_ofStatement_of_mem (by decide),
    fun known _ => ⟨.assign p assigned e', ?_, by rw [unplaced, heq, unplaced]⟩⟩
  rw [statement_assignment]
  exact hname.adapt.bind (he'.adapt.bind (yields_pure _))

end OfTree

lemma readsStatement_assign {value : Expr} (hname : IsName name) (h : Reread numeral value) :
    ReadsStatement ((assign pos name value).render numeral) (.assign pos name value) := by
  have hword : ∀ s, WordEnd ('=' :: s) := fun s => wordEnd_cons.mpr (by decide)
  change ReadsStatement (name.toList ++ '=' :: (value.render numeral ++ [';'])) _
  refine ⟨fun k => ?_, fun k hk => ?_⟩
  · rw [append_assoc]
    exact statementEnd_of_name hname (hword _)
  · have hsemicolon : Follows .expr (';' :: k) := follows_cons rfl rfl
    have hvalue := h.reads_seq (v := [';']) hsemicolon (.sym ";")
    refine reads_statement 6 rfl ?_
      (.node rfl (reads_assigned hname (h.start_render.append _) hvalue) ?_)
    · rw [append_assoc]
      exact refuses_statementForms (takes_identifier_iff.mpr ⟨hname, hword _⟩)
    · rintro p ns ⟨t, _, rfl, ht, t', _, rfl, ⟨hkind, hdenotes⟩, rfl⟩
      exact means_assignment ht (hkind rfl) hdenotes

/-! ### Calls -/

/-- The node is a call with a body. -/
inductive IsCall (name : String) (args : List Argument) (B : Tree → Prop) : Tree → Prop where
  | mk {text : String} {pos : Position} {t t' t'' : Tree} (ident : t.kind = "ident" ∧ t.text = name)
      (list : t'.kind = "call_args" ∧ List.Forall₂ DenotesArgument args t'.children)
      (body : B t'') :
      IsCall name args B (.node "operator_call" text pos [t, t', t''])

/-- A name with a parenthesis behind it begins a call. -/
lemma refuses_before_call (hname : IsName name) (s : List Char) :
    ∀ a ∈ statementForms.take 7, Refuses false a (name.toList ++ '(' :: s) := by
  have hword : WordEnd ('(' :: s) := wordEnd_cons.mpr (by decide)
  have hequals : Refuses false (sym "=") ('(' :: s) :=
    refuses_sym (c := '=') rfl (by rintro d ⟨⟩; decide)
  have hassignment : Refuses false (.rule .assignment) (name.toList ++ '(' :: s) :=
    .rule (.seq_right (reads_identifier hname hword) (gap_nil (clear_cons (by rfl))) (.seq hequals))
  change ∀ a ∈ statementForms.take 6 ++ [.rule .assignment], _
  exact forall_mem_append.mpr
    ⟨refuses_statementForms (takes_identifier_iff.mpr ⟨hname, hword⟩),
      forall_mem_singleton.mpr hassignment⟩

lemma refuses_modifier (h : identifier.Takes w k) : Refuses false (.rule .modifier) (w ++ k) := by
  have hhead : ∀ d ∈ (w ++ k).head?, (!isNameStart d) = false := fun d hd => by
    rw [head_of_name h d hd]
    rfl
  exact .rule (refuses_symbols (p := fun d => !isNameStart d) hhead (by decide))

/-- A call with a body behind it. -/
lemma readsStatement_call {stmt : Statement} (hcall : ProperCall name args)
    (h : ∀ a ∈ args, Readable numeral a.value) (hw : ∀ k, Clear (w ++ k))
    (hb : ∀ k, Reads false (.rule .statement) w k (One B))
    (hmeans : ∀ t, IsCall name args B t → Means stmt t) :
    ReadsStatement (name.toList ++
      '(' :: (separated (args.map (Argument.render numeral)) ++ ')' :: w)) stmt := by
  have hword (s : List Char) : WordEnd ('(' :: s) := wordEnd_cons.mpr (by decide)
  have hstart (s : List Char) : StatementEnd (name.toList ++ '(' :: s) :=
    statementEnd_of_name hcall.name (hword s)
  have hclose (k : List Char) : Reads false (.seq (sym ")") (.rule .statement)) (')' :: w) k
      (One B) :=
    .sym_seq ")" (gap_nil (hw k)) (hb k)
  have hread (k : List Char) := reads_call hcall h (hclose k)
  generalize separated (args.map (Argument.render numeral)) ++ ')' :: w = s at hread ⊢
  have hassoc (k : List Char) : (name.toList ++ '(' :: s) ++ k = name.toList ++
      '(' :: (s ++ k) := by
    rw [append_assoc]
    rfl
  refine ⟨fun k => hassoc k ▸ hstart _, fun k _ => ?_⟩
  refine reads_statement 7 rfl ?_ (.node rfl ((hread k).opt_nil_seq (gap_nil ?_) ?_) ?_)
  · rw [hassoc]
    exact refuses_before_call hcall.name (s ++ k)
  · rw [hassoc]
    exact (hstart _).clear
  · rw [hassoc]
    exact refuses_modifier (takes_identifier_iff.mpr ⟨hcall.name, hword _⟩)
  · rintro pos ns ⟨t, t', _, rfl, ht, ht', t'', rfl, ht''⟩
    exact hmeans _ (.mk ht ht' ht'')

namespace OfTree

/-- What a call stands for depends on its body and on the names around. -/
lemma IsCall.yields (h : IsCall name args B t)
    (hnodup : (args.filterMap Argument.name).Nodup) (known : Known) {Q : Program → Prop}
    (hbody : ∀ u, B u → u.kind ≠ "modifier" ∧
      ∃ block, Yields (body known u (inside · u) (statement · u)) block ∧ Q block) :
    ∃ pos args' block, Argument.unplacedAll args' = Argument.unplacedAll args ∧ Q block ∧
      Yields (statement known t) (if block.isEmpty && known.callsFunction name then
        [.evaluate pos (.call pos name args')] else [.invoke pos name args' block]) := by
  obtain @⟨text, pos, t, t', t'', ⟨hident, rfl⟩, hlist, hB⟩ := h
  obtain ⟨hmodifier, block, hblock, hQ⟩ := hbody t'' hB
  obtain ⟨args', hargs', heq⟩ := yields_firstArguments [t''] hnodup hlist
  refine ⟨pos, args', block, heq, hQ, ?_⟩
  have hmuted : isMuted (.node "operator_call" text pos [t, t', t'']) = false := by
    rw [isMuted, child?_cons_of_ne (by rw [hident]; decide),
      child?_cons_of_ne (by rw [hlist.1]; decide), child?_cons_of_ne hmodifier]
    rfl
  have hargs : Yields (callArguments (.node "operator_call" text pos [t, t', t''])) args' := by
    change Yields (firstArguments [t, t', t''] >>= _) _
    rw [firstArguments_cons_of_ne (by rw [hident]; decide)]
    exact hargs'.bind (yields_pure args')
  rw [statement_operatorCall, hmuted]
  refine (yields_name (child?_cons hident)).adapt.bind (hargs.adapt.bind (hblock.bind ?_))
  split <;> exact yields_pure _

lemma IsCall.names (h : IsCall name args B t) : (ofStatement t).names = ∅ := by
  cases h
  exact names_ofStatement_of_mem (by decide)

lemma yields_body_empty (h : t.kind = "empty_stmt") :
    Yields (body known t (inside · t) (statement · t)) [] := by
  rw [body, if_neg (by rw [h]; decide)]
  obtain ⟨kind, text, pos, children⟩ := t
  obtain rfl : kind = "empty_stmt" := h
  rfl

end OfTree

lemma readsStatement_evaluate {pos' : Position} (hcall : ProperCall name args)
    (h : ∀ a ∈ args, Readable numeral a.value) :
    ReadsStatement ((evaluate pos (.call pos' name args)).render numeral)
      (.evaluate pos (.call pos' name args)) := by
  have hrender : (evaluate pos (.call pos' name args)).render numeral =
      name.toList ++ '(' :: (separated (args.map (Argument.render numeral)) ++ ')' :: [';']) := by
    rw [← Argument.renderAll_eq_map]
    change name.toList ++ '(' :: (separated (Argument.renderAll numeral args) ++ [')']) ++ [';'] = _
    rw [append_assoc, cons_append, append_assoc]
    rfl
  rw [hrender]
  have hempty (k : List Char) :
      Reads false (.rule .statement) [';'] k (One fun t => t.kind = "empty_stmt") :=
    reads_statement 0 rfl (forall_mem_nil _) (.node rfl (.sym ";") fun _ _ _ => rfl)
  refine readsStatement_call hcall h (fun _ => clear_cons rfl) hempty fun t ht => ?_
  refine ⟨IsCall.names ht, fun known hclassified => ?_⟩
  obtain ⟨_, _, _, hvalue, hcalls⟩ := hclassified
  cases hvalue
  obtain ⟨p, args', block, heq, rfl, hyields⟩ :=
    IsCall.yields ht hcall.nodup known (Q := (· = []))
    fun u hu => ⟨by rw [hu]; decide, [], yields_body_empty hu, rfl⟩
  rw [isEmpty_nil, callsFunction_iff.mpr hcalls] at hyields
  exact ⟨_, hyields, by rw [unplaced, Expr.unplaced, heq, unplaced, Expr.unplaced]⟩

/-- Calls with a body are reread. -/
lemma readsStatement_invoke {body : Program} (hcall : ProperCall name args)
    (h : ∀ a ∈ args, Readable numeral a.value) (hbody : ReadsBlock numeral body) :
    ReadsStatement ((invoke pos name args body).render numeral) (.invoke pos name args body) := by
  have hrender : (invoke pos name args body).render numeral = name.toList ++
      '(' :: (separated (args.map (Argument.render numeral)) ++
        ')' :: braced (renderAll numeral body)) := by
    rw [← Argument.renderAll_eq_map]
    rfl
  rw [hrender]
  refine readsStatement_call hcall h (fun _ => clear_cons rfl) (reads_braced hbody) fun t ht => ?_
  refine ⟨IsCall.names ht, fun known ⟨hcalls, hblock⟩ => ?_⟩
  obtain ⟨p, args', block, heq, hblocks, hyields⟩ :=
    IsCall.yields ht hcall.nodup known fun u hu =>
    ⟨by rw [hu.kind]; decide, hu.yields_body hblock⟩
  -- the block is as empty as the body was
  have hnot : (block.isEmpty && known.callsFunction name) = false := by
    cases block with
    | cons stmt rest => rfl
    | nil =>
      cases body with
      | cons stmt rest => nomatch hblocks
      | nil =>
        exact Bool.eq_false_iff.mpr fun hfunction => hcalls rfl (callsFunction_iff.mp hfunction)
  rw [hnot] at hyields
  exact ⟨_, hyields, by rw [unplaced, heq, hblocks, unplaced]⟩

/-! ### Definitions -/

/-- The node stands for the parameter. -/
structure DenotesParam (p : Param) (t : Tree) : Prop where
  kind : t.kind = "param"
  name : Yields (OfTree.name t) p.name
  default : ∃ d, Yields (OfTree.firstExpr t.children) d ∧ d.map Expr.unplaced =
    p.default.map Expr.unplaced

lemma reads_param {p : Param} (hname : IsName p.name) (h : ∀ e ∈ p.default, Reread numeral e) :
    ReadsItem false .param ')' (p.render numeral) (DenotesParam p) := by
  obtain ⟨name, _ | e⟩ := p
  · refine ⟨(starts_name hname).expr.plainStart, fun d k hd => ?_⟩
    have hword : WordEnd (d :: k) := wordEnd_cons.mpr (by rcases hd with rfl | rfl <;> decide)
    have hclear : Clear (d :: k) := clear_cons (by rcases hd with rfl | rfl <;> decide)
    have hnone : Refuses false (sym "=") (d :: k) := by
      refine refuses_sym (c := '=') rfl ?_
      rintro x ⟨⟩
      rcases hd with rfl | rfl <;> decide
    refine .node rfl ((reads_identifier hname hword).seq_opt_nil (gap_nil hclear) (.seq hnone)) ?_
    rintro pos ns ⟨t, rfl, hkind, rfl⟩
    refine ⟨rfl, OfTree.yields_name (OfTree.child?_cons hkind), none, ?_, rfl⟩
    change Yields (OfTree.firstExpr [t]) none
    rw [OfTree.firstExpr_cons_of_ne (by rw [hkind]; decide)]
    exact yields_pure none
  · have he : Reread numeral e := h e rfl
    refine ⟨((starts_name hname).expr.append _).plainStart, fun d k hd => ?_⟩
    have hword : WordEnd ('=' :: e.render numeral ++ d :: k) := wordEnd_cons.mpr (by decide)
    have hdefault :=
      (Reads.sym_seq "=" (gap_nil (he.start_render.clear _)) (he.readsExpr (follows_item hd k))).opt
    refine .node rfl ((reads_identifier hname hword).cons (gap_nil (clear_cons (by rfl))) hdefault)
      ?_
    rintro pos ns ⟨t, _, rfl, ⟨hkind, rfl⟩, t', rfl, hkind', e', he', heq⟩
    refine ⟨rfl, OfTree.yields_name (OfTree.child?_cons hkind), some e', ?_, congrArg some heq⟩
    exact OfTree.yields_firstExpr_append [t] (forall_mem_singleton.mpr (by rw [hkind]; decide))
      (hkind' rfl) he' []

namespace OfTree

/-- Nodes of parameters one after the other, none of which is repeated. -/
lemma yields_paramList {params : List Param} {ts : List Tree} (h : Forall₂ DenotesParam params ts)
    (hnodup : (params.map Param.name).Nodup) (seen : List String)
    (hseen : ∀ n ∈ params.map Param.name, n ∉ seen) :
    ∃ params', Yields (paramList seen ts) params' ∧ params'.map Param.unplaced =
      params.map Param.unplaced := by
  induction h generalizing seen with
  | nil => exact ⟨[], yields_pure [], rfl⟩
  | @cons p t params ts ht _ ih =>
    rw [map_cons, nodup_cons] at hnodup
    rw [map_cons, forall_mem_cons] at hseen
    have hnew : ∀ n ∈ params.map Param.name, n ∉ p.name :: seen := by
      intro n hn hor
      rcases mem_cons.mp hor with rfl | hold
      · exact hnodup.1 hn
      · exact hseen.2 n hn hold
    obtain ⟨params', hparams', heqs⟩ := ih hnodup.2 _ hnew
    obtain ⟨d, hd, heq⟩ := ht.default
    refine ⟨⟨p.name, d⟩ :: params', ?_, by
      rw [map_cons, map_cons, heqs, Param.unplaced, Param.unplaced, heq]⟩
    have hunseen : seen.contains p.name = false := by simpa using hseen.1
    rw [paramList, if_pos ht.kind]
    refine ht.name.bind ?_
    rw [hunseen]
    exact hd.bind (hparams'.bind (yields_pure _))

/-- Parameters without a default are in front already. -/
lemma yields_params {params : List Param} (hparams : ProperParams params) {kind : String}
    {t' : Tree} {ts : List Tree} (ht : t.kind = "ident")
    (ht' : t'.kind = "params" ∧ Forall₂ DenotesParam params t'.children) :
    ∃ params', Yields (OfTree.params (.node kind text p (t :: t' :: ts))) params' ∧
      params'.map Param.unplaced = params.map Param.unplaced := by
  obtain ⟨params', hparams', heq⟩ := yields_paramList ht'.2 hparams.nodup [] fun _ _ => not_mem_nil
  refine ⟨params', ?_, heq⟩
  have hsame : ∀ params : List Param,
      (params.map Param.unplaced).map (·.default.isNone) = params.map (·.default.isNone) := by
    intro params
    rw [map_map]
    exact map_congr_left fun p _ => Option.isNone_map
  have hsorted : params'.filter (·.default.isNone) ++ params'.filter (·.default.isSome) =
      params' := by
    rw [Param.isSome_default_eq]
    refine filter_append_filter_eq_self.mpr ?_
    rw [← hsame params', heq, hsame params]
    refine filter_append_filter_eq_self.mp ?_
    rw [← Param.isSome_default_eq]
    exact hparams.sorted
  rw [OfTree.params, child?_cons_of_ne (by rw [ht]; decide), child?_cons ht'.1]
  refine hparams'.bind ?_
  rw [hsorted]
  exact yields_pure params'

end OfTree

lemma reads_params {params : List Param} (hname : IsName name) (hparams : ProperParams params)
    (h : ∀ p ∈ params, ∀ e ∈ p.default, Reread numeral e) {b : Peg Name} {v : List Char}
    {Q : List Tree → Prop} (hb : Reads false b (')' :: v) k Q) :
    Reads false (.seq (.rule .identifier) (.seq (sym "(") (.seq (.rule .params) b)))
      (name.toList ++ '(' :: (separated (params.map (Param.render numeral)) ++ ')' :: v)) k
      fun ns => ∃ t t' ts, ns = t :: t' :: ts ∧ (t.kind = "ident" ∧ t.text = name) ∧
        (t'.kind = "params" ∧ Forall₂ DenotesParam params t'.children) ∧ Q ts :=
  reads_listed hname rfl (fun _ => .of_starts (n := 4) (by decide) (by decide) (clear_cons rfl))
    (fun p hp => reads_param (hparams.names p hp) (h p hp)) hb

namespace OfTree

lemma means_moduleDef {defined : String} {params : List Param} {t' t'' : Tree}
    (hparams : ProperParams params) (ht : t.kind = "ident" ∧ t.text = defined)
    (ht' : t'.kind = "params" ∧ Forall₂ DenotesParam params t'.children)
    (ht'' : IsBlock block t'') :
    Means (.defineModule pos ⟨defined, params, block⟩)
      (.node "module_def" text p [t, t', t'']) := by
  obtain ⟨hident, rfl⟩ := ht
  refine ⟨?_, fun known hclassified => ?_⟩
  · rw [ofStatement_moduleDef, find?_cons_of_pos (by simpa using hident)]
    exact names_module rfl
  · obtain ⟨params', hparams', heq⟩ := yields_params hparams hident ht'
    obtain ⟨block', hblock', heqs⟩ := ht''.yields_body hclassified
    refine ⟨.defineModule p ⟨t.text, params', block'⟩, ?_, by rw [unplaced, heq, heqs, unplaced]⟩
    rw [statement_moduleDef]
    exact (yields_name (child?_cons hident)).adapt.bind
      (hparams'.adapt.bind (hblock'.bind (yields_pure _)))

lemma means_functionDef {f : FunctionDef} {t' t'' : Tree} (hparams : ProperParams f.params)
    (ht : t.kind = "ident" ∧ t.text = f.name)
    (ht' : t'.kind = "params" ∧ Forall₂ DenotesParam f.params t'.children)
    (hkind : t''.kind = "expr") (ht'' : Denotes t'' f.body) :
    Means (.defineFunction pos f) (.node "function_def" text p [t, t', t'']) := by
  obtain ⟨hident, hname⟩ := ht
  refine ⟨?_, fun known _ => ?_⟩
  · rw [ofStatement_functionDef, find?_cons_of_pos (by simpa using hident)]
    exact names_function (congrArg ([·]) hname)
  · obtain ⟨params', hparams', heq⟩ := yields_params hparams hident ht'
    obtain ⟨e', he', heqs⟩ := ht''
    have hbefore : ∀ u ∈ [t, t'], u.kind ≠ "expr" := by
      simp only [forall_mem_cons, hident, ht'.1]
      decide
    have hvalue : Yields (value (.node "function_def" text p [t, t', t''])) e' :=
      yields_value (yields_firstExpr_append [t, t'] hbefore hkind he' [])
    refine ⟨.defineFunction p ⟨t.text, params', e'⟩, ?_, by
      rw [unplaced, unplaced, heq, heqs, hname]⟩
    rw [statement_functionDef]
    exact (yields_name (child?_cons hident)).adapt.bind
      (hparams'.adapt.bind (hvalue.adapt.bind (yields_pure _)))

end OfTree

lemma statementEnd_cons {c : Char} {s : List Char} (hplain : isPlain c = true)
    (hc : c ≠ 'e') : StatementEnd (c :: s) := by
  refine ⟨clear_cons hplain, take_seq_eq_none.mpr (.inl ?_)⟩
  change takeLiteral ['e', 'l', 's', 'e'] (c :: s) 0 = none
  rw [takeLiteral, if_neg hc.symm]

lemma readsStatement_defineModule {params : List Param} {body : Program} (hname : IsName name)
    (hparams : ProperParams params) (h : ∀ p ∈ params, ∀ e ∈ p.default, Reread numeral e)
    (hbody : ReadsBlock numeral body) :
    ReadsStatement ((defineModule pos ⟨name, params, body⟩).render numeral)
      (.defineModule pos ⟨name, params, body⟩) := by
  change ReadsStatement ("module".toList ++ ' ' :: (name.toList ++ '(' ::
    (separated (params.map (Param.render numeral)) ++ ')' :: braced (renderAll numeral body)))) _
  refine ⟨fun k => statementEnd_cons (c := 'm') rfl (by decide), fun k hk => ?_⟩
  have hrest := reads_params hname hparams h (reads_closed hbody k)
  refine reads_statement 2 rfl (refuses_of_starts (n := 4) (x := 'm') (by rfl) (by decide)) ?_
  refine .node rfl (reads_keyword_blank rfl ((starts_name hname).expr.append _).plainStart hrest) ?_
  rintro p ns ⟨t, t', _, rfl, ht, ht', t'', rfl, ht''⟩
  exact OfTree.means_moduleDef hparams ht ht' ht''

/-- Functions are reread. -/
lemma readsStatement_defineFunction {f : FunctionDef} (hname : IsName f.name)
    (hparams : ProperParams f.params) (h : ∀ p ∈ f.params, ∀ e ∈ p.default, Reread numeral e)
    (hbody : Reread numeral f.body) :
    ReadsStatement ((defineFunction pos f).render numeral) (.defineFunction pos f) := by
  change ReadsStatement ("function".toList ++ ' ' :: (f.name.toList ++ '(' ::
    (separated (f.params.map (Param.render numeral)) ++
      ')' :: '=' :: (f.body.render numeral ++ [';'])))) _
  refine ⟨fun k => statementEnd_cons (c := 'f') rfl (by decide), fun k hk => ?_⟩
  have hsemicolon : Follows .expr (';' :: k) := follows_cons rfl rfl
  have hvalue := hbody.reads_seq (v := [';']) hsemicolon (.sym ";")
  have hequals := Reads.sym_seq "=" (gap_nil ((hbody.start_render.append _).clear k)) hvalue
  have hclose := Reads.sym_seq ")" (gap_nil (clear_cons (by rfl))) hequals
  have hrest := reads_params hname hparams h hclose
  refine reads_statement 3 rfl (refuses_of_starts (n := 4) (x := 'f') (by rfl) (by decide)) ?_
  refine .node rfl (reads_keyword_blank rfl ((starts_name hname).expr.append _).plainStart hrest) ?_
  rintro p ns ⟨t, t', _, rfl, ht, ht', t'', _, rfl, ⟨hkind, ht''⟩, rfl⟩
  exact OfTree.means_functionDef hparams ht ht' (hkind rfl) ht''

/-! ### Branches and loops -/

namespace OfTree

/-- The nodes of branches; there is no second one where it would be empty. -/
def AreBranches (yes no : Program) (ns : List Tree) : Prop :=
  (no = [] ∧ ∃ t, ns = [t] ∧ IsBlock yes t) ∨ ∃ t t', ns = [t, t'] ∧ IsBlock yes t ∧ IsBlock no t'

/-- Both branches are given. -/
lemma AreBranches.yields {ns : List Tree} (h : AreBranches yes no ns)
    (hyes : yes.Classified known.names) (hno : no.Classified known.names) (node t : Tree) :
    ∃ yes' no', Yields (branches known node (t :: ns)) (yes', no') ∧
      unplacedAll yes' = unplacedAll yes ∧
        unplacedAll no' = unplacedAll no := by
  rcases h with ⟨rfl, u, rfl, hu⟩ | ⟨u, u', rfl, hu, hu'⟩
  · obtain ⟨yes', hyes', heq⟩ := hu.yields_body hyes
    exact ⟨yes', [], hyes'.bind (yields_pure _), heq, rfl⟩
  · obtain ⟨yes', hyes', heq⟩ := hu.yields_body hyes
    obtain ⟨no', hno', heqs⟩ := hu'.yields_body hno
    exact ⟨yes', no', hyes'.bind (hno'.bind (yields_pure _)), heq, heqs⟩

lemma means_ifStatement {condition : Expr} {ns : List Tree} (hkind : t.kind = "expr")
    (ht : Denotes t condition) (hns : AreBranches yes no ns) :
    Means (.branch pos condition yes no) (.node "if_stmt" text p (t :: ns)) := by
  refine ⟨names_ofStatement_of_mem (by decide), fun known ⟨hyes, hno⟩ => ?_⟩
  obtain ⟨e', he', heq⟩ := ht
  obtain ⟨yes', no', hbranches, heqyes, heqno⟩ :=
    hns.yields hyes hno (.node "if_stmt" text p (t :: ns)) t
  have hvalue : Yields (value (.node "if_stmt" text p (t :: ns))) e' :=
    yields_value (yields_firstExpr hkind he')
  refine ⟨.branch p e' yes' no', ?_, by rw [unplaced, heq, heqyes, heqno, unplaced]⟩
  rw [statement_ifStatement]
  exact hvalue.adapt.bind (hbranches.bind (yields_pure _))

end OfTree

lemma reads_branches (hyes : ReadsBlock numeral yes) (hno : ReadsBlock numeral no)
    (hk : StatementEnd k) :
    Reads false (.seq (.rule .statement) (.opt (.seq (.rule .wordElse) (.rule .statement))))
      (braced (renderAll numeral yes) ++
        if no.isEmpty then [] else "else".toList ++ braced (renderAll numeral no)) k
      (AreBranches yes no) := by
  cases no with
  | nil =>
    rw [isEmpty_nil, if_pos rfl, append_nil]
    have helse : Refuses false (.rule .wordElse) k := refuses_keyword rfl hk.notElse
    refine ((reads_braced hyes k).seq_opt_nil (gap_nil hk.clear) (.seq helse)).imp ?_
    rintro ns ⟨t, rfl, ht⟩
    exact .inl ⟨rfl, t, rfl, ht⟩
  | cons stmt rest =>
    rw [isEmpty_cons, if_neg Bool.false_ne_true]
    have hopen : ∀ s, WordEnd ('{' :: s) ∧ Clear ('{' :: s) := fun s =>
      ⟨wordEnd_cons.mpr (by decide), clear_cons rfl⟩
    have helse :=
      (reads_keyword_seq (r := .wordElse) rfl (hopen _).1 (hopen _).2 (reads_braced hno k)).opt
    refine ((reads_braced hyes _).seq (gap_nil (clear_cons (c := 'e') rfl)) helse ?_)
    rintro xs ys ⟨t, rfl, ht⟩ ⟨t', rfl, ht'⟩
    exact .inr ⟨t, t', rfl, ht, ht'⟩

lemma readsStatement_branch {condition : Expr} (h : Reread numeral condition)
    (hyes : ReadsBlock numeral yes) (hno : ReadsBlock numeral no) :
    ReadsStatement ((branch pos condition yes no).render numeral)
      (.branch pos condition yes no) := by
  change ReadsStatement ("if".toList ++ '(' :: (condition.render numeral ++ ')' ::
    (braced (renderAll numeral yes) ++
      if no.isEmpty then [] else "else".toList ++ braced (renderAll numeral no)))) _
  refine ⟨fun k => statementEnd_cons (c := 'i') rfl (by decide), fun k hk => ?_⟩
  have hclose : ∀ s, Follows .expr (')' :: s) := fun s => follows_cons rfl rfl
  have hbranches := reads_branches hyes hno hk
  have hrest :=
    h.reads_seq (v := ')' :: _) (hclose _) (.sym_seq ")" (gap_nil (clear_cons (by rfl))) hbranches)
  have hparen := Reads.sym_seq "(" (gap_nil ((h.start_render.append _).clear k)) hrest
  refine reads_statement 4 rfl (refuses_of_starts (n := 4) (x := 'i') (by rfl) (by decide)) ?_
  refine .node rfl
    (reads_keyword_seq (r := .wordIf) rfl (wordEnd_cons.mpr (by decide)) (clear_cons (by rfl))
    hparen) ?_
  rintro p ns ⟨t, ts, rfl, ⟨hkind, ht⟩, hts⟩
  exact means_ifStatement (hkind rfl) ht hts

/-- The node stands for the loop variable. -/
structure DenotesBinding (b : Binding) (t : Tree) : Prop where
  kind : t.kind = "for_binding"
  name : Yields (OfTree.name t) b.name
  domain : Recovers (OfTree.value t) b.domain

lemma reads_binding {b : Binding} (hname : IsName b.name) (h : Reread numeral b.domain) :
    ReadsItem false .forBinding ')' (b.render numeral) (DenotesBinding b) := by
  refine ⟨((starts_name hname).expr.append _).plainStart, fun d k hd => ?_⟩
  have hword : WordEnd ('=' :: b.domain.render numeral ++ d :: k) := wordEnd_cons.mpr (by decide)
  have hdomain :=
    Reads.sym_seq "=" (gap_nil (h.start_render.clear _)) (h.readsExpr (follows_item hd k))
  refine .node rfl ((reads_identifier hname hword).cons (gap_nil (clear_cons (by rfl))) hdomain) ?_
  rintro pos ns ⟨t, _, rfl, ht, t', rfl, hkind, hvalue⟩
  obtain ⟨hyields, hdenotes⟩ := OfTree.yields_pair ht (hkind rfl) hvalue
  exact ⟨rfl, hyields, hdenotes⟩

namespace OfTree

/-- Nodes of loop variables in front of another node. -/
lemma yields_bindings {ts : List Tree} (h : Forall₂ DenotesBinding loops ts) {u : Tree}
    (hu : u.kind ≠ "for_binding") :
    ∃ loops', Yields (bindings (ts ++ [u])) loops' ∧ loops'.map Binding.unplaced =
      loops.map Binding.unplaced := by
  induction h with
  | nil =>
    refine ⟨[], ?_, rfl⟩
    rw [nil_append, bindings, if_neg hu]
    exact yields_pure []
  | @cons b t loops ts ht _ ih =>
    obtain ⟨loops', hloops', heqs⟩ := ih
    obtain ⟨e', he', heq⟩ := ht.domain
    refine ⟨⟨b.name, e'⟩ :: loops', ?_, by
      rw [map_cons, map_cons, heqs, Binding.unplaced, Binding.unplaced, heq]⟩
    rw [cons_append, bindings, if_pos ht.kind]
    exact ht.name.bind (he'.bind (hloops'.bind (yields_pure _)))

lemma means_forStatement {ts : List Tree}
    (hne : loops ≠ []) (hts : Forall₂ DenotesBinding loops ts) (ht : IsBlock block t) :
    Means (.loop pos loops block) (.node "for_stmt" text p (ts ++ [t])) := by
  refine ⟨names_ofStatement_of_mem (by decide), fun known hclassified => ?_⟩
  obtain ⟨loops', hloops', heq⟩ := yields_bindings hts (u := t) (by rw [ht.kind]; decide)
  obtain ⟨block', hblock', heqs⟩ := ht.yields_body hclassified
  have hsome : loops'.isEmpty = false := by
    cases loops' with
    | nil => exact absurd (map_eq_nil_iff.mp heq.symm) hne
    | cons b loops' => rfl
  refine ⟨.loop p loops' block', ?_, by rw [unplaced, heq, heqs, unplaced]⟩
  rw [statement_forStatement, lastBody_append]
  refine hloops'.adapt.bind ?_
  rw [hsome]
  exact hblock'.bind (yields_pure _)

end OfTree

/-- Loop variables with commas in between, and the body behind them. -/
lemma reads_bindings {body : Program} (hne : loops ≠ [])
    (h : ∀ b ∈ loops, ReadsItem false .forBinding ')' (b.render numeral) (DenotesBinding b))
    (hbody : ReadsBlock numeral body) (k : List Char) :
    Reads false (.seq (.rule .forBinding) (.seq (.star (.seq (sym ",") (.rule .forBinding)))
        (.seq (sym ")") (.rule .statement))))
      (separated (loops.map (Binding.render numeral)) ++ ')' :: braced (renderAll numeral body)) k
      fun ns => ∃ ts t, ns = ts ++ [t] ∧ Forall₂ DenotesBinding loops ts ∧
      IsBlock body t := by
  obtain ⟨b, rest, rfl⟩ := exists_cons_of_ne_nil hne
  obtain ⟨hb, hrest⟩ := forall_mem_cons.mp h
  have hassoc :
      (further (Binding.render numeral) rest ++ ')' :: braced (renderAll numeral body)) ++ k =
        further (Binding.render numeral) rest ++ ')' :: (braced (renderAll numeral body) ++ k) := by
    rw [append_assoc, cons_append]
  have hfurther := reads_further (k := braced (renderAll numeral body) ++ k) (c := ')') (by decide)
    (by decide) hrest
  have hmore := hfurther.seq (v := ')' :: _) (gap_nil (clear_cons (by rfl))) (reads_closed hbody k)
    (R := fun ns => ∃ ts t, ns = ts ++ [t] ∧ Forall₂ DenotesBinding rest ts ∧ IsBlock body t)
    fun xs ys hxs ⟨t, hys, ht⟩ => ⟨xs, t, by rw [hys], hxs, ht⟩
  rw [separated_map_cons, append_assoc]
  refine (Reads.cons (by rw [hassoc]; exact hb.reads_further) (gap_nil ?_) hmore).imp ?_
  · rw [hassoc]
    exact clear_further (by decide)
  · rintro ns ⟨t, _, rfl, ht, ts, u, rfl, hts, hu⟩
    exact ⟨t :: ts, u, rfl, .cons ht hts, hu⟩

/-- No other statement starts with this keyword; one starts with the same character. -/
lemma refuses_for (s : List Char) :
    ∀ a ∈ statementForms.take 5, Refuses false a ("for".toList ++ '(' :: s) := by
  change ∀ a ∈ statementForms.take 3 ++ [.rule .functionDef, .rule .ifStatement],
    Refuses false a ('f' :: _)
  refine forall_mem_append.mpr ⟨refuses_of_starts (n := 4) (by rfl) (by decide), ?_⟩
  simp only [forall_mem_cons]
  exact ⟨.rule (.seq (refuses_keyword rfl rfl)), .rule (.seq (refuses_keyword rfl rfl)),
    (forall_mem_nil _)⟩

lemma readsStatement_loop {body : Program} (hne : loops ≠ [])
    (hnames : ∀ b ∈ loops, IsName b.name) (h : ∀ b ∈ loops, Reread numeral b.domain)
    (hbody : ReadsBlock numeral body) :
    ReadsStatement ((loop pos loops body).render numeral) (.loop pos loops body) := by
  have hitems : ∀ b ∈ loops, ReadsItem false .forBinding ')' (b.render numeral)
      (DenotesBinding b) :=
    fun b hb => reads_binding (hnames b hb) (h b hb)
  change ReadsStatement
    ("for".toList ++ '(' :: (separated (loops.map (Binding.render numeral)) ++ ')' ::
    braced (renderAll numeral body))) _
  refine ⟨fun k => statementEnd_cons (c := 'f') rfl (by decide), fun k hk => ?_⟩
  have hclear : Clear ((separated (loops.map (Binding.render numeral)) ++ ')' ::
      braced (renderAll numeral body)) ++ k) := by
    rw [append_assoc]
    exact clear_separated _ (by decide) hitems
  have hparen := Reads.sym_seq "(" (gap_nil hclear) (reads_bindings hne hitems hbody k)
  refine reads_statement 5 rfl (refuses_for _) (.node rfl (reads_keyword_seq (r := .wordFor) rfl
    (wordEnd_cons.mpr (by decide)) (clear_cons (by rfl)) hparen) ?_)
  rintro p ns ⟨ts, u, rfl, hts, hu⟩
  exact OfTree.means_forStatement hne hts hu

/-! ### All statements -/

/-- The text of a statement is read as that statement. -/
theorem Statement.reads_render {stmt : Statement} (h : stmt.Writable fun x => Writes (numeral x) x)
    {visible : Names} (hclassified : stmt.Classified visible) :
    ReadsStatement (stmt.render numeral) stmt := by
  induction stmt using induction generalizing visible with
  | h stmt ih =>
    have hreread : ∀ e ∈ stmt.exprs, Readable numeral e := fun e he => Expr.readable (h.expr e he)
    have hblock : ∀ {block : Program} {visible : Names}, (∀ part ∈ block, part ∈ stmt.parts) →
        ClassifiedAll visible block → ReadsBlock numeral block :=
      fun hparts hblock part hpart => ih part (hparts part hpart) (h.part part (hparts part hpart))
        (classifiedAll_iff.mp hblock part hpart)
    have hproper := h.proper
    cases stmt with
    | assign pos name value =>
      exact readsStatement_assign hproper (hreread value mem_cons_self).toReread
    | evaluate pos value =>
      obtain ⟨pos', name, args, rfl, -⟩ := hclassified
      have hvalue := h.expr _ mem_cons_self
      exact readsStatement_evaluate hvalue.proper fun a ha =>
        Expr.readable (hvalue.part _ (mem_map_of_mem ha))
    | invoke pos name args body =>
      obtain ⟨-, -, hbody⟩ := hclassified
      exact readsStatement_invoke hproper (fun a ha => hreread _ (mem_map_of_mem ha))
        (hblock (fun _ h => h) hbody)
    | defineModule pos m =>
      obtain ⟨name, params, body⟩ := m
      obtain ⟨-, hbody⟩ := hclassified
      refine readsStatement_defineModule hproper.1 hproper.2 (fun p hp e he => ?_)
        (hblock (fun _ h => h) hbody)
      exact (hreread e (mem_filterMap.mpr ⟨p, hp, he⟩)).toReread
    | defineFunction pos f =>
      obtain ⟨hdefaults, hbody⟩ := forall_mem_append.mp hreread
      have hvalue := hbody f.body mem_cons_self
      refine readsStatement_defineFunction hproper.1 hproper.2 (fun p hp e he => ?_) hvalue.toReread
      exact (hdefaults e (mem_filterMap.mpr ⟨p, hp, he⟩)).toReread
    | branch pos condition yes no =>
      obtain ⟨⟨-, hyes⟩, -, hno⟩ := hclassified
      exact readsStatement_branch (hreread condition mem_cons_self).toReread
        (hblock (fun _ h => mem_append_left _ h) hyes)
        (hblock (fun _ h => mem_append_right _ h) hno)
    | loop pos loops body =>
      obtain ⟨-, hbody⟩ := hclassified
      exact readsStatement_loop hproper.1 hproper.2
        (fun b hb => (hreread _ (mem_map_of_mem hb)).toReread)
        (hblock (fun _ h => h) hbody)

end SolidScript
