import SolidScript.Proofs.Program.Levels

/-!
# Rereading expressions

The text of an expression is read as that expression, at the place of every rule.
-/

namespace SolidScript

open OfTree Grammar SolidScript.Expr List

open Grammar (Name Peg programs Reads Refuses One Follows gap_nil)
open Grammar.Rules (sym)
open Grammar.Pattern Grammar.Words
open Recording (Yields yields_pure)

variable {numeral : Float → String}

/-! ## Operations between operands -/

/-- The symbol is read as an operator between operands of a rule, and stands for the operation. -/
structure JoinSymbol (operand operator : Name) (s : String) (join : Position → Expr → Expr → Expr) :
    Prop where
  operation : OfTree.operation? s = some join
  reads : ∀ k, (∀ d ∈ k.head?, d ≠ '=') →
    Reads false (.rule operator) s.toList k (One fun t => t.text = s)
  follows : ∀ v k, StartsWith opensExpr v → Follows operand (s.toList ++ (v ++ k))

/-- The symbol does not continue an operand, and does not begin a comment. -/
def endsOperand (operand : Name) (s : String) : Bool :=
  match s.toList with
  | c :: cs => !Grammar.continues operand c && (isPlain c || c = '/' && cs = [])
  | [] => false

variable {operand : Name} {s : String} {left right e : Expr} {pos : Position} {k : List Char}
  {α : Type} {c : Char}

lemma follows_of_endsOperand {v : List Char} (k : List Char) (h : endsOperand operand s = true)
    (hv : StartsWith opensExpr v) : Follows operand (s.toList ++ (v ++ k)) := by
  unfold endsOperand at h
  split at h
  · rename_i c cs hs
    obtain ⟨hcontinues, hclear⟩ := Bool.and_eq_true_iff.mp h
    rw [hs]
    refine ⟨?_, by rintro d ⟨⟩; exact (Bool.not_eq_true' _).mp hcontinues⟩
    rcases Bool.or_eq_true_iff.mp hclear with hplain | hslash
    · exact clear_cons hplain
    · obtain ⟨hc, hcs⟩ := Bool.and_eq_true_iff.mp hslash
      rw [of_decide_eq_true hc, of_decide_eq_true hcs]
      obtain ⟨x, t, rfl, hx⟩ := hv
      exact clear_slash
        ⟨by rintro rfl; exact absurd hx (by decide), by rintro rfl; exact absurd hx (by decide)⟩
  · exact Bool.noConfusion h

/-- The operation gives the expression, whatever the places of its operands. -/
def Joins (join : Position → Expr → Expr → Expr) (left right e : Expr) : Prop :=
  ∀ pos l r, l.unplaced = left.unplaced → r.unplaced = right.unplaced →
    (join pos l r).unplaced = e.unplaced

variable {join : Position → Expr → Expr → Expr}

/-- One more operator and operand. -/
lemma natural_symbolChain {level operator : Name}
    (hch : symbolChain level operand operator ∈ chains) (hlevel : level = e.level)
    (hrender : e.render numeral = left.textAt numeral level ++
      (s.toList ++ right.textAt numeral operand)) (hs : JoinSymbol operand operator s join)
    (hl : Reread numeral left) (hr : Reread numeral right) (hjoin : Joins join left right e) :
    Natural numeral e := by
  have hright := hr.start operand
  refine natural_of_opens hch hlevel hl hrender ?_
  refine (proper_of_mem hch).opens_step (hl.opens _ hch) (fun k => ?_) fun k hk => ?_
  · rw [append_assoc]
    exact hs.follows _ k hright
  · refine .seq (hs.reads _ (hright.head_ne (by decide) k)) (gap_nil (hright.clear k))
      (hr.reads operand (chain_mem_levels _ hch).2 k hk) ?_
    rintro xs ys ⟨op, rfl, hop⟩ ⟨t, rfl, -, r, hyields, hunplaced⟩ zs hzs node
    obtain ⟨l, hl, hlunplaced⟩ := hzs node
    exact ⟨join op.pos l r, yields_chained_append (by rw [hop]; exact hs.operation) hl hyields,
      hjoin _ _ _ hlunplaced hunplaced⟩

lemma natural_symbols (i n : Nat) {level operator : Name} {symbols : List String}
    (hch : chains[i]? = some (symbolChain level operand operator)) (hlevel : level = e.level)
    (hrule : programs.rules operator = Rules.symbolOf symbols) (hs : symbols[n]? = some s)
    (hbefore : (symbols.take n).all (differs · s) = true) (hop : operation? s = some join)
    (hends : endsOperand operand s = true)
    (hrender : e.render numeral = left.textAt numeral level ++
      (s.toList ++ right.textAt numeral operand)) (hl : Reread numeral left)
    (hr : Reread numeral right) (hjoin : Joins join left right e) : Natural numeral e := by
  refine natural_symbolChain (mem_of_getElem? hch) hlevel hrender ?_ hl hr hjoin
  refine ⟨hop, fun k hk => ?_, fun _ k => follows_of_endsOperand k hends⟩
  refine .node (Q := (· = [])) (by rw [hrule]; rfl) ?_ fun _ _ _ => String.ofList_toList
  rw [hrule]
  exact reads_symbols n hs (all_eq_true.mp hbefore) hk

/-- Sums and products. -/
lemma natural_binary {op : Arithmetic} (hop : op ≠ .pow) (hl : Reread numeral left)
    (hr : Reread numeral right) : Natural numeral (.binary pos op left right) := by
  have hjoin : Joins (.binary · op) left right (.binary pos op left right) :=
    fun _ _ _ hl hr => congrArg₂ (binary .start op) hl hr
  have hrender : (binary pos op left right).render numeral =
      left.textAt numeral op.places.1 ++ (op.symbol.toList ++ right.textAt numeral op.places.2) :=
        rfl
  cases op with
  | pow => exact absurd rfl hop
  | add => exact natural_symbols 4 0 rfl rfl rfl rfl rfl rfl rfl hrender hl hr hjoin
  | sub => exact natural_symbols 4 1 rfl rfl rfl rfl rfl rfl rfl hrender hl hr hjoin
  | mul => exact natural_symbols 5 0 rfl rfl rfl rfl rfl rfl rfl hrender hl hr hjoin
  | div => exact natural_symbols 5 1 rfl rfl rfl rfl rfl rfl rfl hrender hl hr hjoin
  | mod => exact natural_symbols 5 2 rfl rfl rfl rfl rfl rfl rfl hrender hl hr hjoin

/-- Comparisons. -/
lemma natural_compare {op : Comparison} (hl : Reread numeral left)
    (hr : Reread numeral right) : Natural numeral (.compare pos op left right) := by
  have hjoin : Joins (.compare · op) left right (.compare pos op left right) :=
    fun _ _ _ hl hr => congrArg₂ (compare .start op) hl hr
  have hrender : (compare pos op left right).render numeral =
      left.textAt numeral op.places.1 ++ (op.symbol.toList ++ right.textAt numeral op.places.2) :=
        rfl
  cases op with
  | eq => exact natural_symbols 2 0 rfl rfl rfl rfl rfl rfl rfl hrender hl hr hjoin
  | ne => exact natural_symbols 2 1 rfl rfl rfl rfl rfl rfl rfl hrender hl hr hjoin
  | le => exact natural_symbols 3 0 rfl rfl rfl rfl rfl rfl rfl hrender hl hr hjoin
  | ge => exact natural_symbols 3 1 rfl rfl rfl rfl rfl rfl rfl hrender hl hr hjoin
  | lt => exact natural_symbols 3 2 rfl rfl rfl rfl rfl rfl rfl hrender hl hr hjoin
  | gt => exact natural_symbols 3 3 rfl rfl rfl rfl rfl rfl rfl hrender hl hr hjoin

/-! ## Logic -/

lemma natural_joined (ch : Chain) (c : Char) (join : Position → Expr → Expr → Expr)
    (hch : ch ∈ chains) (hlevel : ch.level = e.level)
    (hstep : ch.step = .seq (sym (String.ofList [c, c])) (.rule ch.operand))
    (hfold : ∀ node, ch.fold node = joined node (join node.pos)) (hplain : isPlain c = true)
    (hends : continues ch.operand c = false)
    (hrender : e.render numeral = left.textAt numeral ch.level ++
      ([c, c] ++ right.textAt numeral ch.operand)) (hl : Reread numeral left)
    (hr : Reread numeral right) (hjoin : Joins join left right e) : Natural numeral e := by
  have hright := hr.start ch.operand
  refine natural_of_opens hch hlevel hl hrender ?_
  refine (proper_of_mem hch).opens_step (hl.opens ch hch) (fun k => follows_cons hplain hends)
    fun k hk => ?_
  have hreads := Reads.sym_seq (String.ofList [c, c]) (gap_nil (hright.clear k))
    (hr.reads ch.operand (chain_mem_levels ch hch).2 k hk)
  rw [String.toList_ofList] at hreads
  rw [hstep]
  refine hreads.imp ?_
  rintro ns ⟨t, rfl, -, r, hyields, hunplaced⟩ zs hzs node
  obtain ⟨l, hl, hlunplaced⟩ := hzs node
  rw [hfold] at hl ⊢
  exact ⟨join node.pos l r, yields_joined_append hl hyields, hjoin _ _ _ hlunplaced hunplaced⟩

lemma natural_and (hl : Reread numeral left) (hr : Reread numeral right) :
    Natural numeral (.and pos left right) :=
  natural_joined andChain '&' and (by simp [chains]) rfl rfl (fun _ => rfl) (by decide)
    (by decide) rfl hl hr
    fun _ _ _ hl hr => congrArg₂ (and .start) hl hr

lemma natural_or (hl : Reread numeral left) (hr : Reread numeral right) :
    Natural numeral (.or pos left right) :=
  natural_joined orChain '|' or (by simp [chains]) rfl rfl (fun _ => rfl) (by decide)
    (by decide) rfl hl hr
    fun _ _ _ hl hr => congrArg₂ (or .start) hl hr

/-! ## Other operations -/

namespace OfTree

/-- The first expression among the children. -/
lemma yields_firstExpr {t : Tree} {ts : List Tree} (hkind : t.kind = "expr")
    (h : Yields (expr t) e) : Yields (firstExpr (t :: ts)) (some e) := by
  rw [firstExpr, if_pos hkind]
  exact h.map

lemma yields_value {t : Tree} (h : Yields (firstExpr t.children) (some e)) :
    Yields (value t) e := by
  obtain ⟨kind, text, pos, children⟩ := t
  exact h.bind (yields_pure e)

end OfTree

/-- An index in brackets. -/
lemma reads_index {i : Expr} (hi : Reread numeral i) (k : List Char) :
    Reads false (.rule .index) ('[' :: (i.render numeral ++ [']'])) k
      (One fun t => Recovers (value t) i) := by
  have hclose : Follows .expr (']' :: k) := follows_cons rfl rfl
  have hinner := (hi.readsExpr hclose).seq_sym "]" (gap_nil hclose.clear)
  refine .node rfl (.sym_seq "[" (gap_nil ((hi.start_render.append _).clear k)) hinner) ?_
  rintro pos ns ⟨t, rfl, hkind, e', he', heq⟩
  exact ⟨e', yields_value (yields_firstExpr (hkind rfl) he'), heq⟩

lemma natural_index {target i : Expr} (ht : Reread numeral target)
    (hi : Reread numeral i) : Natural numeral (.index pos target i) := by
  have hch : indexChain ∈ chains := by simp [chains]
  have hrender : (index pos target i).render numeral =
      target.textAt numeral .postfixed ++ '[' :: (i.render numeral ++ [']']) := rfl
  refine natural_of_opens hch rfl ht hrender ?_
  refine (proper_of_mem hch).opens_step (ht.opens _ hch) (fun k => ?_) fun k _ =>
    (reads_index hi k).imp ?_
  · exact follows_cons rfl rfl
  · rintro ns ⟨t, rfl, e', he', heq⟩ zs hzs node
    obtain ⟨l, hl, hlunplaced⟩ := hzs node
    exact ⟨.index t.pos l e', yields_indexed_append hl he', congrArg₂ (index .start) hlunplaced heq⟩

/-- Powers, whose exponent has a sign. -/
lemma natural_pow (hl : Reread numeral left)
    (hr : Reread numeral right) : Natural numeral (.binary pos .pow left right) := by
  have hrender : (binary pos .pow left right).render numeral =
      left.textAt numeral .postfixed ++ ('^' :: right.textAt numeral .unary) := rfl
  have hstart : StartsWith opensOperand ((binary pos .pow left right).render numeral) := by
    rw [hrender]
    exact (hl.operand .postfixed (by decide)).append _
  refine natural_of_reads (by simp [level, Arithmetic.level]) hstart.expr (fun _ => hstart)
    fun k hk => ?_
  have hmark : Follows .postfixed ('^' :: (right.textAt numeral .unary ++ k)) :=
    follows_cons rfl rfl
  have hright := hr.reads .unary (by decide) k (hk.congr rfl)
  have hexponent := (Reads.sym_seq "^" (gap_nil ((hr.start .unary).clear k)) hright).opt
  rw [hrender]
  refine .node rfl
    (.seq (v := '^' :: _) (hl.reads .postfixed (by decide) _ hmark) (gap_nil hmark.clear) hexponent
    (R := fun ns => ∃ t t', ns = [t, t'] ∧ Denotes t left ∧ Denotes t' right) ?_) ?_
  · rintro xs ys ⟨t, rfl, -, ht⟩ ⟨t', rfl, -, ht'⟩
    exact ⟨t, t', rfl, ht, ht'⟩
  · rintro p ns ⟨t, t', rfl, ⟨l, hl, hlunplaced⟩, r, hr, hrunplaced⟩
    refine ⟨by rintro ⟨⟩, .binary p .pow l r, hl.bind (hr.bind (yields_pure _)), ?_⟩
    exact congrArg₂ (binary .start .pow) hlunplaced hrunplaced

/-- Conditionals. -/
lemma natural_cond {condition yes no : Expr} (hc : Reread numeral condition)
    (hy : Reread numeral yes) (hn : Reread numeral no) :
    Natural numeral (.cond pos condition yes no) := by
  have hrender : (cond pos condition yes no).render numeral =
      condition.textAt numeral .logicOr ++
        '?' :: (yes.render numeral ++ ':' :: no.render numeral) := rfl
  have hstart : StartsWith opensExpr ((cond pos condition yes no).render numeral) := by
    rw [hrender]
    exact (hc.start .logicOr).append _
  refine natural_of_reads (by simp [level]) hstart
    (fun hrank => absurd hrank (by simp [level, Name.rank])) ?_
  intro k hk
  have hmark : Follows .logicOr ('?' :: ((yes.render numeral ++ ':' :: no.render numeral) ++ k)) :=
    follows_cons rfl rfl
  have hcolon : Follows .expr (':' :: (no.render numeral ++ k)) := follows_cons rfl rfl
  have hno := Reads.sym_seq ":" (gap_nil (hn.start_render.clear k)) (hn.readsExpr (hk.congr rfl))
  have hbranches := Reads.seq (v := ':' :: _) (hy.readsExpr hcolon) (gap_nil hcolon.clear) hno
    (R := fun ns => ∃ t t', ns = [t, t'] ∧ Denotes t yes ∧ Denotes t' no) ?_
  · have hrest := (Reads.sym_seq "?" (gap_nil ((hy.start_render.append _).clear k)) hbranches).opt
    rw [hrender]
    refine .node rfl
      (.seq (v := '?' :: _) (hc.reads .logicOr (by decide) _ hmark) (gap_nil hmark.clear) hrest
      (R := fun ns => ∃ t t' t'', ns = [t, t', t''] ∧ Denotes t condition ∧ Denotes t' yes ∧
        Denotes t'' no) ?_) ?_
    · rintro xs ys ⟨t, rfl, -, ht⟩ ⟨t', t'', rfl, ht', ht''⟩
      exact ⟨t, t', t'', rfl, ht, ht', ht''⟩
    · rintro p ns ⟨t, t', t'', rfl, ⟨c, hc, hcunplaced⟩, ⟨y, hy, hyunplaced⟩, n, hn, hnunplaced⟩
      refine ⟨by rintro ⟨⟩, .cond p c y n, hc.bind (hy.bind (hn.bind (yields_pure _))), ?_⟩
      change cond .start c.unplaced y.unplaced n.unplaced = _
      rw [hcunplaced, hyunplaced, hnunplaced]
      rfl
  · rintro xs ys ⟨t, rfl, -, ht⟩ ⟨t', rfl, -, ht'⟩
    exact ⟨t, t', rfl, ht, ht'⟩

lemma natural_sign {operand : Expr} (c : Char) (join : Position → Expr → Expr) (n : Nat)
    (hs : ["-", "!", "+"][n]? = some (String.ofList [c]))
    (hbefore : ∀ s' ∈ ["-", "!", "+"].take n, differs s' (String.ofList [c]) = true)
    (hsigned : ∀ t e, t.text = String.ofList [c] → signed t e = join t.pos e)
    (hjoin : ∀ pos pos' e e', e'.unplaced = e.unplaced → (join pos e').unplaced =
      (join pos' e).unplaced) (hlevel : (join pos operand).level = .unary) (hc : opensExpr c = true)
    (hrender : (join pos operand).render numeral = c :: operand.textAt numeral .unary)
    (h : Reread numeral operand) : Natural numeral (join pos operand) := by
  refine natural_of_signs hlevel ⟨c, _, hrender, hc⟩ ?_
  rw [hrender]
  refine h.signs.cons (h.start .unary) (fun k hk => ?_) hjoin pos
  have hreads := reads_symbols (j := false) n hs hbefore hk
  rw [String.toList_ofList] at hreads
  exact .node rfl hreads fun _ _ _ e => hsigned _ e rfl

lemma natural_negate {operand : Expr} (h : Reread numeral operand) :
    Natural numeral (.negate pos operand) :=
  natural_sign '-' negate 0 rfl (by decide) (fun t e ht => by rw [signed, ht]; rfl)
    (fun _ _ _ _ heq => congrArg (negate .start) heq) rfl (by decide) rfl h

lemma natural_not {operand : Expr} (h : Reread numeral operand) :
    Natural numeral (.not pos operand) :=
  natural_sign '!' not 1 rfl (by decide) (fun t e ht => by rw [signed, ht]; rfl)
    (fun _ _ _ _ heq => congrArg (not .start) heq) rfl (by decide) rfl h

/-! ## Literals -/

/-- What is no operation. -/
lemma natural_of_primary (hlevel : e.level = .primary)
    (hstart : StartsWith opensOperand (e.render numeral))
    (h : ∀ k, Follows .primary k → ReadsExpr .primary (e.render numeral) k e) :
    Natural numeral e := by
  refine natural_of_reads (by rw [hlevel]; decide) hstart.expr (fun _ => hstart) fun k hk => ?_
  rw [hlevel] at hk ⊢
  exact h k hk

/-- Numbers, as they are written by numerals. -/
lemma natural_number {x : Float} (hx : Writes (numeral x) x) : Natural numeral (.number pos x) := by
  obtain ⟨hnumeral, hread⟩ := hx
  have hrender : (number pos x).render numeral = (numeral x).toList := rfl
  have hstart : StartsWith opensOperand ((number pos x).render numeral) := by
    obtain ⟨m, exponent, hm, hmantissa, -⟩ := numeral_of_takes hnumeral
    obtain ⟨c, r, hc, hhead⟩ := hmantissa.head
    refine ⟨c, r ++ exponent, by rw [hrender, hm, hc, cons_append], ?_⟩
    rcases hhead with hdigit | rfl
    · simp [opensOperand, isWordChar, Char.isAlphanum, hdigit]
    · decide
  refine natural_of_primary rfl hstart fun k hk => ?_
  rw [hrender]
  refine readsExpr_primary 0 rfl (forall_mem_nil _) ?_
  refine .node rfl (.token ((takes_number_iff (hk.numberEnd (Nat.le_refl _))).mpr hnumeral))
    fun p ns _ => ?_
  refine ⟨.number p x, ?_, rfl⟩
  change Yields (expr (.node "number" _ p ns)) _
  rw [expr_number, String.ofList_toList, hread]
  rfl

/-! ### Strings -/

/-- A character inside a string is escaped, or it is neither a quote nor a backslash. -/
lemma escapedChar_cases (c : Char) :
    (∃ x, escapedChar c = ['\\', x] ∧ ∀ s, unescape ('\\' :: x :: s) = c :: unescape s) ∨
      escapedChar c = [c] ∧ c ≠ '"' ∧ c ≠ '\\' := by
  unfold escapedChar
  split_ifs with hquote hbackslash hn ht hr
  · exact .inl ⟨'"', rfl, fun s => by rw [hquote, unescape] <;> decide⟩
  · exact .inl ⟨'\\', rfl, fun s => by rw [hbackslash, unescape] <;> decide⟩
  · exact .inl ⟨'n', rfl, fun s => by rw [hn, unescape]⟩
  · exact .inl ⟨'t', rfl, fun s => by rw [ht, unescape]⟩
  · exact .inl ⟨'r', rfl, fun s => by rw [hr, unescape]⟩
  · exact .inr ⟨rfl, hquote, hbackslash⟩

/-- The text inside a string goes up to the quote. -/
lemma takes_stringInner (s k : List Char) :
    stringInner.Takes (s.flatMap escapedChar) ('"' :: k) := by
  induction s with
  | nil => exact takes_star_nil rfl
  | cons c s ih =>
    rw [flatMap_cons]
    rcases escapedChar_cases c with ⟨x, hx, -⟩ | ⟨hc, hquote, hbackslash⟩
    · rw [hx]
      refine takes_star_append (cons_ne_nil _ _) (takes_alt.mpr (.inl ?_)) ih
      exact takes_seq.mpr ⟨['\\'], [x], rfl, takes_literal.mpr rfl, takes_char.mpr ⟨x, rfl, rfl⟩⟩
    · rw [hc]
      refine takes_star_append (cons_ne_nil _ _) (takes_alt.mpr (.inr ⟨?_, ?_⟩)) ih
      · exact take_seq_eq_none.mpr
          (.inl (take_text_eq_none (c := '\\') (by rintro d ⟨⟩; exact hbackslash)))
      · exact takes_char.mpr ⟨c, rfl, by simp [hquote, hbackslash]⟩

lemma unescape_flatMap (s : List Char) : unescape (s.flatMap escapedChar) = s := by
  induction s with
  | nil => rfl
  | cons c s ih =>
    rw [flatMap_cons]
    rcases escapedChar_cases c with ⟨x, hx, hunescape⟩ | ⟨hc, -, hbackslash⟩
    · rw [hx, cons_append, cons_append, nil_append, hunescape, ih]
    · rw [hc, cons_append, nil_append, unescape, ih]
      all_goals simp [hbackslash]

lemma natural_string : Natural numeral (.string pos s) := by
  have hrender : (string pos s).render numeral = '"' :: (s.toList.flatMap escapedChar ++ ['"']) :=
    rfl
  refine natural_of_primary rfl ⟨'"', _, hrender, by decide⟩ fun k hk => ?_
  rw [hrender]
  refine readsExpr_primary 1 rfl (refuses_of_starts (n := 4) (by rfl) (by decide)) ?_
  have hinner : Reads true (.rule .stringInner) (s.toList.flatMap escapedChar) ('"' :: k)
      (One fun t => t.kind = "string_inner" ∧
        t.text = String.ofList (s.toList.flatMap escapedChar)) :=
    .node rfl (.token (takes_stringInner s.toList k)) fun _ _ _ => ⟨rfl, rfl⟩
  refine .node rfl (.sym_seq "\"" (gap_joined _) (hinner.seq_sym "\"" (gap_joined _))) ?_
  rintro p ns ⟨t, rfl, hkind, htext⟩
  refine ⟨.string p s, ?_, rfl⟩
  change Yields (expr (.node "string" _ p [t])) _
  rw [expr_string, child?_cons hkind, Option.map_some, Option.getD_some, htext,
    String.toList_ofList, unescape_flatMap, String.ofList_toList]
  rfl

lemma natural_bool {b : Bool} : Natural numeral (.bool pos b) := by
  have hrender : (bool pos b).render numeral = if b then "true".toList else "false".toList := rfl
  have hstart : StartsWith opensOperand ((bool pos b).render numeral) := by
    cases b
    · exact ⟨'f', _, hrender, by decide⟩
    · exact ⟨'t', _, hrender, by decide⟩
  refine natural_of_primary rfl hstart fun k hk => ?_
  rw [hrender]
  refine readsExpr_primary 2 rfl
    (by cases b <;> exact refuses_of_starts (n := 4) (by rfl) (by decide)) ?_
  refine .node rfl (.token (takes_ended ?_ hk.wordEnd)) fun p _ _ =>
    ⟨.bool p b, by cases b <;> rfl, rfl⟩
  cases b
  · exact takes_alt.mpr (.inr ⟨rfl, takes_literal.mpr rfl⟩)
  · exact takes_alt.mpr (.inl (takes_literal.mpr rfl))

lemma natural_undefined : Natural numeral (.undefined pos) := by
  have hrender : (undefined pos).render numeral = "undef".toList := rfl
  refine natural_of_primary rfl ⟨'u', _, hrender, by decide⟩ fun k hk => ?_
  rw [hrender]
  refine readsExpr_primary 3 rfl (refuses_of_starts (n := 4) (by rfl) (by decide)) ?_
  exact .node rfl (.token (takes_word hk.wordEnd)) fun p _ _ => ⟨.undefined p, rfl, rfl⟩

/-! ### Names -/

lemma starts_name {name : String} (h : IsName name) : StartsWith opensOperand name.toList := by
  obtain ⟨-, ⟨c, s, hs, hc, -⟩, -⟩ := takes_identifier.mp h
  refine ⟨c, s, hs, ?_⟩
  simp only [isNameStart, Bool.or_eq_true, decide_eq_true_eq] at hc
  rcases hc with (rfl | rfl) | halpha
  · decide
  · decide
  · simp [opensOperand, isWordChar, Char.isAlphanum, halpha]

/-- A name is no literal. -/
lemma refuses_literals {w : List Char}
    (h : identifier.Takes w k) : ∀ a ∈ primaries.take 4, Refuses false a (w ++ k) := by
  simp only [primaries, take_succ_cons, take_zero, forall_mem_cons]
  refine ⟨?_, ?_, ?_, ?_, forall_mem_nil _⟩
  · exact .rule (.token (take_number_of_name h))
  · exact .rule (.seq (refuses_sym (c := '"') rfl (head_ne_of_name h (by decide))))
  · exact .rule (.token (take_boolean_of_name h))
  · exact .rule (.token (take_word_of_name (by decide) h))

lemma OfTree.yields_name {t child : Tree} (h : t.child? "ident" = some child) :
    Yields (name t) child.text := by
  rw [name, h]
  rfl

/-- Names. -/
lemma natural_var {name : String} (h : IsName name) : Natural numeral (.var pos name) := by
  have hrender : (var pos name).render numeral = name.toList := rfl
  refine natural_of_primary rfl (by rw [hrender]; exact starts_name h) fun k hk => ?_
  rw [hrender]
  have htakes : identifier.Takes name.toList k := takes_identifier_iff.mpr ⟨h, hk.wordEnd⟩
  have hidentifier := reads_identifier (j := false) h hk.wordEnd
  -- a call would need a parenthesis behind the name
  have hcall : Refuses false (.rule .functionCall) (name.toList ++ k) :=
    .rule (.seq_right hidentifier (gap_nil hk.clear)
      (.seq (refuses_sym (c := '(') rfl (hk.ne (by decide)))))
  have hbracket : Refuses false (sym "[") (name.toList ++ k) :=
    refuses_sym (c := '[') rfl (head_ne_of_name htakes (by decide))
  have hbefore : ∀ a ∈ primaries.take 4 ++ [.rule .functionCall, .rule .range, .rule .vector],
      Refuses false a (name.toList ++ k) := by
    refine forall_mem_append.mpr ⟨refuses_literals htakes, ?_⟩
    simp only [forall_mem_cons]
    exact ⟨hcall, .rule (.seq hbracket), .rule (.seq hbracket), forall_mem_nil _⟩
  refine readsExpr_primary 7 rfl hbefore (.node rfl hidentifier ?_)
  rintro p ns ⟨t, rfl, hkind, rfl⟩
  exact ⟨.var p t.text, (yields_name (child?_cons hkind)).bind (yields_pure _), rfl⟩

/-! ### Lists -/

namespace OfTree

lemma yields_exprs_nil : Yields (exprs []) [] := yields_pure []

lemma yields_exprs_cons {t : Tree} {ts : List Tree} {es : List Expr} (h : Yields (expr t) e)
    (hs : Yields (exprs ts) es) : Yields (exprs (t :: ts)) (e :: es) :=
  h.bind (hs.bind (yields_pure _))

lemma yields_exprs {es : List Expr} {ts : List Tree} (h : Forall₂ (fun e t => Denotes t e) es ts) :
    ∃ es', Yields (exprs ts) es' ∧ es'.map unplaced = es.map unplaced := by
  induction h with
  | nil => exact ⟨[], yields_pure [], rfl⟩
  | cons ht _ ih =>
    obtain ⟨e', he', heq⟩ := ht
    obtain ⟨es', hes', heqs⟩ := ih
    refine ⟨e' :: es', yields_exprs_cons he' hes', ?_⟩
    rw [map_cons, map_cons, heq, heqs]

end OfTree

/-- A list is an item and further ones behind commas. -/
lemma separated_map_cons (text : α → List Char) (x : α)
    (items : List α) : separated ((x :: items).map text) = text x ++ further text items := by
  induction items generalizing x with
  | nil => exact (append_nil _).symm
  | cons y items ih =>
    have hne : (y :: items).map text ≠ [] := cons_ne_nil _ _
    rw [map_cons, separated, ih y]
    · rfl
    · exact hne

lemma reads_separated {r : Name} {text : α → List Char} {A : α → Tree → Prop} {items : List α}
    (k : List Char) (hplain : isPlain c = true) (hc : c ≠ ',')
    (hnil : ∀ k, Refuses false (.rule r) (c :: k))
    (h : ∀ x ∈ items, ReadsItem false r c (text x) (A x)) :
    Reads false (Rules.commaList r) (separated (items.map text)) (c :: k) (Forall₂ A items) := by
  cases items with
  | nil => exact reads_commaList_nil (hnil k)
  | cons x items =>
    rw [separated_map_cons]
    exact reads_commaList_cons hplain hc h

/-- What stands in a list is clear of blanks. -/
lemma clear_separated {r : Name} {text : α → List Char} {A : α → Tree → Prop} {items : List α}
    (k : List Char) (hplain : isPlain c = true)
    (h : ∀ x ∈ items, ReadsItem false r c (text x) (A x)) :
    Clear (separated (items.map text) ++ c :: k) := by
  cases items with
  | nil => exact clear_cons hplain
  | cons x items =>
    rw [separated_map_cons, append_assoc]
    exact (h x mem_cons_self).start.clear

lemma Reread.readsItem (h : Reread numeral e) (hplain : isPlain c = true)
    (hc : continues .expr c = false) :
    ReadsItem false .expr c (e.render numeral) fun t => t.kind = "expr" ∧ Denotes t e where
  start := h.start_render.plainStart
  reads d k hd := by
    have hfollows : Follows .expr (d :: k) := by
      rcases hd with rfl | rfl
      · exact follows_cons rfl rfl
      · exact follows_cons hplain hc
    exact (h.readsExpr hfollows).imp fun ns ⟨t, hns, hkind, ht⟩ => ⟨t, hns, hkind rfl, ht⟩

/-- No expression stands where a list ends. -/
lemma refuses_expr_bracket (k : List Char) : Refuses false (.rule .expr) (']' :: k) :=
  .of_starts (n := 16) (by decide) (by decide) (clear_cons rfl)

/-- A list is not a range: behind its first item there is no colon. -/
lemma refuses_range {items : List Expr} (h : ∀ e ∈ items, Reread numeral e) (k : List Char) :
    Refuses false (.rule .range) ('[' :: (separated (items.map (render numeral)) ++ ']' :: k)) := by
  have hitems : ∀ e ∈ items, ReadsItem false .expr ']' (e.render numeral) _ :=
    fun e he => (h e he).readsItem (by decide) (by decide)
  refine .rule (.seq_right (u := ['[']) (v := separated (items.map (render numeral)) ++ ']' :: k)
    (Reads.sym "[")
    (gap_nil (clear_separated k (by decide) hitems)) ?_)
  cases items with
  | nil => exact .seq (refuses_expr_bracket k)
  | cons e items =>
    obtain ⟨d, s, hs, hd⟩ := exists_further_append (render numeral) items ']' k
    have hplain : isPlain d = true := by rcases hd with rfl | rfl <;> decide
    rw [separated_map_cons, append_assoc, hs]
    refine .seq_right ((hitems e mem_cons_self).reads d s hd) (gap_nil (clear_cons hplain))
      (.seq ?_)
    refine refuses_sym (c := ':') rfl ?_
    rintro x ⟨⟩
    rcases hd with rfl | rfl <;> decide

lemma natural_vector {items : List Expr}
    (h : ∀ e ∈ items, Reread numeral e) : Natural numeral (.vector pos items) := by
  have hrender : (vector pos items).render numeral =
      '[' :: (separated (items.map (render numeral)) ++ [']']) := by
    rw [← renderAll_eq_map]
    rfl
  have hitems : ∀ e ∈ items, ReadsItem false .expr ']' (e.render numeral) _ :=
    fun e he => (h e he).readsItem (by decide) (by decide)
  refine natural_of_primary rfl ⟨'[', _, hrender, by decide⟩ fun k _ => ?_
  rw [hrender]
  have hbefore : ∀ a ∈ primaries.take 5 ++ [.rule .range],
      Refuses false a ('[' :: (separated (items.map (render numeral)) ++ [']']) ++ k) := by
    rw [cons_append, append_assoc]
    exact forall_mem_append.mpr
      ⟨refuses_of_starts (n := 4) (by rfl) (by decide),
        forall_mem_singleton.mpr (refuses_range h k)⟩
  have hlist := (reads_separated k (by decide) (by decide) refuses_expr_bracket hitems).seq_sym "]"
    (gap_nil (clear_cons (by rfl)))
  refine readsExpr_primary 6 rfl hbefore
    (.node rfl (.sym_seq "[" (gap_nil ?_) hlist) fun p ts hts => ?_)
  · show Clear ((separated (items.map (render numeral)) ++ [']']) ++ k)
    rw [append_assoc]
    exact clear_separated k (by decide) hitems
  · obtain ⟨es, hes, heq⟩ := yields_exprs (hts.imp fun _ _ ht => ht.2)
    refine ⟨.vector p es, hes.bind (yields_pure _), congrArg (vector .start) ?_⟩
    rw [unplacedAll_eq_map, unplacedAll_eq_map, heq]

lemma Reread.reads_seq (h : Reread numeral e) {b : Peg Name} {v : List Char} {Q : List Tree → Prop}
    (hk : Follows .expr (v ++ k)) (hb : Reads false b v k Q) :
    Reads false (.seq (.rule .expr) b) (e.render numeral ++ v) k
      fun ns => ∃ t ts, ns = t :: ts ∧ ((Name.expr = .expr → t.kind = "expr") ∧ Denotes t e) ∧
      Q ts :=
  (h.readsExpr hk).cons (gap_nil hk.clear) hb

/-- What stands in brackets and starts with a bound. -/
lemma natural_bounds {start : Expr} {v : List Char} {Q : List Tree → Prop}
    (hlevel : e.level = .primary)
    (hrender : e.render numeral = '[' :: (start.render numeral ++ ':' :: v))
    (ha : Reread numeral start) (hv : StartsWith opensExpr v)
    (h : ∀ k,
      Reads false (.seq (.rule .expr) (.seq (.opt (.seq (sym ":") (.rule .expr))) (sym "]"))) v k Q)
    (hmeans : ∀ text p t a ts, Yields (expr t) a → a.unplaced = start.unplaced → Q ts →
      Denotes (.node Name.range.kind text p (t :: ts)) e) : Natural numeral e := by
  refine natural_of_primary hlevel ⟨'[', _, hrender, by decide⟩ fun k _ => ?_
  rw [hrender]
  refine readsExpr_primary 5 rfl (refuses_of_starts (n := 4) (by rfl) (by decide)) ?_
  have hcolon : Follows .expr (':' :: (v ++ k)) := follows_cons rfl rfl
  have hstart := ha.reads_seq (v := ':' :: v) hcolon (.sym_seq ":" (gap_nil (hv.clear k)) (h k))
  refine .node rfl (.sym_seq "[" (gap_nil ((ha.start_render.append _).clear k)) hstart) ?_
  rintro p ns ⟨t, ts, rfl, ⟨-, a, ha, haunplaced⟩, hts⟩
  exact hmeans _ p t a ts ha haunplaced hts

lemma natural_range {start stop : Expr} (ha : Reread numeral start)
    (hb : Reread numeral stop) : Natural numeral (.range pos start stop) := by
  have hclose (k : List Char) : Follows .expr (']' :: k) := follows_cons rfl rfl
  have hnone (k : List Char) : Refuses false (sym ":") (']' :: k) :=
    refuses_sym (c := ':') rfl (by rintro d ⟨⟩; decide)
  -- the optional third bound does not follow
  have hstop (k : List Char) := hb.reads_seq (v := [']']) (hclose k)
    (.opt_nil_seq (.sym "]") (gap_nil (hclose k).clear) (.seq (b := .rule .expr) (hnone k)))
  refine natural_bounds rfl rfl ha (hb.start_render.append _) hstop ?_
  rintro text p t a _ ha haunplaced ⟨t', _, rfl, ⟨-, b, hb, hbunplaced⟩, rfl⟩
  refine ⟨.range p a b, ?_, congrArg₂ (range .start) haunplaced hbunplaced⟩
  exact (yields_exprs_cons ha (yields_exprs_cons hb yields_exprs_nil)).bind (yields_pure _)

lemma natural_rangeBy {start step stop : Expr} (ha : Reread numeral start)
    (hs : Reread numeral step) (hb : Reread numeral stop) :
    Natural numeral (.rangeBy pos start step stop) := by
  have hclose (k : List Char) : Follows .expr (']' :: k) := follows_cons rfl rfl
  have hthird (k : List Char) :=
    (Reads.sym_seq ":" (gap_nil (hb.start_render.clear _)) (hb.readsExpr (hclose k))).opt.seq_sym
      "]" (gap_nil (hclose k).clear)
  have hstep (k : List Char) := hs.reads_seq (follows_cons (by rfl) (by rfl)) (hthird k)
  refine natural_bounds rfl rfl ha (hs.start_render.append _) hstep ?_
  rintro text p t a _ ha haunplaced
    ⟨t', _, rfl, ⟨-, s, hs, hsunplaced⟩, t'', rfl, -, b, hb, hbunplaced⟩
  refine ⟨.rangeBy p a s b, ?_, ?_⟩
  · have hbounds := yields_exprs_cons hs (yields_exprs_cons hb yields_exprs_nil)
    exact (yields_exprs_cons ha hbounds).bind (yields_pure _)
  · change rangeBy .start a.unplaced s.unplaced b.unplaced = _
    rw [haunplaced, hsunplaced, hbunplaced]
    rfl

end SolidScript
