import SolidScript.Proofs.Program.Rereading

/-!
# Rereading calls

The arguments of a call are told apart by their texts: one without a keyword does not look as if it
had one. This completes the expressions.
-/

namespace SolidScript

open Grammar List OfTree Argument

open Grammar (Name Peg programs Reads Refuses One Follows gap_nil)
open Grammar.Rules (sym)
open Grammar.Pattern Grammar.Words
open Recording (Yields yields_pure)

variable {numeral : Float → String}

/-! ## Texts that are not named arguments -/

/-- The text stands behind a name and does not make it the keyword of an argument. -/
structure BehindName (k : List Char) : Prop where
  wordEnd : WordEnd k
  clear : Clear k
  /-- An equals sign is the first one of two. -/
  paired : ∀ s, k = '=' :: s → ∃ s', s = '=' :: s'

lemma behindName_cons {c : Char} {s : List Char} (hplain : isPlain c = true)
    (hword : isWordChar c = false) (hc : c ≠ '=') : BehindName (c :: s) :=
  ⟨wordEnd_cons.mpr hword, clear_cons hplain, fun _ h => absurd (cons.inj h).1 hc⟩

/-- If the text starts with a name, no equals sign for a keyword follows. -/
def Unnamed (u : List Char) : Prop := ∀ w s, u = w ++ s → identifier.Takes w s → BehindName s

lemma unnamed_of_head {c : Char} {s : List Char} (hc : isNameStart c = false) :
    Unnamed (c :: s) := by
  intro w k hw htakes
  have hhead := head_ne_of_name htakes hc
  rw [← hw] at hhead
  exact absurd rfl (hhead c rfl)

variable {s name : String} {k v : List Char} {e : Expr} {args : List Argument}

lemma numeral_head (h : IsNumeral s) : ∃ c t, s.toList = c :: t ∧ isNameStart c = false := by
  obtain ⟨m, exponent, hm, hmantissa, -⟩ := numeral_of_takes h
  obtain ⟨c, r, hc, hhead⟩ := hmantissa.head
  refine ⟨c, r ++ exponent, by rw [hm, hc, cons_append], Bool.eq_false_iff.mpr fun hstart => ?_⟩
  rcases hhead with hdigit | rfl
  · rw [isDigit_eq_false_of_isNameStart hstart] at hdigit
    exact Bool.noConfusion hdigit
  · exact absurd hstart (by decide)

lemma unnamed_of_name {w : List Char} (hw : identifier.Takes w k) (hk : BehindName k) :
    Unnamed (w ++ k) := by
  intro w' k' heq htakes
  have htake : identifier.take (w ++ k) = some (w'.length, k') := by
    rw [heq]
    exact htakes
  rw [show identifier.take (w ++ k) = some (w.length, k) from hw, Option.some.injEq,
    Prod.mk.injEq] at htake
  rw [← htake.2]
  exact hk

lemma unnamed_of_reserved (hs : s ∈ reservedWords) (hk : WordEnd k) : Unnamed (s.toList ++ k) := by
  intro w k' heq htakes
  have hnone := take_word_of_name hs htakes
  rw [← heq] at hnone
  rw [show (word s).take (s.toList ++ k) = _ from takes_word hk] at hnone
  nomatch hnone

lemma refuses_equals (h : BehindName k)
    (b : Peg Name) : Refuses false (.seq (sym "=") (.seq (.absent (text "=")) b)) k := by
  by_cases hequals : ∃ s, k = '=' :: s
  · -- the rule wants a single equals sign
    obtain ⟨s, rfl⟩ := hequals
    obtain ⟨s', rfl⟩ := h.paired s rfl
    refine .seq_right (u := ['=']) (Reads.sym "=") (gap_nil (clear_cons (by rfl))) (.seq ?_)
    exact .absent (u := ['=']) (takes_literal.mpr rfl)
  · refine .seq (refuses_sym (c := '=') rfl fun d hd hequal => hequals ?_)
    cases k with
    | nil => nomatch hd
    | cons x s =>
      cases hd
      exact ⟨s, by rw [hequal]⟩

/-- A name is taken for a keyword only in front of a single equals sign. -/
lemma refuses_keyword_of_unnamed {u : List Char} (h : Unnamed u) (b : Peg Name) :
    Refuses false (.seq (.rule .identifier) (.seq (sym "=") (.seq (.absent (text "=")) b))) u := by
  intro c hc hrest
  -- whether a name stands here is not known, but the rule for names takes one or is refused
  obtain ⟨r, hr⟩ := ranked_programs.exists_parses false (.rule .identifier) hc
  cases r with
  | none => exact .seq_none_left hr
  | some parsed =>
    obtain ⟨d, ns⟩ := parsed
    have hsound := (hr.sound hc _ _ rfl).1
    have hbehind : BehindName d.rest := by
      cases hr with
      | rule hbody =>
        have htakes := Parses.takes hc hbody
        refine h _ _ ?_ htakes
        obtain ⟨w, hw⟩ := (hbody.sound hc _ _ rfl).2
        rw [Cursor.textTo_eq hc hsound hw.symm, String.toList_ofList, hw, hrest]
    refine .seq_none_right hr ?_
    rw [(gap_nil hbehind.clear).eq rfl]
    exact refuses_equals hbehind b d hsound rfl

/-- An expression that is reread, also as an argument without a keyword. -/
structure Readable (numeral : Float → String) (e : Expr) : Prop extends Reread numeral e where
  unnamed : ∀ k, BehindName k → Unnamed (e.render numeral ++ k)

lemma Readable.unnamed_textAt (h : Readable numeral e) (r : Name)
    (hk : BehindName k) : Unnamed (e.textAt numeral r ++ k) := by
  by_cases hlt : r.rank < e.level.rank
  · rw [textAt_of_lt hlt]
    exact unnamed_of_head (by decide)
  · rw [textAt_of_le (Nat.not_lt.mp hlt)]
    exact h.unnamed k hk

/-- A symbol that stands behind a name and does not make it a keyword. -/
def endsName (s : String) : Bool :=
  endsOperand .primary s && (s.toList.head? ≠ some '=' || s.toList = ['=', '='])

lemma behindName_of_endsName (k : List Char) (h : endsName s = true)
    (hv : StartsWith opensExpr v) : BehindName (s.toList ++ (v ++ k)) := by
  obtain ⟨hends, hpaired⟩ := Bool.and_eq_true_iff.mp h
  have hfollows := follows_of_endsOperand k hends hv
  refine ⟨hfollows.wordEnd, hfollows.clear, fun t ht => ?_⟩
  rcases Bool.or_eq_true_iff.mp hpaired with hne | heq
  · refine absurd ?_ (of_decide_eq_true hne)
    cases hs : s.toList with
    | nil => rw [endsOperand, hs] at hends; exact Bool.noConfusion hends
    | cons c cs => rw [hs] at ht; rw [(cons.inj ht).1]; rfl
  · rw [of_decide_eq_true heq] at ht
    exact ⟨v ++ k, (cons.inj ht).2.symm⟩

/-- An operation starts with the text of its first operand. -/
lemma unnamed_operation {left : Expr} {r : Name} (hl : Readable numeral left)
    (hrender : e.render numeral = left.textAt numeral r ++ (s.toList ++ v)) (hs : endsName s = true)
    (hv : StartsWith opensExpr v) (k : List Char) : Unnamed (e.render numeral ++ k) := by
  rw [hrender, append_assoc, append_assoc]
  exact hl.unnamed_textAt r (behindName_of_endsName k hs hv)

/-! ## Arguments -/

/-- The node stands for the argument, if its keyword has not been seen. -/
def DenotesArgument (a : Argument) (t : Tree) : Prop :=
  t.kind = "argument" ∧ ∀ seen : List String, (∀ n ∈ a.name, n ∉ seen) →
    ∃ a', Yields (argument t seen t.children) a' ∧ a'.unplaced = a.unplaced

lemma reads_positional {value : Expr} (h : Readable numeral value) :
    ReadsItem false .argument ')' (value.render numeral) (DenotesArgument ⟨none, value⟩) where
  start := h.start_render.plainStart
  reads d k hd := by
    have hbehind : BehindName (d :: k) := by
      rcases hd with rfl | rfl <;> exact behindName_cons rfl rfl (by decide)
    have hnamed : Refuses false (.rule .namedArg) (value.render numeral ++ d :: k) :=
      .rule (refuses_keyword_of_unnamed (h.unnamed _ hbehind) _)
    refine .node rfl (.alt_right hnamed ((h.readsItem (by decide) (by decide)).reads d k hd)) ?_
    rintro pos ns ⟨t, rfl, hkind, e', he', heq⟩
    refine ⟨rfl, fun seen _ => ⟨⟨none, e'⟩, ?_, by rw [unplaced, unplaced, heq]⟩⟩
    show Yields (argument _ seen [t]) _
    rw [argument, if_neg (by rw [hkind]; decide)]
    exact he'.bind (yields_pure _)

variable {Q : List Tree → Prop}

/-- A name and an equals sign in front of a text that starts like an expression. -/
lemma reads_assigned (hname : IsName name) {b : Peg Name} {w : List Char}
    (hw : StartsWith opensExpr w) (hb : Reads false b w k Q) :
    Reads false (.seq (.rule .identifier) (.seq (sym "=") (.seq (.absent (text "=")) b)))
      (name.toList ++ '=' :: w) k
      fun ns => ∃ t ts, ns = t :: ts ∧ (t.kind = "ident" ∧ t.text = name) ∧ Q ts := by
  have hclear : Clear (w ++ k) := hw.clear k
  have habsent : (text "=").take (w ++ k) = none :=
    take_text_eq_none (c := '=') (hw.head_ne (by decide) k)
  have hrest : Reads false (.seq (.absent (text "=")) b) w k Q :=
    .seq (u := []) (.absent habsent) (gap_nil hclear) hb fun xs ys hxs hys => by rw [hxs]; exact hys
  have hword : WordEnd ('=' :: w ++ k) := wordEnd_cons.mpr (by decide)
  exact (reads_identifier hname hword).cons (gap_nil (clear_cons (by rfl)))
    (.sym_seq "=" (gap_nil hclear) hrest)

/-- What stands behind an item of a list does not continue an expression. -/
lemma follows_item {d : Char} (hd : d = ',' ∨ d = ')') (k : List Char) :
    Follows .expr (d :: k) := by
  rcases hd with rfl | rfl <;> exact follows_cons rfl rfl

lemma OfTree.yields_pair {kind text : String} {pos : Position} {t t' : Tree}
    (ht : t.kind = "ident" ∧ t.text = name) (ht' : t'.kind = "expr") (h : Denotes t' e) :
    Yields (OfTree.name (.node kind text pos [t, t'])) name ∧
      Recovers (value (.node kind text pos [t, t'])) e := by
  obtain ⟨hkind, rfl⟩ := ht
  obtain ⟨e', he', heq⟩ := h
  refine ⟨yields_name (child?_cons hkind), e', yields_value ?_, heq⟩
  show Yields (firstExpr [t, t']) _
  rw [firstExpr_cons_of_ne (by rw [hkind]; decide)]
  exact yields_firstExpr ht' he'

lemma reads_named {value : Expr} (hname : IsName name) (h : Reread numeral value) :
    ReadsItem false .argument ')' (name.toList ++ '=' :: value.render numeral)
      (DenotesArgument ⟨some name, value⟩) where
  start := ((starts_name hname).expr.append _).plainStart
  reads d k hd := by
    have hnamed :
      Reads false (.rule .namedArg) (name.toList ++ '=' :: value.render numeral) (d :: k)
        (One fun t => t.kind = "named_arg" ∧ Yields (OfTree.name t) name ∧
          Recovers (OfTree.value t) value) := by
      refine .node rfl (reads_assigned hname h.start_render (h.readsExpr (follows_item hd k))) ?_
      rintro pos ns ⟨t, _, rfl, ht, t', rfl, hkind, hvalue⟩
      exact ⟨rfl, OfTree.yields_pair ht (hkind rfl) hvalue⟩
    refine .node rfl (.alt_left hnamed) ?_
    rintro pos ns ⟨t, rfl, hkind, hyields, e', he', heq⟩
    refine ⟨rfl,
      fun seen hseen => ⟨⟨some name, e'⟩, ?_, by rw [unplaced, unplaced, heq]⟩⟩
    have hnew : seen.contains name = false := by simpa using hseen name rfl
    show Yields (OfTree.argument _ seen [t]) _
    rw [OfTree.argument, if_pos hkind]
    refine hyields.bind ?_
    rw [hnew]
    exact he'.bind (yields_pure _)

lemma reads_argument {a : Argument} (hname : ∀ n ∈ a.name, IsName n)
    (h : Readable numeral a.value) :
    ReadsItem false .argument ')' (a.render numeral) (DenotesArgument a) := by
  obtain ⟨_ | name, value⟩ := a
  · exact reads_positional h
  · exact reads_named (hname name rfl) h.toReread

/-- Nodes of arguments one after the other, none of which repeats a keyword. -/
lemma OfTree.yields_arguments {ts : List Tree} (h : Forall₂ DenotesArgument args ts)
    (hnodup : (args.filterMap Argument.name).Nodup) {seen : List String}
    (hseen : ∀ n ∈ args.filterMap Argument.name, n ∉ seen) :
    ∃ args', Yields (arguments seen ts) args' ∧
      args'.map Argument.unplaced = args.map Argument.unplaced := by
  induction h generalizing seen with
  | nil => exact ⟨[], yields_pure [], rfl⟩
  | @cons a t args ts ht _ ih =>
    obtain ⟨hkind, hargument⟩ := ht
    have hmem : ∀ n ∈ a.name, n ∈ (a :: args).filterMap Argument.name := fun n hn =>
      mem_filterMap.mpr ⟨a, mem_cons_self, hn⟩
    have hrest : ∀ n ∈ args.filterMap Argument.name, n ∈ (a :: args).filterMap Argument.name :=
      fun n hn =>
      let ⟨b, hb, hbn⟩ := mem_filterMap.mp hn
      mem_filterMap.mpr ⟨b, mem_cons_of_mem a hb, hbn⟩
    obtain ⟨a', ha', heq⟩ := hargument seen fun n hn => hseen n (hmem n hn)
    -- the keyword of this argument counts as seen for the ones behind it
    have hname : a'.name = a.name := show a'.unplaced.name = a.unplaced.name by rw [heq]
    have hnew : ∀ n ∈ args.filterMap Argument.name, n ∉ a'.name.toList ++ seen := by
      intro n hn hor
      rcases mem_append.mp hor with hkeyword | hold
      · rw [hname, Option.mem_toList] at hkeyword
        rw [filterMap_cons_some hkeyword, nodup_cons] at hnodup
        exact hnodup.1 hn
      · exact hseen n (hrest n hn) hold
    obtain ⟨args', hargs', heqs⟩ :=
      ih (hnodup.sublist (Sublist.filterMap _ (sublist_cons_self a args))) hnew
    refine ⟨a' :: args', ?_, by rw [map_cons, map_cons, heq, heqs]⟩
    obtain ⟨kind, text, pos, children⟩ := t
    rw [arguments, if_pos (show kind = _ from hkind)]
    exact ha'.bind (hargs'.bind (yields_pure _))

lemma reads_listed {α : Type} (hname : IsName name) {list item : Name} {text : α → List Char}
    {A : α → Tree → Prop} {items : List α}
    (hlist : programs.rules list = Rules.node [Rules.commaList item])
    (hend : ∀ k, Refuses false (.rule item) (')' :: k) )
    (hitems : ∀ x ∈ items, ReadsItem false item ')' (text x) (A x)) {b : Peg Name}
    (hb : Reads false b (')' :: v) k Q) :
    Reads false (.seq (.rule .identifier) (.seq (sym "(") (.seq (.rule list) b)))
      (name.toList ++ '(' :: (separated (items.map text) ++ ')' :: v)) k
      fun ns => ∃ t t' ts, ns = t :: t' :: ts ∧ (t.kind = "ident" ∧ t.text = name) ∧
        (t'.kind = list.kind ∧ Forall₂ A items t'.children) ∧ Q ts := by
  have hinside : Reads false (.rule list) (separated (items.map text)) (')' :: (v ++ k))
      (One fun t => t.kind = list.kind ∧ Forall₂ A items t.children) := by
    refine .node (Q := Forall₂ A items) (by rw [hlist]; rfl) ?_ fun _ _ hns => ⟨rfl, hns⟩
    rw [hlist]
    exact reads_separated _ (by decide) (by decide) hend hitems
  have hclear : Clear ((separated (items.map text) ++ ')' :: v) ++ k) := by
    rw [append_assoc]
    exact clear_separated _ (by decide) hitems
  have hinner := Reads.cons (v := ')' :: v) hinside (gap_nil (clear_cons (by rfl))) hb
  have hidentifier := reads_identifier (j := false) hname
    (k := '(' :: (separated (items.map text) ++ ')' :: v) ++ k) (wordEnd_cons.mpr (by decide))
  refine (hidentifier.cons (gap_nil (clear_cons (by rfl)))
    (.sym_seq "(" (gap_nil hclear) hinner)).imp ?_
  rintro ns ⟨t, _, rfl, ht, t', ts, rfl, ht', hts⟩
  exact ⟨t, t', ts, rfl, ht, ht', hts⟩

/-- A name with arguments in parentheses. -/
lemma reads_call (hcall : ProperCall name args) (h : ∀ a ∈ args, Readable numeral a.value)
    {b : Peg Name} (hb : Reads false b (')' :: v) k Q) :
    Reads false (.seq (.rule .identifier) (.seq (sym "(") (.seq (.rule .callArgs) b)))
      (name.toList ++ '(' :: (separated (args.map (render numeral)) ++ ')' :: v)) k
      fun ns => ∃ t t' ts, ns = t :: t' :: ts ∧ (t.kind = "ident" ∧ t.text = name) ∧
        (t'.kind = "call_args" ∧ Forall₂ DenotesArgument args t'.children) ∧ Q ts :=
  reads_listed hcall.name rfl
    (fun _ => .of_starts (n := 18) (by decide) (by decide) (clear_cons rfl))
    (fun a ha => reads_argument (hcall.keywords a ha) (h a ha)) hb

/-- The nodes of a name and of arguments make a call. -/
lemma OfTree.yields_firstArguments {t : Tree} (ts : List Tree)
    (hnodup : (args.filterMap Argument.name).Nodup)
    (h : t.kind = "call_args" ∧ Forall₂ DenotesArgument args t.children) :
    ∃ args', Yields (firstArguments (t :: ts)) (some args') ∧
      Argument.unplacedAll args' = Argument.unplacedAll args := by
  obtain ⟨args', hargs', heq⟩ := yields_arguments h.2 hnodup (fun _ _ => not_mem_nil)
  refine ⟨args', ?_, by rw [Argument.unplacedAll_eq_map, Argument.unplacedAll_eq_map, heq]⟩
  rw [firstArguments_cons h.1]
  exact hargs'.map

lemma natural_call {pos : Position} (hcall : ProperCall name args)
    (h : ∀ a ∈ args, Readable numeral a.value) : Natural numeral (.call pos name args) := by
  have hrender : (Expr.call pos name args).render numeral =
      name.toList ++ '(' :: (separated (args.map (Argument.render numeral)) ++ [')']) := by
    rw [← Argument.renderAll_eq_map]
    rfl
  refine natural_of_primary rfl (by rw [hrender]; exact (starts_name hcall.name).append _)
    fun k _ => ?_
  rw [hrender]
  have htakes : identifier.Takes name.toList
      ('(' :: (separated (args.map (Argument.render numeral)) ++ [')']) ++ k) :=
    takes_identifier_iff.mpr ⟨hcall.name, wordEnd_cons.mpr (by decide)⟩
  refine readsExpr_primary 4 rfl ?_ (.node rfl (reads_call hcall h (.sym ")")) ?_)
  · rw [append_assoc]
    exact refuses_literals htakes
  · rintro p ns ⟨t, t', _, rfl, ⟨hkind, rfl⟩, ht', rfl⟩
    obtain ⟨args', hargs', heq⟩ := yields_firstArguments [] hcall.nodup ht'
    refine ⟨.call p t.text args', ?_, by rw [Expr.unplaced, Expr.unplaced, heq]⟩
    change Yields (expr (.node "function_call" _ p [t, t'])) _
    rw [expr_functionCall, firstArguments_cons_of_ne (by rw [hkind]; decide)]
    exact (yields_name (child?_cons hkind)).bind (hargs'.bind (yields_pure _))

/-! ## All expressions -/

/-- An expression is read by the rule of its level if its parts are reread. -/
lemma Expr.natural (hproper : e.Proper fun x => Writes (numeral x) x)
    (h : ∀ p ∈ e.parts, Readable numeral p) : Natural numeral e := by
  have hreread : ∀ p ∈ e.parts, Reread numeral p := fun p hp => (h p hp).toReread
  cases e
  all_goals simp only [parts, forall_mem_cons] at h hreread
  case number => exact natural_number hproper
  case string => exact natural_string
  case bool => exact natural_bool
  case undefined => exact natural_undefined
  case var => exact natural_var hproper
  case vector => exact natural_vector hreread
  case call => exact natural_call hproper (forall_mem_map.mp h)
  case binary pos op left right =>
    by_cases hop : op = .pow
    · subst hop
      exact natural_pow hreread.1 hreread.2.1
    · exact natural_binary hop hreread.1 hreread.2.1
  case index => exact natural_index hreread.1 hreread.2.1
  case negate => exact natural_negate hreread.1
  case not => exact natural_not hreread.1
  case compare => exact natural_compare hreread.1 hreread.2.1
  case and => exact natural_and hreread.1 hreread.2.1
  case or => exact natural_or hreread.1 hreread.2.1
  case cond => exact natural_cond hreread.1 hreread.2.1 hreread.2.2.1
  case range => exact natural_range hreread.1 hreread.2.1
  case rangeBy => exact natural_rangeBy hreread.1 hreread.2.1 hreread.2.2.1

/-- The text of an expression does not look like a named argument if those of its parts do not. -/
lemma Expr.unnamed (hproper : e.Proper fun x => Writes (numeral x) x)
    (h : ∀ p ∈ e.parts, Readable numeral p) (hk : BehindName k) :
    Unnamed (e.render numeral ++ k) := by
  cases e
  all_goals simp only [parts, forall_mem_cons] at h
  case number pos x =>
    obtain ⟨c, s, hs, hc⟩ := numeral_head hproper.1
    change Unnamed ((numeral x).toList ++ k)
    rw [hs]
    exact unnamed_of_head hc
  case bool pos b =>
    cases b with
    | true => exact unnamed_of_reserved (s := "true") (by decide) hk.wordEnd
    | false => exact unnamed_of_reserved (s := "false") (by decide) hk.wordEnd
  case undefined => exact unnamed_of_reserved (s := "undef") (by decide) hk.wordEnd
  case var pos name =>
    exact unnamed_of_name (w := name.toList) (takes_identifier_iff.mpr ⟨hproper, hk.wordEnd⟩) hk
  case string | vector | range | rangeBy | negate | not => exact unnamed_of_head (by decide)
  case call pos name args =>
    have hopen : ∀ s, BehindName ('(' :: s) := fun s => behindName_cons rfl rfl (by decide)
    change Unnamed
      ((name.toList ++ '(' :: (separated (Argument.renderAll numeral args) ++ [')'])) ++ k)
    rw [append_assoc]
    exact unnamed_of_name (takes_identifier_iff.mpr ⟨hproper.name, (hopen _).wordEnd⟩) (hopen _)
  case index =>
    exact unnamed_operation (s := "[") h.1 rfl (by decide) (h.2.1.start_render.append [']']) k
  case binary pos op left right =>
    exact unnamed_operation h.1 rfl (by cases op <;> decide) (h.2.1.start _) k
  case compare pos op left right =>
    exact unnamed_operation h.1 rfl (by cases op <;> decide) (h.2.1.start _) k
  case and | or => exact unnamed_operation h.1 rfl (by decide) (h.2.1.start _) k
  case cond pos condition yes no =>
    exact unnamed_operation (s := "?") h.1 rfl (by decide)
      (h.2.1.start_render.append (':' :: no.render numeral)) k

/-- Every expression that can be written is reread. -/
theorem Expr.readable (h : e.Writable fun x => Writes (numeral x) x) : Readable numeral e := by
  induction e using Expr.induction with
  | h e ih =>
    have hparts : ∀ p ∈ e.parts, Readable numeral p := fun p hp => ih p hp (h.part p hp)
    exact ⟨(Expr.natural h.proper hparts).reread, fun k hk => Expr.unnamed h.proper hparts hk⟩

end SolidScript
