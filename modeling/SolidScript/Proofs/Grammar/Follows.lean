import Mathlib.Data.List.Forall2
import SolidScript.Proofs.Grammar.Reads

/-!
# What may stand behind an expression

A text that stands behind an expression at the place of a rule must not go on with it.
-/

namespace SolidScript.Grammar

open Words Pattern Rules List

/-! ## Texts behind expressions -/

/-- The characters with which an expression of a rule can go on. -/
def continuations : List (Name × List Char) :=
  [(.primary, ['.', '(']), (.postfixed, ['[']), (.power, ['^']), (.multiplicative, ['*', '/', '%']),
    (.additive, ['+', '-']), (.comparison, ['<', '>']), (.equality, ['=', '!']), (.logicAnd, ['&']),
    (.logicOr, ['|']), (.ternary, ['?'])]

/-- The character continues an expression at the place of a rule. -/
def continues (r : Name) (c : Char) : Bool :=
  isWordChar c || continuations.any fun (rule, cs) => rule.rank ≤ r.rank && cs.contains c

/-- The text may stand behind an expression at the place of a rule. -/
structure Follows (r : Name) (k : List Char) : Prop where
  clear : Clear k
  head : ∀ c ∈ k.head?, continues r c = false

/-- What continues a rule continues those of higher rank. -/
lemma continues_mono {r q : Name} (h : q.rank ≤ r.rank) {c : Char} (hc : continues q c = true) :
    continues r c = true := by
  unfold continues at hc ⊢
  rw [Bool.or_eq_true_iff, any_eq_true] at hc ⊢
  refine hc.imp_right fun ⟨entry, hentry, hc⟩ => ⟨entry, hentry, ?_⟩
  obtain ⟨hrank, hc⟩ := Bool.and_eq_true_iff.mp hc
  exact Bool.and_eq_true_iff.mpr ⟨decide_eq_true ((of_decide_eq_true hrank).trans h), hc⟩

lemma follows_cons {r : Name} {c : Char} {s : List Char} (hplain : isPlain c = true)
    (h : continues r c = false) : Follows r (c :: s) :=
  ⟨clear_cons hplain, by rintro d ⟨⟩; exact h⟩

namespace Follows

variable {r q : Name} {k : List Char} {j : Bool}

/-- A tighter expression goes on with fewer characters. -/
lemma mono (h : Follows r k) (hrank : q.rank ≤ r.rank) : Follows q k := by
  refine ⟨h.clear, fun c hc => Bool.eq_false_iff.mpr fun hcontinues => ?_⟩
  have hfalse := h.head c hc
  rw [continues_mono hrank hcontinues] at hfalse
  exact Bool.noConfusion hfalse

lemma congr (h : Follows r k) (hcontinues : continues q = continues r) : Follows q k :=
  ⟨h.clear, by rw [hcontinues]; exact h.head⟩

/-- A character that continues the rule does not follow it. -/
lemma ne (h : Follows r k) {c : Char} (hc : continues r c = true) : ∀ d ∈ k.head?, d ≠ c := by
  rintro d hd rfl
  rw [h.head d hd] at hc
  exact Bool.noConfusion hc

/-- A word may end here. -/
lemma wordEnd (h : Follows r k) : WordEnd k := by
  intro d hd
  refine Bool.eq_false_iff.mpr fun hword => h.ne ?_ d hd rfl
  rw [continues, hword, Bool.true_or]

/-- So may a number. -/
lemma numberEnd (h : Follows r k) (hr : Name.primary.rank ≤ r.rank) : NumberEnd k := by
  have hword := h.wordEnd
  refine fun d hd =>
    ⟨Bool.eq_false_iff.mpr fun hdigit => ?_, h.ne (continues_mono hr (by decide)) d hd, ?_, ?_⟩
  · have hfalse := hword d hd
    simp [isWordChar, Char.isAlphanum, hdigit] at hfalse
  · rintro rfl
    exact absurd (hword _ hd) (by decide)
  · rintro rfl
    exact absurd (hword _ hd) (by decide)

end Follows

/-! ## Symbols -/

section

variable {j : Bool} {k : List Char}

variable {s : String}

/-- A symbol is refused where another character is. -/
lemma refuses_sym {c : Char} (hs : s.toList.head? = some c)
    (h : ∀ d ∈ k.head?, d ≠ c) : Refuses j (sym s) k := by
  obtain ⟨cs, hcs⟩ : ∃ cs, s.toList = c :: cs := by
    cases hlist : s.toList with
    | nil => rw [hlist] at hs; nomatch hs
    | cons x cs => rw [hlist] at hs; cases hs; exact ⟨cs, rfl⟩
  refine .token ?_
  rw [Pattern.text, hcs, take_literal]
  cases k with
  | nil => rfl
  | cons d k =>
    have hcd : c ≠ d := fun hcd => h d rfl hcd.symm
    rw [takeLiteral, if_neg hcd]

/-- None of several symbols stands where their first characters do not. -/
lemma refuses_symbols {p : Char → Bool} {symbols : List String} (hk : ∀ d ∈ k.head?, p d = false)
    (hsymbols : ∀ s ∈ symbols, s.toList.head?.any p = true) :
    Refuses j (Peg.oneOf (symbols.map sym)) k := by
  refine .oneOf (forall_mem_map.mpr fun s hs => ?_)
  have hany := hsymbols s hs
  cases hc : s.toList.head? with
  | none =>
    rw [hc] at hany
    exact Bool.noConfusion hany
  | some c =>
    refine refuses_sym hc ?_
    rintro d hd rfl
    rw [hc, Option.any_some, hk d hd] at hany
    exact Bool.noConfusion hany

/-- A text that starts with `s` does not start with `s'`, unless an equals sign stands behind
`s`. -/
def differs (s' s : String) : Bool :=
  s'.toList = s.toList ++ ['='] ||
    match s'.toList, s.toList with
    | c' :: _, c :: _ => c' ≠ c
    | _, _ => false

lemma refuses_sym_of_differs {s' : String} (h : differs s' s = true)
    (hk : ∀ d ∈ k.head?, d ≠ '=') : Refuses j (sym s') (s.toList ++ k) := by
  rcases Bool.or_eq_true_iff.mp h with h | h
  · -- `s'` is `s` with an equals sign, which does not follow
    refine .token ?_
    cases htake : (text s').take (s.toList ++ k) with
    | none => rfl
    | some t =>
      obtain ⟨w, hw, -, htakes⟩ := takes_of_take htake
      rw [takes_literal.mp htakes, of_decide_eq_true h, append_assoc, append_cancel_left_eq] at hw
      exact absurd rfl (hk '=' (by rw [hw]; rfl))
  · split at h
    · rename_i c' cs' c cs hs' hs
      refine refuses_sym (c := c') (by rw [hs']; rfl) fun d hd => ?_
      rw [hs] at hd
      cases hd
      exact (of_decide_eq_true h).symm
    · exact Bool.noConfusion h

/-- A symbol is found where the ones before it do not match. -/
lemma reads_symbols (n : Nat) {symbols : List String} (hs : symbols[n]? = some s)
    (hbefore : ∀ s' ∈ symbols.take n, differs s' s = true)
    (hk : ∀ d ∈ k.head?, d ≠ '=') : Reads j (Peg.oneOf (symbols.map sym)) s.toList k (· = []) := by
  refine .oneOf n (by rw [getElem?_map, hs]; rfl) ?_ (.sym s)
  rw [← map_take]
  exact forall_mem_map.mpr fun s' hs' => refuses_sym_of_differs (hbefore s' hs') hk

/-! ## Words -/

lemma reads_identifier {name : String} (h : IsName name) (hk : WordEnd k) :
    Reads j (.rule .identifier) name.toList k (One fun t => t.kind = "ident" ∧ t.text = name) := by
  refine .node rfl (.token (takes_identifier_iff.mpr ⟨h, hk⟩)) fun pos ns _ => ⟨rfl, ?_⟩
  exact String.ofList_toList

lemma reads_keyword {r : Name} (hr : programs.rules r = keyword s)
    (hk : WordEnd k) : Reads j (.rule r) s.toList k (· = []) := by
  have hform : (programs.rules r).form = .mark := by rw [hr]; rfl
  refine .mark (Q := (· = [])) hform ?_
  rw [hr]
  exact .token (takes_word hk)

lemma refuses_keyword {r : Name} (hr : programs.rules r = keyword s)
    (h : (word s).take k = none) : Refuses j (.rule r) k := by
  refine .rule ?_
  rw [hr]
  exact .token h

/-! ## Lists -/

/-- The text starts with a character that begins neither blanks nor a comment. -/
def PlainStart (s : List Char) : Prop := ∃ c t, s = c :: t ∧ isPlain c = true

lemma PlainStart.clear {s : List Char} (h : PlainStart s) : Clear (s ++ k) := by
  obtain ⟨c, t, rfl, hc⟩ := h
  exact clear_cons hc

/-- A keyword with more right behind it. -/
lemma reads_keyword_seq {r : Name} (hr : programs.rules r = keyword s) {b : Peg Name}
    {v : List Char} {Q : List Tree → Prop} (hword : WordEnd (v ++ k)) (hclear : Clear (v ++ k))
    (hb : Reads j b v k Q) : Reads j (.seq (.rule r) b) (s.toList ++ v) k Q :=
  .seq (reads_keyword hr hword) (gap_nil hclear) hb fun _ _ hxs hys => by rw [hxs]; exact hys

lemma reads_keyword_blank {r : Name} (hr : programs.rules r = keyword s) {b : Peg Name}
    {v : List Char} {Q : List Tree → Prop} (hv : PlainStart v) (hb : Reads false b v k Q) :
    Reads false (.seq (.rule r) b) (s.toList ++ ' ' :: v) k Q := by
  have hgap : Gap false [' '] (v ++ k) := by
    obtain ⟨c, t, rfl, hc⟩ := hv
    exact takes_blank_cons (forall_mem_singleton.mpr rfl) hc
  refine .seq_gap (w := [' ']) (reads_keyword hr (wordEnd_cons.mpr (by decide))) hgap hb
    fun xs ys hxs hys => ?_
  rw [hxs]
  exact hys

/-- An item of a list that ends with a character: it is read in front of a comma and of the end. -/
structure ReadsItem (j : Bool) (r : Name) (c : Char) (u : List Char) (A : Tree → Prop) : Prop where
  start : PlainStart u
  reads : ∀ d k, d = ',' ∨ d = c → Reads j (.rule r) u (d :: k) (One A)

variable {r : Name} {α : Type} {text : α → List Char} {A : α → Tree → Prop} {c : Char}

/-- The text of further items, each behind a comma. -/
def further (text : α → List Char) (items : List α) : List Char := items.flatMap fun x =>
    ',' :: text x

/-- What stands behind an item is a comma or the end. -/
lemma exists_further_append (text : α → List Char) (items : List α) (c : Char) (k : List Char) :
    ∃ d s, further text items ++ c :: k = d :: s ∧ (d = ',' ∨ d = c) := by
  cases items with
  | nil => exact ⟨c, k, rfl, .inr rfl⟩
  | cons x items => exact ⟨',', _, rfl, .inl rfl⟩

variable {items : List α}

lemma clear_further (hc : isPlain c = true) : Clear (further text items ++ c :: k) := by
  obtain ⟨d, s, hs, hd⟩ := exists_further_append text items c k
  rw [hs]
  refine clear_cons ?_
  rcases hd with rfl | rfl
  · decide
  · exact hc

lemma ReadsItem.reads_further {x : α} (h : ReadsItem j r c (text x) (A x)) :
    Reads j (.rule r) (text x) (further text items ++ c :: k) (One (A x)) := by
  obtain ⟨d, s, hs, hd⟩ := exists_further_append text items c k
  rw [hs]
  exact h.reads d s hd

/-- Items with commas in front of them. -/
lemma reads_further (hplain : isPlain c = true) (hc : c ≠ ',')
    (h : ∀ x ∈ items, ReadsItem j r c (text x) (A x)) :
    Reads j (.star (.seq (sym ",") (.rule r))) (further text items) (c :: k) (Forall₂ A items) := by
  have hcomma : Refuses j (sym ",") (c :: k) :=
    refuses_sym (c := ',') rfl (by rintro d ⟨⟩; exact hc)
  induction items with
  | nil => exact (Reads.star_nil (.seq hcomma)).imp fun ns hns => hns ▸ .nil
  | cons x items ih =>
    obtain ⟨hx, hitems⟩ := forall_mem_cons.mp h
    have hone : Reads j (.seq (sym ",") (.rule r)) (',' :: text x) (further text items ++ c :: k)
        (One (A x)) :=
      .sym_seq "," (gap_nil hx.start.clear) hx.reads_further
    refine Reads.star_append (n := 0) rfl hone (gap_nil (clear_further hplain)) (ih hitems)
      fun xs ys hxs hys => ?_
    obtain ⟨t, rfl, ht⟩ := hxs
    exact .cons ht hys

lemma reads_commaList_cons (hplain : isPlain c = true) (hc : c ≠ ',') {x : α}
    (h : ∀ y ∈ x :: items, ReadsItem j r c (text y) (A y)) :
    Reads j (commaList r) (text x ++ further text items) (c :: k) (Forall₂ A (x :: items)) := by
  obtain ⟨hx, hitems⟩ := forall_mem_cons.mp h
  have hcomma : Refuses j (sym ",") (c :: k) :=
    refuses_sym (c := ',') rfl (by rintro d ⟨⟩; exact hc)
  have hrest : Reads j (.seq (.star (.seq (sym ",") (.rule r))) (.opt (sym ",")))
    (further text items)
      (c :: k) (Forall₂ A items) :=
    (reads_further hplain hc hitems).seq_opt_nil (gap_nil (clear_cons hplain)) hcomma
  refine .opt (.seq hx.reads_further (gap_nil (clear_further hplain)) hrest fun xs ys hxs hys => ?_)
  obtain ⟨t, rfl, ht⟩ := hxs
  exact .cons ht hys

lemma reads_commaList_nil (hr : Refuses j (.rule r) k) :
    Reads j (commaList r) [] k (Forall₂ A []) :=
  (Reads.opt_nil (.seq hr)).imp fun _ hns => hns ▸ .nil

end

end SolidScript.Grammar
