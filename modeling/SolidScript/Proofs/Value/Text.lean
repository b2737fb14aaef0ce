import SolidScript.Proofs.Decimal.Text
import SolidScript.Toml.Text

/-!
# Echoed values can be told apart
-/

namespace SolidScript

open List

/-- Two texts that each end before the first character outside of a class. -/
lemma append_inj_of_class {p : Char → Bool} {a b r s : List Char} (ha : ∀ c ∈ a, p c)
    (hb : ∀ c ∈ b, p c) (hr : ∀ c ∈ r.head?, ¬p c) (hs : ∀ c ∈ s.head?, ¬p c)
    (h : a ++ r = b ++ s) : a = b ∧ r = s := by
  have htake {r : List Char} (hr : ∀ c ∈ r.head?, ¬p c) : r.takeWhile p = [] := by
    cases r with
    | nil => rfl
    | cons c r => exact takeWhile_cons_of_neg (hr c rfl)
  have hab := congrArg (takeWhile p) h
  rw [takeWhile_append_of_pos ha, takeWhile_append_of_pos hb, htake hr, htake hs, append_nil,
    append_nil] at hab
  exact ⟨hab, append_cancel_left (hab ▸ h)⟩

/-! ## Quoted text -/

namespace Text

/-- The number that hexadecimal digits are read as. -/
def ofHex (cs : List Char) : ℕ := cs.foldl (fun n c => 16 * n + (Toml.digit? 16 c).getD 0) 0

lemma ofHex_toDigits (n : ℕ) :
    ofHex (Nat.toDigits 16 n) = n ∧ ∀ c ∈ Nat.toDigits 16 n, c ≠ '}' := by
  have hdigit : ∀ i < 16, (Toml.digit? 16 (Nat.digitChar i)).getD 0 = i ∧ Nat.digitChar i ≠
      '}' := by decide
  induction n using Nat.strong_induction_on with
  | h n ih =>
    rw [Nat.toDigits_eq_if (by decide)]
    split_ifs with hn
    · exact ⟨(Nat.zero_add _).trans (hdigit n hn).1, forall_mem_singleton.mpr (hdigit n hn).2⟩
    · obtain ⟨hvalue, hchars⟩ := ih (n / 16) (by omega)
      obtain ⟨hlast, hchar⟩ := hdigit _ (Nat.mod_lt n (by decide))
      refine ⟨?_, forall_mem_append.mpr ⟨hchars, forall_mem_singleton.mpr hchar⟩⟩
      rw [ofHex, foldl_append]
      show 16 * ofHex _ + _ = n
      rw [hvalue, hlast, Nat.div_add_mod]

/-- Characters with an escape of their own, and the letter that it has. -/
def shortEscapes : List (Char × Char) :=
  [('"', '"'), ('\\', '\\'), ('\n', 'n'), ('\r', 'r'), ('\t', 't'), ('\x00', '0')]

/-- A character is quoted in one of three ways. -/
lemma quoteChar_cases (c : Char) :
    (∃ x, (c, x) ∈ shortEscapes ∧ quoteChar c = ['\\', x]) ∨ quoteChar c = codePointEscape c ∨
    c ≠ '"' ∧ c ≠ '\\' ∧ quoteChar c = [c] := by
  unfold quoteChar
  split_ifs with hquote hback
  all_goals first
    | (subst c; exact .inl ⟨_, by decide, rfl⟩)
    | exact .inr (.inl rfl)
    | exact .inr (.inr ⟨hquote, hback, rfl⟩)

/-- A quoted character is known where it ends. -/
lemma quoteChar_append_inj {c d : Char} {r s : List Char}
    (h : quoteChar c ++ r = quoteChar d ++ s) : c = d ∧ r = s := by
  have hletter : ∀ p ∈ shortEscapes, p.2 ≠ 'u' ∧ ∀ q ∈ shortEscapes, p.2 = q.2 →
      p.1 = q.1 := by decide
  rcases quoteChar_cases c with ⟨x, hx, hc⟩ | hc | ⟨-, hback, hc⟩ <;>
    rcases quoteChar_cases d with ⟨y, hy, hd⟩ | hd | ⟨-, hback', hd⟩ <;>
    simp only [hc, hd, codePointEscape, cons_append, nil_append, append_assoc, cons.injEq,
      true_and] at h
  case inr.inl.inr.inl =>
    have hbrace (r : List Char) : ∀ x ∈ ('}' :: r).head?, ¬(x != '}') = true := by simp
    have hdigits (c : Char) : ∀ x ∈ Nat.toDigits 16 c.toNat, (x != '}') = true := by
      simpa using (ofHex_toDigits c.toNat).2
    obtain ⟨hcode, hrest⟩ := append_inj_of_class (hdigits c) (hdigits d) (hbrace r) (hbrace s) h
    have hnat := congrArg ofHex hcode
    rw [(ofHex_toDigits _).1, (ofHex_toDigits _).1] at hnat
    exact ⟨Char.toNat_inj.mp hnat, (cons.inj hrest).2⟩
  all_goals grind

/-- No quoted character starts like the end of the text. -/
lemma quoteChar_ne (c : Char) (r s : List Char) : '"' :: r ≠ quoteChar c ++ s := by
  rcases quoteChar_cases c with ⟨x, -, hc⟩ | hc | ⟨hquote, -, hc⟩ <;> rw [hc] <;> rintro ⟨⟩
  exact hquote rfl

lemma flatMap_quoteChar_inj {a b r s : List Char}
    (h : a.flatMap quoteChar ++ '"' :: r = b.flatMap quoteChar ++ '"' :: s) : a = b ∧ r = s := by
  induction a generalizing b with
  | nil => cases b <;> grind [quoteChar_ne]
  | cons c a ih => cases b <;> grind [quoteChar_ne, quoteChar_append_inj]

end Text

/-! ## Words -/

/-- The characters of words and numbers. -/
def isWordChar (c : Char) : Bool := c.isAlphanum || c = '-' || c = '.'

/-- All words have an `e` in them, and numbers do not. -/
lemma numberText_chars (x : Float) :
    (numberText x).toList ≠ [] ∧ (numberText x).toList.all isWordChar = true ∧
    'e' ∉ (numberText x).toList := by
  rcases Decimal.numberText_cases x with ⟨-, h⟩ | ⟨-, h⟩ | h
  · rw [h]
    decide
  · rw [h, Decimal.signText]
    split_ifs <;> decide
  · refine ⟨?_, all_eq_true.mpr fun c hc => ?_, fun he => absurd (h.shows.chars he) (by decide)⟩
    · obtain ⟨cs, y, htext, hcs, -⟩ := h.shows
      obtain ⟨c, hc, -⟩ := hcs.first
      rw [htext]
      exact append_ne_nil_of_right_ne_nil _ (by rintro rfl; cases hc)
    · rcases h.shows.chars hc with rfl | hc | rfl <;> simp [isWordChar, Char.isAlphanum, *]

namespace Value

/-- The same value up to the sign of zero, and what is not a number counts as equal to itself. -/
inductive Same : Value → Value → Prop where
  | undefined : Same undefined undefined
  | bool (b : Bool) : Same (bool b) (bool b)
  | number {x y : Float} (h : Decimal.Same x y) : Same (number x) (number y)
  | string (s : String) : Same (string s) (string s)
  | vector {us vs : List Value} (h : Forall₂ Same us vs) : Same (vector us) (vector vs)
  | range {r q : Range Float} (hstart : Decimal.Same r.start q.start)
    (hstep : Decimal.Same r.step q.step)
      (hstop : Decimal.Same r.stop q.stop) : Same (range r) (range q)

/-- The text of a value that is a word or a number. -/
def word? : Value → Option String
  | undefined => some "undef"
  | bool b => some (if b then "true" else "false")
  | number x => some (numberText x)
  | _ => none

variable {u v : Value} {w : String}

/-- Words consist of word characters. -/
lemma word?_spec (h : u.word? = some w) :
    u.repr = w ∧ w.toList ≠ [] ∧ w.toList.all isWordChar = true := by
  cases u with
  | undefined =>
    cases h
    exact ⟨rfl, by decide⟩
  | bool b =>
    cases h
    exact ⟨rfl, by cases b <;> decide⟩
  | number x =>
    cases h
    exact ⟨rfl, (numberText_chars x).1, (numberText_chars x).2.1⟩
  | _ => cases h

lemma same_of_word (hu : u.word? = some w) (hv : v.word? = some w) : Same u v := by
  have hne (x : Float) {w : String} (hw : 'e' ∈ w.toList) : some w ≠ some (numberText x) :=
    fun heq =>
    (numberText_chars x).2.2 (Option.some.inj heq ▸ hw)
  have hbool (b : Bool) : 'e' ∈ (if b then "true" else "false").toList := by cases b <;> decide
  rw [← hv] at hu
  cases u <;> cases v
  case number.number => exact .number (Decimal.numberText_inj (Option.some.inj hu))
  case bool.bool b b' =>
    obtain rfl : b = b' := by
      revert hu
      cases b <;> cases b' <;> decide
    exact .bool b
  case undefined.undefined => exact .undefined
  case undefined.bool b | bool.undefined b => exact absurd hu (by cases b <;> decide)
  case undefined.number x => exact absurd hu (hne x (by decide))
  case bool.number b x => exact absurd hu (hne x (hbool b))
  case number.undefined x => exact absurd hu.symm (hne x (by decide))
  case number.bool x b => exact absurd hu.symm (hne x (hbool b))
  all_goals simp [word?] at hu hv

/-! ## All values -/

/-- The further elements of a vector, each behind a comma, and the end of the vector. -/
def furtherText : List Value → List Char
  | [] => [']']
  | v :: vs => ',' :: ' ' :: (v.repr.toList ++ furtherText vs)

lemma head?_furtherText (vs : List Value) (r : List Char) :
    ∀ c ∈ (furtherText vs ++ r).head?, c ≠ ' ' ∧ ¬isWordChar c := by
  cases vs <;> simp [furtherText] <;> decide

lemma toList_repr_vector (v : Value) (vs : List Value) :
    (vector (v :: vs)).repr.toList = '[' :: (v.repr.toList ++ furtherText vs) := by
  induction vs generalizing v with
  | nil => simp [repr, reprAll, furtherText]
  | cons v' vs ih =>
    have hrest := ih v'
    simp only [repr, reprAll, String.toList_append, String.toList_intercalate, map_cons] at hrest ⊢
    simpa [intercalate_cons_cons, furtherText] using hrest

lemma toList_repr_range (q : Range Float) :
    (range q).repr.toList = '[' :: ((number q.start).repr.toList ++
    ' ' :: ':' :: ' ' :: ((number q.step).repr.toList ++
      ' ' :: ':' :: ' ' :: ((number q.stop).repr.toList ++ [']']))) := by
  simp [repr, Range.text]

lemma toList_repr_string (s : String) :
    (string s).repr.toList = '"' :: (s.toList.flatMap Text.quoteChar ++ ['"']) := by
  simp [repr, Text.quote]

/-- No word starts with any other character. -/
lemma cons_ne_word (hv : v.word? = some w) {c : Char} (hc : ¬isWordChar c) (r s : List Char) :
    c :: r ≠ v.repr.toList ++ s := by
  obtain ⟨htext, hne, hchars⟩ := word?_spec hv
  rw [htext]
  cases hw : w.toList with
  | nil => exact absurd hw hne
  | cons d t =>
    rintro ⟨⟩
    exact hc (all_eq_true.mp hchars c (hw ▸ mem_cons_self))

lemma opening (v : Value) :
    (∃ w, v.word? = some w) ∨ (∃ s, v = string s) ∨ ∃ t, v.repr.toList = '[' :: t := by
  cases v with
  | undefined => exact .inl ⟨_, rfl⟩
  | bool b => exact .inl ⟨_, rfl⟩
  | number x => exact .inl ⟨_, rfl⟩
  | string s => exact .inr (.inl ⟨s, rfl⟩)
  | vector vs =>
    cases vs with
    | nil => exact .inr (.inr ⟨[']'], rfl⟩)
    | cons v vs => exact .inr (.inr ⟨_, toList_repr_vector v vs⟩)
  | range q => exact .inr (.inr ⟨_, toList_repr_range q⟩)

/-- A value that can be read off a text that goes on with something else than a word. -/
def Readable (u : Value) : Prop :=
  ∀ ⦃v : Value⦄ ⦃r s : List Char⦄, (∀ c ∈ r.head?, ¬isWordChar c) → (∀ c ∈ s.head?, ¬isWordChar c) →
    u.repr.toList ++ r = v.repr.toList ++ s → Same u v ∧ r = s

/-- Words can be told apart. -/
lemma readable_word (hu : u.word? = some w) : Readable u := by
  intro v r s hr hs h
  have hbad {c : Char} {t : List Char} (hc : ¬isWordChar c) (ht : v.repr.toList = c :: t) : False :=
    cons_ne_word hu hc (t ++ s) r (by rw [h, ht, cons_append])
  rcases opening v with ⟨w', hv⟩ | ⟨a, rfl⟩ | ⟨t, ht⟩
  · obtain ⟨htext, -, hchars⟩ := word?_spec hu
    obtain ⟨htext', -, hchars'⟩ := word?_spec hv
    rw [htext, htext'] at h
    obtain ⟨hw, hrest⟩ :=
      append_inj_of_class (all_eq_true.mp hchars) (all_eq_true.mp hchars') hr hs h
    obtain rfl := String.toList_inj.mp hw
    exact ⟨same_of_word hu hv, hrest⟩
  · exact (hbad (by decide) (toList_repr_string a)).elim
  · exact (hbad (by decide) ht).elim

/-- So can strings. -/
lemma readable_string (a : String) : Readable (string a) := by
  intro v r s _ _ h
  rw [toList_repr_string, cons_append] at h
  rcases opening v with ⟨w, hv⟩ | ⟨b, rfl⟩ | ⟨t, ht⟩
  · exact absurd h (cons_ne_word hv (by decide) _ _)
  · simp only [toList_repr_string, cons_append, append_assoc, nil_append, cons.injEq, true_and] at h
    obtain ⟨hab, hrest⟩ := Text.flatMap_quoteChar_inj h
    exact ⟨String.toList_inj.mp hab ▸ .string a, hrest⟩
  · rw [ht] at h
    cases h

lemma closing_ne (v : Value) (r s : List Char) : ']' :: r ≠ v.repr.toList ++ s := by
  rcases opening v with ⟨w, hv⟩ | ⟨b, rfl⟩ | ⟨t, ht⟩
  · exact cons_ne_word hv (by decide) _ _
  · rw [toList_repr_string]
    rintro ⟨⟩
  · rw [ht]
    rintro ⟨⟩

lemma eq_of_bracket {r s : List Char} (h : '[' :: r = v.repr.toList ++ s) :
    (∃ vs, v = vector vs) ∨ ∃ q, v = range q := by
  cases v with
  | vector vs => exact .inl ⟨vs, rfl⟩
  | range q => exact .inr ⟨q, rfl⟩
  | string a =>
    rw [toList_repr_string] at h
    cases h
  | _ => exact absurd h (cons_ne_word rfl (by decide) _ _)

/-- A blank behind its first number tells a range from a vector. -/
lemma range_ne_vector (q : Range Float) (vs : List Value) (r s : List Char) :
    (range q).repr.toList ++ r ≠ (vector vs).repr.toList ++ s := by
  intro h
  rw [toList_repr_range, cons_append, append_assoc] at h
  cases vs with
  | nil => exact closing_ne _ _ _ (cons.inj h).2.symm
  | cons v vs =>
    simp only [toList_repr_vector, cons_append, append_assoc, cons.injEq, true_and] at h
    have hfurther := head?_furtherText vs s
    obtain ⟨-, hrest⟩ := readable_word rfl (by simp; decide) (fun c hc => (hfurther c hc).2) h
    rw [← hrest] at hfurther
    exact (hfurther ' ' rfl).1 rfl

/-- A number can be told from what stands behind it. -/
lemma number_inj {x y : Float} {c : Char} {r s : List Char} (hc : ¬isWordChar c)
    (h : (number x).repr.toList ++ c :: r = (number y).repr.toList ++ c :: s) :
    Decimal.Same x y ∧ r = s := by
  have hhead (r : List Char) : ∀ d ∈ (c :: r).head?, ¬isWordChar d := by simpa using hc
  obtain ⟨⟨⟩, hrest⟩ := readable_word rfl (hhead r) (hhead s) h
  exact ⟨‹_›, (cons.inj hrest).2⟩

lemma readable_range (p : Range Float) : Readable (range p) := by
  intro v r s _ _ h
  obtain ⟨vs, rfl⟩ | ⟨q, rfl⟩ := eq_of_bracket (by rw [← h, toList_repr_range, cons_append])
  · exact absurd h (range_ne_vector p vs r s)
  · simp only [toList_repr_range, cons_append, append_assoc, nil_append, cons.injEq, true_and] at h
    obtain ⟨hstart, h⟩ := number_inj (by decide) h
    simp only [cons.injEq, true_and] at h
    obtain ⟨hstep, h⟩ := number_inj (by decide) h
    simp only [cons.injEq, true_and] at h
    obtain ⟨hstop, h⟩ := number_inj (by decide) h
    exact ⟨.range hstart hstep hstop, h⟩

lemma same_of_elements {v v' : Value} {us vs : List Value} {r s : List Char} (hv : Readable v)
    (hus : ∀ u ∈ us, Readable u)
    (h : v.repr.toList ++ (furtherText us ++ r) = v'.repr.toList ++ (furtherText vs ++ s)) :
    Forall₂ Same (v :: us) (v' :: vs) ∧ r = s := by
  have hhead (us : List Value) (r : List Char) := fun c hc => (head?_furtherText us r c hc).2
  obtain ⟨hsame, hrest⟩ := hv (hhead us r) (hhead vs s) h
  induction us generalizing v v' vs with
  | nil =>
    cases vs with
    | nil => exact ⟨.cons hsame .nil, (cons.inj hrest).2⟩
    | cons v vs => cases hrest
  | cons u us ih =>
    cases vs with
    | nil => cases hrest
    | cons w vs =>
      simp only [furtherText, cons_append, append_assoc, cons.injEq, true_and] at hrest
      obtain ⟨hu, hus⟩ := forall_mem_cons.mp hus
      obtain ⟨hsame', hrest'⟩ := hu (hhead us r) (hhead vs s) hrest
      obtain ⟨htail, hrs⟩ := ih hu hus hrest hsame' hrest'
      exact ⟨.cons hsame htail, hrs⟩

lemma readable_vector {us : List Value} (hus : ∀ u ∈ us, Readable u) : Readable (vector us) := by
  intro v r s _ _ h
  obtain ⟨t, ht⟩ : ∃ t, (vector us).repr.toList = '[' :: t := by
    cases us with
    | nil => exact ⟨[']'], rfl⟩
    | cons u us => exact ⟨_, toList_repr_vector u us⟩
  obtain ⟨vs, rfl⟩ | ⟨q, rfl⟩ := eq_of_bracket (by rw [← h, ht, cons_append])
  · cases us with
    | nil =>
      cases vs with
      | nil => exact ⟨.vector .nil, append_cancel_left h⟩
      | cons v vs =>
        rw [toList_repr_vector, cons_append, append_assoc] at h
        exact absurd (cons.inj h).2 (closing_ne v r _)
    | cons u us =>
      obtain ⟨hu, hus⟩ := forall_mem_cons.mp hus
      rw [toList_repr_vector, cons_append, append_assoc] at h
      cases vs with
      | nil => exact absurd (cons.inj h).2.symm (closing_ne u s _)
      | cons v vs =>
        rw [toList_repr_vector, cons_append, append_assoc v.repr.toList] at h
        obtain ⟨hsame, hrest⟩ := same_of_elements hu hus (cons.inj h).2
        exact ⟨.vector hsame, hrest⟩
  · exact absurd h.symm (range_ne_vector q us s r)

mutual

lemma readable : ∀ u : Value, Readable u
  | undefined => readable_word rfl
  | bool _ => readable_word rfl
  | number _ => readable_word rfl
  | string a => readable_string a
  | vector us => readable_vector (readableAll us)
  | range q => readable_range q

lemma readableAll : ∀ us : List Value, ∀ u ∈ us, Readable u
  | [] => forall_mem_nil _
  | u :: us => forall_mem_cons.mpr ⟨readable u, readableAll us⟩

end

/-- Values that are echoed as the same text are the same. -/
theorem same_of_repr_eq (h : u.repr = v.repr) : Same u v :=
  (readable u (by simp) (by simp) (congrArg (·.toList ++ []) h)).1

theorem same_of_repr_eq_signs :
    Same (vector [number 0, number (0 / 0), string "\"]", range ⟨0, 0.5, 2⟩])
    (vector [number (-0), number (-(0 / 0)), string "\"]", range ⟨-0, 0.5, 2⟩]) :=
  have hzero : numberText (-0) = numberText 0 := by decide +kernel
  have hnan : numberText (-(0 / 0)) = numberText (0 / 0) := by decide +kernel
  same_of_repr_eq (by simp only [repr, reprAll, Range.text, hzero, hnan])

end Value

end SolidScript
