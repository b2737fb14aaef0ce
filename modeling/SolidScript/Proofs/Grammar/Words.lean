import SolidScript.Grammar.Rules
import SolidScript.Decimal.Reading
import SolidScript.Proofs.Grammar.Pattern

/-!
# Words

Which texts are names, numerals and blanks, and what may stand behind them.
-/

namespace SolidScript.Grammar.Words

open Pattern Decimal List

/-! ## Names -/

/-- A character that continues a word. -/
def isWordChar (c : Char) : Bool := c.isAlphanum || c = '_'

def isNameStart (c : Char) : Bool := c = '$' || c = '_' || c.isAlpha

/-- No word goes on here. -/
def WordEnd (k : List Char) : Prop := ∀ d ∈ k.head?, isWordChar d = false

lemma wordEnd_nil : WordEnd [] := fun _ hd => nomatch hd

variable {c d : Char} {k w s x m : List Char}

lemma wordEnd_cons : WordEnd (c :: k) ↔ isWordChar c = false := by simp [WordEnd]

lemma take_wordChar_eq_none : wordChar.take k = none ↔ WordEnd k := take_char_eq_none

/-- What is taken ends where no word goes on. -/
lemma takes_ended {p : Pattern} (h : p.Takes w k) (hk : WordEnd k) :
    (seq p (absent wordChar)).Takes w k :=
  takes_seq.mpr ⟨w, [], (append_nil w).symm, h,
    takes_absent.mpr ⟨rfl, take_wordChar_eq_none.mpr hk⟩⟩

lemma takes_word {s : String} (hk : WordEnd k) : (word s).Takes s.toList k :=
  takes_ended (takes_literal.mpr rfl) hk

/-- The words that are not names. -/
def reservedWords : List String :=
  ["module", "function", "if", "else", "for", "true", "false", "undef"]

lemma reserved_eq : reserved = .seq (oneOf (reservedWords.map .text)) (.absent wordChar) := rfl

/-- Behind a word, other characters do not matter. -/
lemma ignores_text {s : String} (hs : ∀ c ∈ s.toList, isWordChar c = true)
    (hd : isWordChar d = false) : (text s).ignores d := by
  intro hmem
  rw [hs d hmem] at hd
  exact Bool.noConfusion hd

lemma ignores_oneOf {ss : List String} (hs : ∀ s ∈ ss, ∀ c ∈ s.toList, isWordChar c = true)
    (hd : isWordChar d = false) : (oneOf (ss.map .text)).ignores d := by
  induction ss with
  | nil => rfl
  | cons s ss ih =>
    obtain ⟨hword, hwords⟩ := forall_mem_cons.mp hs
    cases ss with
    | nil => exact ignores_text hword hd
    | cons t ss => exact ⟨ignores_text hword hd, ih hwords⟩

lemma ignores_reserved (hd : isWordChar d = false) : reserved.ignores d := by
  have hwords : reservedWords.all (fun s => s.toList.all isWordChar) = true := by decide
  rw [reserved_eq]
  exact ⟨ignores_oneOf (fun s hs => all_eq_true.mp (all_eq_true.mp hwords s hs)) hd, hd⟩

/-- A name is a first character with further ones behind it, is not reserved, and ends where no word
goes on. -/
lemma takes_identifier : identifier.Takes w k ↔
    reserved.take w = none ∧ (∃ c v, w = c :: v ∧ isNameStart c ∧ ∀ x ∈ v, isWordChar x) ∧
      WordEnd k := by
  have hignores (hk : WordEnd k) : ∀ d ∈ k.head?, reserved.ignores d :=
    fun d hd => ignores_reserved (hk d hd)
  constructor
  · intro h
    obtain ⟨u, v, rfl, hu, hv⟩ := takes_seq.mp h
    obtain ⟨u', v', rfl, hu', hv'⟩ := takes_seq.mp hv
    obtain ⟨rfl, hreserved⟩ := takes_absent.mp hu
    obtain ⟨c, rfl, hc⟩ := takes_char.mp hu'
    obtain ⟨hword, hk⟩ := takes_star_char.mp hv'
    refine ⟨(take_append_eq_none (hignores hk)).mp hreserved, ⟨c, v', rfl, hc, hword⟩, hk⟩
  · rintro ⟨hreserved, ⟨c, v, rfl, hc, hword⟩, hk⟩
    refine takes_seq.mpr ⟨[], c :: v, rfl, ?_, ?_⟩
    · exact takes_absent.mpr ⟨rfl, (take_append_eq_none (hignores hk)).mpr hreserved⟩
    · exact takes_seq.mpr ⟨[c], v, rfl, takes_char.mpr ⟨c, rfl, hc⟩,
        takes_star_char.mpr ⟨hword, hk⟩⟩

/-- A name ends where no word goes on. -/
lemma takes_identifier_iff : identifier.Takes w k ↔ identifier.Takes w [] ∧ WordEnd k := by
  rw [takes_identifier, takes_identifier]
  exact ⟨fun ⟨hr, hw, hk⟩ => ⟨⟨hr, hw, wordEnd_nil⟩, hk⟩, fun ⟨⟨hr, hw, _⟩, hk⟩ => ⟨hr, hw, hk⟩⟩

/-- A text that is taken as a name, as a whole. -/
def IsName (s : String) : Prop := identifier.Takes s.toList []

lemma head_of_name (hw : identifier.Takes w k) : ∀ d ∈ (w ++ k).head?, isNameStart d = true := by
  obtain ⟨-, ⟨c, s, rfl, hc, -⟩, -⟩ := takes_identifier.mp hw
  rintro d ⟨⟩
  exact hc

/-- A name starts with no other character. -/
lemma head_ne_of_name (hw : identifier.Takes w k) {x : Char}
    (hx : isNameStart x = false) : ∀ d ∈ (w ++ k).head?, d ≠ x := by
  rintro d hd rfl
  rw [head_of_name hw d hd] at hx
  exact Bool.noConfusion hx

/-- Reserved words are taken as such. -/
lemma reserved_takes {s : String} (hs : s ∈ reservedWords) (hk : WordEnd k) :
    reserved.Takes s.toList k := by
  have hword : (oneOf (reservedWords.map .text)).Takes s.toList k := by
    simp only [reservedWords, mem_cons, not_mem_nil, or_false] at hs
    rcases hs with rfl | rfl | rfl | rfl | rfl | rfl | rfl | rfl <;> rfl
  rw [reserved_eq]
  exact takes_ended hword hk

/-- A reserved word does not match a name. -/
lemma take_word_of_name {s : String} (hs : s ∈ reservedWords)
    (hw : identifier.Takes w k) : (word s).take (w ++ k) = none := by
  obtain ⟨hreserved, -, hk⟩ := takes_identifier.mp hw
  cases htake : (word s).take (w ++ k) with
  | none => rfl
  | some t =>
    obtain ⟨n, r⟩ := t
    obtain ⟨u, hu, -, htakes⟩ := takes_of_take htake
    obtain ⟨v, v', rfl, hv, hv'⟩ := takes_seq.mp htakes
    obtain ⟨rfl, hr⟩ := takes_absent.mp hv'
    rw [takes_literal.mp hv, append_nil] at hu
    -- the name would begin with the word, and so be reserved
    have hnone := (take_append_eq_none fun d hd => ignores_reserved (hk d hd)).mpr hreserved
    rw [hu, reserved_takes hs (take_wordChar_eq_none.mp hr)] at hnone
    nomatch hnone

/-! ## Numerals -/

def AllDigits (ds : List Char) : Prop := ∀ c ∈ ds, c.isDigit = true

/-- Digits with an optional point, or a point with digits behind it. -/
inductive IsMantissa : List Char → Prop where
  | whole {ds : List Char} (hne : ds ≠ []) (hds : AllDigits ds) : IsMantissa ds
  | point {ds fs : List Char} (hne : ds ≠ []) (hds : AllDigits ds) (hfs : AllDigits fs) :
    IsMantissa (ds ++ '.' :: fs)
  | fraction {fs : List Char} (hne : fs ≠ []) (hfs : AllDigits fs) : IsMantissa ('.' :: fs)

inductive IsExponent : List Char → Prop where
  | absent : IsExponent []
  | present {e : Char} {sign ds : List Char} (he : e = 'e' ∨ e = 'E')
    (hsign : sign = [] ∨ sign = ['+'] ∨ sign = ['-'])
      (hne : ds ≠ []) (hds : AllDigits ds) : IsExponent (e :: (sign ++ ds))

lemma takes_digits :
    digit.plus.Takes w k ↔ w ≠ [] ∧ AllDigits w ∧ ∀ d ∈ k.head?, d.isDigit = false := by
  constructor
  · intro h
    obtain ⟨u, v, rfl, hu, hv⟩ := takes_seq.mp h
    obtain ⟨c, rfl, hc⟩ := takes_char.mp hu
    obtain ⟨hdigits, hk⟩ := takes_star_char.mp hv
    exact ⟨cons_ne_nil c v, forall_mem_cons.mpr ⟨hc, hdigits⟩, hk⟩
  · rintro ⟨hne, hw, hk⟩
    cases w with
    | nil => exact absurd rfl hne
    | cons c v =>
      obtain ⟨hc, hv⟩ := forall_mem_cons.mp hw
      exact takes_seq.mpr ⟨[c], v, rfl, takes_char.mpr ⟨c, rfl, hc⟩, takes_star_char.mpr ⟨hv, hk⟩⟩

lemma take_digits_eq_none (h : ∀ d ∈ s.head?, d.isDigit = false) : digit.plus.take s = none :=
  take_seq_eq_none.mpr (.inl (take_char_eq_none.mpr h))

lemma take_text_eq_none (h : ∀ d ∈ s.head?, d ≠ c) : (literal [c]).take s = none := by
  cases s with
  | nil => rfl
  | cons d s =>
    have hcd : c ≠ d := fun hcd => h d rfl hcd.symm
    simp [take_literal, takeLiteral, hcd]

/-- What is taken as a number has the form of one. -/
lemma numeral_of_takes (h : number.Takes w k) :
    ∃ m x, w = m ++ x ∧ IsMantissa m ∧ IsExponent x := by
  obtain ⟨m, x, rfl, hm, hx⟩ := takes_seq.mp h
  refine ⟨m, x, rfl, ?_, ?_⟩
  · rcases takes_alt.mp hm with hm | ⟨-, hm⟩
    · obtain ⟨ds, fs, rfl, hds, hfs⟩ := takes_seq.mp hm
      obtain ⟨hne, hdigits, -⟩ := takes_digits.mp hds
      rcases takes_opt.mp hfs with hfs | ⟨-, rfl⟩
      · obtain ⟨p, fs, rfl, hp, hfs⟩ := takes_seq.mp hfs
        rw [takes_literal.mp hp]
        exact .point hne hdigits (takes_star_char.mp hfs).1
      · rw [append_nil]
        exact .whole hne hdigits
    · obtain ⟨p, fs, rfl, hp, hfs⟩ := takes_seq.mp hm
      obtain ⟨hne, hdigits, -⟩ := takes_digits.mp hfs
      rw [takes_literal.mp hp]
      exact .fraction hne hdigits
  · rcases takes_opt.mp hx with hx | ⟨-, rfl⟩
    · obtain ⟨e, y, rfl, he, hy⟩ := takes_seq.mp hx
      obtain ⟨sign, ds, rfl, hsign, hds⟩ := takes_seq.mp hy
      obtain ⟨c, rfl, hc⟩ := takes_char.mp he
      obtain ⟨hne, hdigits, -⟩ := takes_digits.mp hds
      have hsigns : sign = [] ∨ sign = ['+'] ∨ sign = ['-'] := by
        rcases takes_opt.mp hsign with hsign | ⟨-, hnil⟩
        · rcases takes_alt.mp hsign with hsign | ⟨-, hsign⟩
          · exact .inr (.inl (takes_literal.mp hsign))
          · exact .inr (.inr (takes_literal.mp hsign))
        · exact .inl hnil
      exact @IsExponent.present c sign ds (by simpa using hc) hsigns hne hdigits
    · exact .absent

/-- No number goes on here. -/
def NumberEnd (k : List Char) : Prop := ∀ d ∈ k.head?, d.isDigit = false ∧ d ≠ '.' ∧
    d ≠ 'e' ∧ d ≠ 'E'

lemma IsExponent.head (hx : IsExponent x) (hk : NumberEnd k) :
    ∀ d ∈ (x ++ k).head?, d.isDigit = false ∧ d ≠ '.' := by
  cases hx with
  | absent => exact fun d hd => ⟨(hk d hd).1, (hk d hd).2.1⟩
  | present he hsign hne hds =>
    rintro d ⟨⟩
    rcases he with rfl | rfl <;> decide

lemma takes_exponent (hx : IsExponent x) (hk : NumberEnd k) :
    (opt (inOrder [.char (fun c => c = 'e' || c = 'E'), .opt (.alt (.text "+") (.text "-")),
      digit.plus])).Takes x k := by
  cases hx with
  | absent =>
    refine takes_opt.mpr
      (.inr ⟨take_seq_eq_none.mpr (.inl (take_char_eq_none.mpr fun d hd => ?_)), rfl⟩)
    simp [(hk d hd).2.2]
  | @present e sign ds he hsign hne hds =>
    have hdigits : digit.plus.Takes ds k := takes_digits.mpr ⟨hne, hds, fun d hd => (hk d hd).1⟩
    refine takes_opt.mpr
      (.inl (takes_seq.mpr ⟨[e], sign ++ ds, rfl, takes_char.mpr ⟨e, rfl, by simpa using he⟩, ?_⟩))
    refine takes_seq.mpr ⟨sign, ds, rfl, ?_, hdigits⟩
    rcases hsign with rfl | rfl | rfl
    · -- a digit is no sign
      obtain ⟨c, ds, rfl⟩ := exists_cons_of_ne_nil hne
      have hc : c.isDigit = true := hds c mem_cons_self
      refine takes_opt.mpr (.inr ⟨take_alt_eq_none.mpr ⟨?_, ?_⟩, rfl⟩)
      · exact take_text_eq_none (c := '+') fun d hd hplus => by
          cases hd; subst hplus; exact absurd hc (by decide)
      · exact take_text_eq_none (c := '-') fun d hd hminus => by
          cases hd; subst hminus; exact absurd hc (by decide)
    · exact takes_opt.mpr (.inl (takes_alt.mpr (.inl (takes_literal.mpr rfl))))
    · exact takes_opt.mpr (.inl (takes_alt.mpr (.inr ⟨rfl, takes_literal.mpr rfl⟩)))

/-- A numeral ends where neither digits, nor a point, nor an exponent follow. -/
lemma takes_number (hm : IsMantissa m) (hx : IsExponent x) (hk : NumberEnd k) :
    number.Takes (m ++ x) k := by
  have hhead := hx.head hk
  refine takes_seq.mpr ⟨m, x, rfl, takes_alt.mpr ?_, takes_exponent hx hk⟩
  cases hm with
  | whole hne hds =>
    refine .inl (takes_seq.mpr ⟨m, [], (append_nil m).symm, ?_, ?_⟩)
    · exact takes_digits.mpr ⟨hne, hds, fun d hd => (hhead d hd).1⟩
    · refine takes_opt.mpr (.inr ⟨take_seq_eq_none.mpr (.inl ?_), rfl⟩)
      exact take_text_eq_none (c := '.') fun d hd => (hhead d hd).2
  | @point ds fs hne hds hfs =>
    refine .inl (takes_seq.mpr ⟨ds, '.' :: fs, rfl, ?_, ?_⟩)
    · exact takes_digits.mpr ⟨hne, hds, by rintro d ⟨⟩; decide⟩
    · refine takes_opt.mpr (.inl (takes_seq.mpr ⟨['.'], fs, rfl, takes_literal.mpr rfl, ?_⟩))
      exact takes_star_char.mpr ⟨hfs, fun d hd => (hhead d hd).1⟩
  | @fraction fs hne hfs =>
    refine .inr ⟨take_seq_eq_none.mpr (.inl (take_digits_eq_none (by rintro d ⟨⟩; decide))), ?_⟩
    refine takes_seq.mpr ⟨['.'], fs, rfl, takes_literal.mpr rfl, ?_⟩
    exact takes_digits.mpr ⟨hne, hfs, fun d hd => (hhead d hd).1⟩

/-! ### Names are no literals -/

lemma isDigit_eq_false_of_isNameStart (h : isNameStart c = true) : c.isDigit = false := by
  simp only [isNameStart, Bool.or_eq_true, decide_eq_true_eq] at h
  rcases h with (rfl | rfl) | halpha
  · decide
  · decide
  · -- letters lie behind the digits
    have hletter : 65 ≤ c.val.toNat := by
      rcases Bool.or_eq_true_iff.mp halpha with hupper | hlower
      · exact UInt32.le_iff_toNat_le.mp (of_decide_eq_true hupper).1
      · have hle : 97 ≤ c.val.toNat :=
          UInt32.le_iff_toNat_le.mp (of_decide_eq_true (Bool.and_eq_true_iff.mp hlower).1)
        omega
    refine Bool.eq_false_iff.mpr fun hdigit => ?_
    have hle : c.val.toNat ≤ 57 :=
      UInt32.le_iff_toNat_le.mp (of_decide_eq_true (Bool.and_eq_true_iff.mp hdigit).2)
    omega

lemma take_number_of_name (hw : identifier.Takes w k) : number.take (w ++ k) = none := by
  have hdigit : ∀ d ∈ (w ++ k).head?, d.isDigit = false :=
    fun d hd => isDigit_eq_false_of_isNameStart (head_of_name hw d hd)
  have hwhole := take_digits_eq_none hdigit
  have hpoint : (text ".").take (w ++ k) = none :=
    take_text_eq_none (c := '.') (head_ne_of_name hw (by decide))
  exact take_seq_eq_none.mpr
    (.inl (take_alt_eq_none.mpr ⟨take_seq_eq_none.mpr (.inl hwhole),
      take_seq_eq_none.mpr (.inl hpoint)⟩))

lemma take_boolean_of_name (hw : identifier.Takes w k) :
    (seq (.alt (.text "true") (.text "false")) (.absent wordChar)).take (w ++ k) = none := by
  cases htake : (seq (.alt (.text "true") (.text "false")) (.absent wordChar)).take (w ++ k) with
  | none => rfl
  | some taken =>
    obtain ⟨x, hx, -, hboolean⟩ := takes_of_take htake
    obtain ⟨u, v, rfl, hu, hv⟩ := takes_seq.mp hboolean
    have hword : ∀ s ∈ reservedWords, ¬(text s).Takes u (v ++ taken.2) := by
      intro s hs hu
      have hnone := take_word_of_name hs hw
      rw [hx, show (word s).Takes (u ++ v) taken.2 from takes_seq.mpr ⟨u, v, rfl, hu, hv⟩] at hnone
      nomatch hnone
    rcases takes_alt.mp hu with hu | ⟨-, hu⟩
    · exact absurd hu (hword "true" (by decide))
    · exact absurd hu (hword "false" (by decide))

/-- A text that is taken as a number, as a whole. -/
def IsNumeral (s : String) : Prop := number.Takes s.toList []

/-- Where a number may end, what follows does not matter. -/
lemma takes_number_iff (hk : NumberEnd k) : number.Takes w k ↔ number.Takes w [] := by
  constructor
  · intro h
    obtain ⟨m, x, rfl, hm, hx⟩ := numeral_of_takes h
    exact takes_number hm hx fun d hd => nomatch hd
  · intro h
    obtain ⟨m, x, rfl, hm, hx⟩ := numeral_of_takes h
    exact takes_number hm hx hk

/-! ### Reading numerals -/

lemma spanDigits_append {ds : List Char} (hds : AllDigits ds)
    (hk : ∀ d ∈ k.head?, d.isDigit = false) : spanDigits (ds ++ k) = (ds, k) := by
  unfold spanDigits
  rw [takeWhile_append_of_pos hds, dropWhile_append_of_pos hds]
  cases k with
  | nil => simp
  | cons d k =>
    have hd : ¬d.isDigit = true := by simp [hk d rfl]
    rw [takeWhile_cons_of_neg hd, dropWhile_cons_of_neg hd, append_nil]

/-- Exponents have a value. -/
lemma isSome_readExponent? (hx : IsExponent x) : (readExponent? x).isSome := by
  cases hx with
  | absent => rfl
  | @present e sign ds he hsign hne hds =>
    obtain ⟨c, ds, rfl⟩ := exists_cons_of_ne_nil hne
    have hc : c.isDigit = true := hds c mem_cons_self
    have hall : (c :: ds).all Char.isDigit = true := all_eq_true.mpr hds
    have hsigned : (readSign (sign ++ c :: ds)).2 = c :: ds := by
      rcases hsign with rfl | rfl | rfl
      · unfold readSign
        split <;> rename_i heq
        · cases heq; exact absurd hc (by decide)
        · cases heq; exact absurd hc (by decide)
        · rfl
      · rfl
      · rfl
    unfold readExponent?
    simp only [he, if_true]
    rw [hsigned]
    simp [hall]

/-- So have numbers without a sign. -/
lemma isSome_readMagnitude? (hm : IsMantissa m) (hx : IsExponent x) :
    (readMagnitude? (m ++ x)).isSome := by
  have hhead : ∀ d ∈ x.head?, d.isDigit = false ∧ d ≠ '.' := by
    have h := hx.head (k := []) fun d hd => nomatch hd
    rwa [append_nil] at h
  obtain ⟨e, he⟩ := Option.isSome_iff_exists.mp (isSome_readExponent? hx)
  unfold readMagnitude?
  cases hm with
  | whole hne hds =>
    rw [spanDigits_append hds fun d hd => (hhead d hd).1]
    dsimp only
    split
    · rename_i rest hdot
      exact absurd rfl (hhead '.' rfl).2
    · simp [hne, he]
  | @point ds fs hne hds hfs =>
    rw [append_assoc, cons_append, spanDigits_append hds (by rintro d ⟨⟩; decide)]
    simp [spanDigits_append hfs fun d hd => (hhead d hd).1, hne, he]
  | @fraction fs hne hfs =>
    have hnone : spanDigits ('.' :: fs ++ x) = ([], '.' :: (fs ++ x)) := rfl
    rw [hnone]
    simp [spanDigits_append hfs fun d hd => (hhead d hd).1, hne, he]

lemma IsMantissa.head (hm : IsMantissa m) : ∃ c r, m = c :: r ∧ (c.isDigit ∨ c = '.') := by
  cases hm with
  | whole hne hds =>
    obtain ⟨c, ds, rfl⟩ := exists_cons_of_ne_nil hne
    exact ⟨c, ds, rfl, .inl (hds c mem_cons_self)⟩
  | @point ds fs hne hds hfs =>
    obtain ⟨c, ds, rfl⟩ := exists_cons_of_ne_nil hne
    exact ⟨c, ds ++ '.' :: fs, rfl, .inl (hds c mem_cons_self)⟩
  | @fraction fs hne hfs => exact ⟨'.', fs, rfl, .inr rfl⟩

/-- Every numeral can be read. -/
lemma isSome_read? {s : String} (h : IsNumeral s) : (read? s).isSome := by
  obtain ⟨m, x, hs, hm, hx⟩ := numeral_of_takes h
  obtain ⟨c, r, hc, hstart⟩ := hm.head
  have hsign : readSign s.toList = (false, s.toList) := by
    rw [hs, hc, cons_append]
    unfold readSign
    split <;> rename_i heq
    · cases heq
      exact absurd hstart (by decide)
    · cases heq
      exact absurd hstart (by decide)
    · rfl
  have hmagnitude := isSome_readMagnitude? hm hx
  unfold read?
  rw [hsign]
  dsimp only
  rw [Option.isSome_map]
  split
  · rfl
  · split
    · rfl
    · rw [hs]
      exact hmagnitude

/-! ## Blanks -/

/-- No blanks stand here. -/
def Clear (s : List Char) : Prop := blank.Takes [] s

def isBlankChar (c : Char) : Bool := c = ' ' || c = '\t' || c = '\r' || c = '\n'

lemma take_comment_eq_none (h : ∀ t, s ≠ '/' :: '/' :: t ∧ s ≠ '/' :: '*' :: t) :
    comment.take s = none := by
  refine take_alt_eq_none.mpr ⟨take_seq_eq_none.mpr (.inl ?_), take_seq_eq_none.mpr (.inl ?_)⟩
  · cases htake : (text "//").take s with
    | none => rfl
    | some t =>
      obtain ⟨w, rfl, -, hw⟩ := takes_of_take htake
      rw [takes_literal.mp hw] at h
      exact absurd rfl (h t.2).1
  · cases htake : (text "/*").take s with
    | none => rfl
    | some t =>
      obtain ⟨w, rfl, -, hw⟩ := takes_of_take htake
      rw [takes_literal.mp hw] at h
      exact absurd rfl (h t.2).2

/-- Blanks end where neither another one nor a comment follows. -/
lemma takes_blank (hw : ∀ c ∈ w, isBlankChar c) (hs : ∀ c ∈ s.head?, isBlankChar c = false)
    (hcomment : ∀ t, s ≠ '/' :: '/' :: t ∧ s ≠ '/' :: '*' :: t) : blank.Takes w s := by
  refine takes_seq.mpr ⟨w, [], (append_nil w).symm, takes_star_char.mpr ⟨hw, hs⟩, ?_⟩
  exact takes_star_nil (take_seq_eq_none.mpr (.inl (take_comment_eq_none hcomment)))

lemma clear_nil : Clear [] :=
  takes_blank (forall_mem_nil _) (fun _ h => nomatch h) fun _ => ⟨nofun, nofun⟩

/-- A character that begins neither blanks nor a comment. -/
def isPlain (c : Char) : Bool := !isBlankChar c && c ≠ '/'

lemma takes_blank_cons (hw : ∀ d ∈ w, isBlankChar d) (h : isPlain c) : blank.Takes w (c :: s) := by
  obtain ⟨hblank, hslash⟩ := Bool.and_eq_true_iff.mp h
  refine takes_blank hw ?_ fun t => ?_
  · rintro d ⟨⟩
    exact (Bool.not_eq_true' _).mp hblank
  · have hne : c ≠ '/' := by simpa using hslash
    simp [hne]

lemma clear_cons (h : isPlain c) : Clear (c :: s) :=
  takes_blank_cons (forall_mem_nil _) h

/-- A slash in front of a character that does not make it a comment. -/
lemma clear_slash (h : c ≠ '/' ∧ c ≠ '*') : Clear ('/' :: c :: s) := by
  refine takes_blank (forall_mem_nil _) (by rintro d ⟨⟩; decide) fun t => ?_
  simp [h]

end SolidScript.Grammar.Words
