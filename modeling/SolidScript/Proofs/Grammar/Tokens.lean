import SolidScript.Proofs.Grammar.Words

/-!
# Tokens

Source texts are made of words, numbers, strings and symbols. What the grammar takes at the start of
a token depends on the token alone, and not on what stands behind it.
-/

namespace SolidScript.Grammar

open Words Pattern List

namespace Pattern

/-- A strict pattern does not match a text that starts with a character it cannot start with. -/
lemma take_cons_eq_none {p : Pattern} {c : Char} (hstrict : p.isStrict) (h : p.starts c = false)
    (s : List Char) : p.take (c :: s) = none := by
  cases htake : p.take (c :: s) with
  | none => rfl
  | some taken =>
    obtain ⟨w, hw, -, htakes⟩ := takes_of_take htake
    cases w with
    | nil => exact absurd rfl (ne_nil_of_isStrict hstrict htakes)
    | cons d w =>
      cases hw
      rw [starts_of_takes htakes] at h
      exact Bool.noConfusion h

lemma takeLiteral_append_of_ne {cs s k : List Char} (h : ∀ t ≠ [], cs = s ++ t → ¬t <+: k)
    (n : Nat) : takeLiteral cs (s ++ k) n = (takeLiteral cs s n).map (Taken.before k) := by
  induction cs generalizing s n with
  | nil => rfl
  | cons c cs ih =>
    cases s with
    | nil =>
      cases htake : takeLiteral (c :: cs) ([] ++ k) n with
      | none => rfl
      | some taken =>
        obtain ⟨hk, -⟩ := takeLiteral_eq_some.mp htake
        exact absurd ⟨taken.2, hk.symm⟩ (h (c :: cs) (cons_ne_nil c cs) rfl)
    | cons d s =>
      rw [cons_append, takeLiteral, takeLiteral]
      split
      · rename_i hcd
        exact ih (fun t ht hcs => h t ht (by rw [hcd, hcs]; rfl)) (n + 1)
      · rfl

end Pattern

/-! ## Tokens -/

/-- The symbols of the grammar. -/
def symbols : List String :=
  [";", "\x7b", "\x7d", "(", ")", "[", "]", ",", "?", ":", "=", "==", "!", "!=", "<", "<=", ">",
    ">=", "||", "&&", "+", "-", "*", "/", "%", "^", "#"]

/-- What comments begin with. -/
def commentMarks : List String := ["//", "/*"]

inductive TokenKind where
  /-- A name or a reserved word. -/
  | word
  | number
  | string
  | symbol
deriving DecidableEq

/-- The kind of the tokens that start with a character. -/
def TokenKind.ofStart? (c : Char) : Option TokenKind :=
  if isNameStart c then some .word
  else if c.isDigit || c = '.' then some .number
  else if c = '"' then some .string
  else if symbols.any (·.toList.head? = some c) then some .symbol
  else none

/-- The inside of a string: a backslash takes the character behind it along. -/
inductive IsQuoted : List Char → Prop where
  | nil : IsQuoted []
  | escaped {c : Char} {v : List Char} (h : IsQuoted v) : IsQuoted ('\\' :: c :: v)
  | plain {c : Char} {v : List Char} (hquote : c ≠ '"') (hslash : c ≠ '\\') (h : IsQuoted v) :
    IsQuoted (c :: v)

/-- A token of a kind in front of the rest of a text. A word goes on as long as it can, and so does
a number; a symbol is the longest that stands there, and no comment begins with it. -/
inductive Token : TokenKind → List Char → List Char → Prop where
  | word {c : Char} {v k : List Char} (hc : isNameStart c) (hv : ∀ x ∈ v, isWordChar x)
    (hk : WordEnd k) :
      Token .word (c :: v) k
  | number {w k : List Char} (h : number.Takes w k) : Token .number w k
  | string {v k : List Char} (h : IsQuoted v) : Token .string ('"' :: (v ++ ['"'])) k
  | symbol {s : String} {k : List Char} (hs : s ∈ symbols)
      (hk : ∀ d ∈ k.head?, ∀ t ∈ symbols ++ commentMarks, t.toList ≠ s.toList ++ [d]) :
      Token .symbol s.toList k

/-- The patterns of the grammar that take tokens. -/
inductive Terminal : TokenKind → Pattern → Prop where
  | symbol {s : String} (hs : s ∈ symbols) : Terminal .symbol (.text s)
  | keyword {s : String} (hs : s ∈ reservedWords) : Terminal .word (Words.word s)
  | boolean : Terminal .word (.seq (.alt (.text "true") (.text "false")) (.absent wordChar))
  | identifier : Terminal .word Words.identifier
  | number : Terminal .number Words.number

/-! ### How tokens start -/

variable {c : Char} {w k v : List Char}

lemma ofStart?_of_digit (h : c.isDigit || c = '.') : TokenKind.ofStart? c = some .number := by
  have hname : isNameStart c = false := by
    rcases Bool.or_eq_true_iff.mp h with hdigit | hpoint
    · refine Bool.eq_false_iff.mpr fun hname => ?_
      rw [isDigit_eq_false_of_isNameStart hname] at hdigit
      nomatch hdigit
    · rw [of_decide_eq_true hpoint]
      decide
  rw [TokenKind.ofStart?, if_neg (by simp [hname]), if_pos h]

lemma head_of_number (h : number.Takes w k) : ∃ c v, w = c :: v ∧ (c.isDigit || c = '.') := by
  obtain ⟨m, x, rfl, hm, -⟩ := numeral_of_takes h
  obtain ⟨c, v, rfl, hc⟩ := hm.head
  exact ⟨c, v ++ x, rfl, by simpa using hc⟩

/-- A symbol starts with a character of its own. -/
lemma ofStart?_of_symbol {s : String} (hs : s ∈ symbols)
    (hc : s.toList.head? = some c) : TokenKind.ofStart? c = some .symbol := by
  have hall : symbols.all (fun s => s.toList.head?.all (TokenKind.ofStart? · = some .symbol)) =
      true := by decide
  have h := all_eq_true.mp hall s hs
  rw [hc] at h
  exact of_decide_eq_true h

lemma Token.start {kind : TokenKind} (h : Token kind w k) :
    ∃ c v, w = c :: v ∧ TokenKind.ofStart? c = some kind := by
  cases h with
  | @word c v _ hc => exact ⟨c, v, rfl, if_pos hc⟩
  | number h =>
    obtain ⟨c, v, rfl, hc⟩ := head_of_number h
    exact ⟨c, v, rfl, ofStart?_of_digit hc⟩
  | @string v => exact ⟨'"', v ++ ['"'], rfl, rfl⟩
  | @symbol s _ hs =>
    cases hv : s.toList with
    | nil =>
      rw [String.toList_eq_nil_iff.mp hv] at hs
      exact absurd hs (by decide)
    | cons c v => exact ⟨c, v, rfl, ofStart?_of_symbol hs (by rw [hv]; rfl)⟩

namespace Terminal

variable {kind : TokenKind} {p : Pattern}

lemma isStrict (hp : Terminal kind p) : p.isStrict := by
  cases hp with
  | symbol hs =>
    have hall : symbols.all (fun s => (text s).isStrict) = true := by decide
    exact all_eq_true.mp hall _ hs
  | keyword hs =>
    have hall : reservedWords.all (fun s => (Words.word s).isStrict) = true := by decide
    exact all_eq_true.mp hall _ hs
  | boolean | identifier | number => decide

/-- A terminal takes tokens of one kind only. -/
lemma ofStart? (hp : Terminal kind p) (h : p.starts c) : TokenKind.ofStart? c = some kind := by
  cases hp with
  | symbol hs => exact ofStart?_of_symbol hs (of_decide_eq_true h)
  | @keyword s hs =>
    have hall :
        reservedWords.all (fun s => s.toList.head?.all (TokenKind.ofStart? · = some .word)) =
          true := by decide
    have hword := all_eq_true.mp hall s hs
    have hc : s.toList.head? = some c := by simpa [Words.word, starts, text] using h
    rw [hc] at hword
    exact of_decide_eq_true hword
  | boolean =>
    have hc : 't' = c ∨ 'f' = c := by simpa [starts, text] using h
    rcases hc with rfl | rfl <;> decide
  | identifier =>
    have hc : isNameStart c := by
      simpa [Words.identifier, starts, inOrder, Pattern.isStrict, isNameStart] using h
    exact if_pos hc
  | number =>
    have hc : c.isDigit ∨ '.' = c := by
      simpa [Words.number, starts, inOrder, plus, Words.digit, Pattern.isStrict, text] using h
    rcases hc with hc | rfl
    · exact ofStart?_of_digit (by simp [hc])
    · rfl

end Terminal

/-! ### What terminals take from tokens -/

/-- Some symbol or mark of a comment is taken up to this character at its end. -/
def Pattern.breaks (p : Pattern) (x : Char) : Bool :=
  (symbols ++ commentMarks).any fun s => (p.take s.toList).any fun t => t.2 = [x]

/-- What stands behind a text makes no difference to what a pattern takes from it, which is all of
it, or all but an equals sign. -/
structure Settles (p : Pattern) (w k : List Char) : Prop where
  append : p.take (w ++ k) = (p.take w).map (Taken.before k)
  whole : ∀ t ∈ p.take w, t.2 = [] ∨ t.2 = ['='] ∧ p.breaks '='

namespace Settles

variable {kind : TokenKind} {p : Pattern} {w k : List Char}

lemma of_take_eq_none (h : ∀ s, p.take (w ++ s) = none) : Settles p w k := by
  have hw : p.take w = none := by simpa using h []
  refine ⟨?_, fun t ht => ?_⟩
  · rw [hw]
    exact h k
  · rw [hw] at ht
    nomatch ht

/-- Tokens of other kinds are not taken. -/
lemma of_kind_ne {kind' : TokenKind} (hp : Terminal kind p) (hw : Token kind' w k)
    (hne : kind ≠ kind') : Settles p w k := by
  obtain ⟨c, v, rfl, hc⟩ := hw.start
  have hstarts : p.starts c = false := by
    refine Bool.eq_false_iff.mpr fun h => hne ?_
    rw [hp.ofStart? h] at hc
    exact Option.some.inj hc
  exact of_take_eq_none fun s => take_cons_eq_none hp.isStrict hstarts (v ++ s)

lemma of_takes (h : p.Takes w []) (hk : p.Takes w k) : Settles p w k := by
  have hw : p.take w = some (w.length, []) := by
    have h := h
    rwa [Takes, append_nil] at h
  refine ⟨?_, fun t ht => ?_⟩
  · rw [hw]
    exact hk
  · rw [hw] at ht
    cases ht
    exact .inl rfl

end Settles

/-- Whatever ends where no word goes on takes a word as a whole. -/
lemma eq_nil_of_wordEnd {u r : List Char} (hv : ∀ x ∈ v, isWordChar x) (hu : u ≠ [])
    (h : c :: v = u ++ r) (hr : WordEnd r) : r = [] := by
  cases u with
  | nil => exact absurd rfl hu
  | cons d u =>
    cases h
    cases r with
    | nil => rfl
    | cons x r =>
      have hx := hv x (mem_append_right u mem_cons_self)
      rw [wordEnd_cons.mp hr] at hx
      nomatch hx

/-- A pattern that ends where no word goes on. -/
lemma settles_ended {p : Pattern} (hp : p.isStrict) (hv : ∀ x ∈ v, isWordChar x)
    (hignores : ∀ d ∈ k.head?, p.ignores d) (hk : WordEnd k) :
    Settles (seq p (absent wordChar)) (c :: v) k := by
  refine ⟨?_, fun t ht => .inl ?_⟩
  · cases k with
    | nil => rw [append_nil]; cases (seq p (absent wordChar)).take (c :: v) <;> simp [Taken.before]
    | cons d k => exact take_append (p := seq p (absent wordChar)) ⟨hignores d rfl, hk d rfl⟩ _ _
  · obtain ⟨u, hu, -, htakes⟩ := takes_of_take ht
    obtain ⟨x, y, rfl, hx, hy⟩ := takes_seq.mp htakes
    obtain ⟨rfl, hr⟩ := takes_absent.mp hy
    rw [append_nil] at hu
    exact eq_nil_of_wordEnd hv (ne_nil_of_isStrict hp hx) hu (take_wordChar_eq_none.mp hr)

lemma takeWhile_wordChar (hv : ∀ x ∈ v, isWordChar x) (hk : WordEnd k) :
    (v ++ k).takeWhile isWordChar = v := by
  rw [takeWhile_append_of_pos hv]
  cases k with
  | nil => rw [takeWhile_nil, append_nil]
  | cons d k => rw [takeWhile_cons_of_neg (by simp [wordEnd_cons.mp hk]), append_nil]

lemma settles_identifier (hv : ∀ x ∈ v, isWordChar x) (hk : WordEnd k) :
    Settles identifier (c :: v) k := by
  -- whatever is taken ends where the word ends
  have hwhole {s : List Char} (hs : WordEnd s) {t : Taken}
    (ht : identifier.take (c :: v ++ s) = some t) :
      identifier.Takes (c :: v) s := by
    obtain ⟨u, hu, -, htakes⟩ := takes_of_take ht
    obtain ⟨-, ⟨d, u, rfl, -, hword⟩, hr⟩ := takes_identifier.mp htakes
    obtain ⟨rfl, hrest⟩ : c = d ∧ v ++ s = u ++ t.2 := cons.inj hu
    have huv := congrArg (takeWhile isWordChar) hrest
    rw [takeWhile_wordChar hv hs, takeWhile_wordChar hword hr] at huv
    subst huv
    rwa [append_cancel_left hrest]
  cases htake : identifier.take (c :: v) with
  | none =>
    refine ⟨?_, fun t ht => by rw [htake] at ht; cases ht⟩
    cases hlong : identifier.take (c :: v ++ k) with
    | none => rw [htake]; rfl
    | some t =>
      have hshort := (takes_identifier_iff.mp (hwhole hk hlong)).1
      rw [Takes, append_nil, htake] at hshort
      cases hshort
  | some t =>
    have hshort : identifier.Takes (c :: v) [] :=
      hwhole wordEnd_nil (by rw [append_nil]; exact htake)
    exact .of_takes hshort (takes_identifier_iff.mpr ⟨hshort, hk⟩)

/-- Of a symbol, only symbols are taken that it begins with. -/
lemma settles_symbol {x s : String} (hx : x ∈ symbols) (hs : s ∈ symbols)
    (hk : ∀ d ∈ k.head?, ∀ t ∈ symbols ++ commentMarks, t.toList ≠ s.toList ++ [d]) :
    Settles (text x) s.toList k := by
  refine ⟨takeLiteral_append_of_ne (fun t ht hxs hprefix => ?_) 0, fun t ht => ?_⟩
  · -- symbols have at most two characters, so a longer one has one more
    have hall : symbols.all (fun s => s.toList.length = 1 || s.toList.length = 2) =
        true := by decide
    have hlong := all_eq_true.mp hall x hx
    have hshort := all_eq_true.mp hall s hs
    rw [hxs, length_append] at hlong
    simp only [Bool.or_eq_true, decide_eq_true_eq] at hlong hshort
    obtain ⟨d, t, rfl⟩ := exists_cons_of_ne_nil ht
    have hnil : t = [] := eq_nil_of_length_eq_zero (by rw [length_cons] at hlong; omega)
    obtain ⟨r, rfl⟩ := hprefix
    exact hk d rfl x (mem_append_left _ hx) (by rw [hxs, hnil])
  · have hall : symbols.all (fun x => symbols.all fun s => ((text x).take s.toList).all fun t =>
        t.2 = [] || t.2 = ['=']) = true := by decide
    have htaken := all_eq_true.mp (all_eq_true.mp hall x hx) s hs
    rw [show (text x).take s.toList = some t from ht, Option.all_some, Bool.or_eq_true,
      decide_eq_true_eq, decide_eq_true_eq] at htaken
    refine htaken.imp_right fun hequals => ⟨hequals, any_eq_true.mpr ⟨s, mem_append_left _ hs, ?_⟩⟩
    rw [show (text x).take s.toList = some t from ht, Option.any_some]
    exact decide_eq_true hequals

/-- What stands behind a token makes no difference to the terminals. -/
lemma Token.settles {kind kind' : TokenKind} {p : Pattern} (h : Token kind w k)
    (hp : Terminal kind' p) : Settles p w k := by
  by_cases hkind : kind' = kind
  · subst hkind
    cases h with
    | word hc hv hk =>
      cases hp with
      | @keyword s hs =>
        have hwords : reservedWords.all (fun s => s.toList.all isWordChar && (text s).isStrict) =
            true := by decide
        obtain ⟨hword, hstrict⟩ := Bool.and_eq_true_iff.mp (all_eq_true.mp hwords s hs)
        refine settles_ended hstrict hv (fun d hd => ?_) hk
        exact ignores_text (fun c hc => all_eq_true.mp hword c hc) (hk d hd)
      | boolean =>
        refine settles_ended (by decide) hv (fun d hd => ⟨?_, ?_⟩) hk
        · exact ignores_text (all_eq_true.mp (by decide)) (hk d hd)
        · exact ignores_text (all_eq_true.mp (by decide)) (hk d hd)
      | identifier => exact settles_identifier hv hk
    | number h =>
      cases hp
      obtain ⟨m, x, rfl, hm, hx⟩ := numeral_of_takes h
      exact .of_takes (takes_number hm hx fun _ hd => nomatch hd) h
    | string => nomatch hp
    | symbol hs hk =>
      cases hp with
      | symbol hx => exact settles_symbol hx hs hk
  · exact .of_kind_ne hp h hkind

end SolidScript.Grammar
