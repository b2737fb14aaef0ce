import SolidScript.Proofs.Grammar.Tokens

/-!
# Layout

Blank characters and comments may stand between tokens.
-/

namespace SolidScript.Grammar

open Words Pattern List Option

/-! ## Layout -/

/-- A complete comment: one to the end of its line, with the line break, or one between its
delimiters. -/
inductive IsComment : List Char → Prop where
  | line {x : List Char} (hx : '\n' ∉ x) : IsComment ('/' :: '/' :: (x ++ ['\n']))
  | block {x : List Char} (hx : ¬['*', '/'] <:+: x) : IsComment ('/' :: '*' :: (x ++ ['*', '/']))

/-- Blank characters and complete comments. -/
inductive Layout : List Char → Prop where
  | nil : Layout []
  | blank {c : Char} {g : List Char} (hc : isBlankChar c) (h : Layout g) : Layout (c :: g)
  | comment {w g : List Char} (hw : IsComment w) (h : Layout g) : Layout (w ++ g)

variable {g k w x v u u' s s' : List Char} {kind : TokenKind} {d : Char}

lemma takes_blank_blank {c : Char} (hc : isBlankChar c) (h : blank.Takes g k) :
    blank.Takes (c :: g) k := by
  obtain ⟨b, t, rfl, hb, ht⟩ := takes_seq.mp h
  exact takes_seq.mpr ⟨c :: b, t, rfl,
    takes_star_append (cons_ne_nil c []) (takes_char.mpr ⟨c, rfl, hc⟩) hb, ht⟩

/-- A comment, blank characters behind it, and then further blanks. -/
lemma takes_blank_comment {b : List Char} (hw : comment.Takes ('/' :: w) (b ++ (g ++ k)))
    (hb : ∀ c ∈ b, isBlankChar c) (h : blank.Takes g k) : blank.Takes ('/' :: w ++ b ++ g) k := by
  obtain ⟨b', t, rfl, hb', ht⟩ := takes_seq.mp h
  obtain ⟨hblank, hend⟩ := takes_star_char.mp hb'
  have hfirst : (seq comment (star blankChar)).Takes ('/' :: w ++ (b ++ b')) (t ++ k) := by
    refine takes_seq.mpr ⟨'/' :: w, b ++ b', rfl, by simpa using hw, takes_star_char.mpr ⟨?_, hend⟩⟩
    exact fun c hc => (mem_append.mp hc).elim (hb c) (hblank c)
  have hall := takes_star_append (by simp) hfirst ht
  rw [append_assoc, append_assoc] at hall
  rw [append_assoc]
  refine takes_seq.mpr ⟨[], _, rfl, takes_star_char.mpr ⟨forall_mem_nil _, ?_⟩, hall⟩
  rintro d ⟨⟩
  decide

lemma takes_inside (hx : ¬['*', '/'] <:+: x) :
    (star (seq (absent (text "*/")) (char fun _ => true))).Takes x ('*' :: '/' :: k) := by
  induction x with
  | nil => exact takes_star_nil (take_seq_eq_none.mpr (.inl rfl))
  | cons c x ih =>
    have hrest := ih fun h => hx (h.trans (suffix_cons c x).isInfix)
    refine takes_star_append (u := [c]) (cons_ne_nil c []) ?_ hrest
    refine takes_seq.mpr ⟨[], [c], rfl, takes_absent.mpr ⟨rfl, ?_⟩, takes_char.mpr ⟨c, rfl, rfl⟩⟩
    -- a delimiter here would stand inside of the comment, or begin with its last star
    cases htake : (text "*/").take ([c] ++ (x ++ '*' :: '/' :: k)) with
    | none => rfl
    | some t =>
      obtain ⟨w, hw, -, htakes⟩ := takes_of_take htake
      rw [takes_literal.mp htakes, show "*/".toList = ['*', '/'] from rfl] at hw
      cases x with
      | nil => nomatch hw
      | cons d x =>
        obtain ⟨rfl, hrest⟩ := cons.inj hw
        obtain ⟨rfl, -⟩ : d = '/' ∧ _ := cons.inj hrest
        exact absurd ⟨[], x, rfl⟩ hx

/-- A comment goes up to the end of its line. -/
lemma takes_line (hx : '\n' ∉ x) (hk : ∀ d ∈ k.head?, d = '\n') :
    comment.Takes ('/' :: '/' :: x) k := by
  refine takes_alt.mpr
    (.inl (takes_seq.mpr ⟨['/', '/'], x, rfl, takes_literal.mpr rfl, takes_star_char.mpr ⟨?_, ?_⟩⟩))
  · intro c hc
    have hne : c ≠ '\n' := fun hn => hx (hn ▸ hc)
    simpa using hne
  · intro d hd
    rw [hk d hd]
    rfl

lemma IsComment.takes_blank (hw : IsComment w) (h : blank.Takes g k) : blank.Takes (w ++ g) k := by
  cases hw with
  | @line x hx =>
    have hline := takes_line (k := ['\n'] ++ (g ++ k)) hx fun _ hd => (some.inj hd).symm
    simpa using takes_blank_comment hline (forall_mem_singleton.mpr rfl) h
  | @block x hx =>
    have hblock : comment.Takes ('/' :: '*' :: (x ++ ['*', '/'])) ([] ++ (g ++ k)) := by
      refine takes_alt.mpr (.inr ⟨take_seq_eq_none.mpr (.inl rfl), ?_⟩)
      refine takes_seq.mpr ⟨['/', '*'], x ++ ['*', '/'], rfl, takes_literal.mpr rfl, ?_⟩
      exact takes_seq.mpr ⟨x, ['*', '/'], rfl, takes_inside hx, takes_literal.mpr rfl⟩
    simpa using takes_blank_comment hblock (forall_mem_nil _) h

/-- Layout is taken with the blanks behind it. -/
lemma Layout.takes_blank {h : List Char} (hg : Layout g)
    (hh : Words.blank.Takes h k) : Words.blank.Takes (g ++ h) k := by
  induction hg with
  | nil => exact hh
  | blank hc _ ih => exact takes_blank_blank hc ih
  | comment hw _ ih =>
    rw [append_assoc]
    exact hw.takes_blank ih

lemma exists_blank (s : List Char) : ∃ g u, s = g ++ u ∧ blank.Takes g u := by
  cases htake : blank.take s with
  | none =>
    rcases take_seq_eq_none.mp htake with hnone | ⟨u, v, -, -, hnone⟩
    · nomatch hnone
    · nomatch hnone
  | some t =>
    obtain ⟨g, hg, -, htakes⟩ := takes_of_take htake
    exact ⟨g, t.2, hg, htakes⟩

/-! ## Texts with the same tokens -/

/-- Two texts that have the same tokens one after the other, with any blanks between them, up to
where they are equal. -/
inductive SameTokens : List Char → List Char → Prop where
  | same {g g' u : List Char} (hg : blank.Takes g u) (hg' : blank.Takes g' u) :
    SameTokens (g ++ u) (g' ++ u)
  | token {kind : TokenKind} {g g' w k k' : List Char} (hg : blank.Takes g (w ++ k))
    (hg' : blank.Takes g' (w ++ k'))
      (hw : Token kind w k) (hw' : Token kind w k') (h : SameTokens k k') :
      SameTokens (g ++ (w ++ k)) (g' ++ (w ++ k'))

/-- The same at the start of a token. -/
inductive Aligned : List Char → List Char → Prop where
  | same {u : List Char} : Aligned u u
  | token {kind : TokenKind} {w k k' : List Char} (hw : Token kind w k) (hw' : Token kind w k')
    (h : SameTokens k k') :
      Aligned (w ++ k) (w ++ k')

lemma SameTokens.refl (s : List Char) : SameTokens s s := by
  obtain ⟨g, u, rfl, hg⟩ := exists_blank s
  exact .same hg hg

/-- Only a division starts with a character that could begin blanks. -/
lemma isPlain_of_ofStart? {c : Char} (h : TokenKind.ofStart? c = some kind) (hc : c ≠ '/') :
    isPlain c := by
  have hblank : isBlankChar c = false := by
    refine Bool.eq_false_iff.mpr fun hblank => ?_
    simp only [isBlankChar, Bool.or_eq_true, decide_eq_true_eq] at hblank
    rcases hblank with ((rfl | rfl) | rfl) | rfl <;> nomatch h
  simp [isPlain, hblank, hc]

lemma eq_slash {s : String} (hs : s ∈ symbols) (hv : s.toList = '/' :: v) : s = "/" := by
  have hall : symbols.all (fun s => s.toList.head? ≠ some '/' || s = "/") = true := by decide
  have h := all_eq_true.mp hall s hs
  rw [hv] at h
  simpa using h

/-- No blanks stand in front of a token. -/
lemma Token.clear (h : Token kind w k) : Clear (w ++ k) := by
  obtain ⟨c, v, hcv, hc⟩ := h.start
  by_cases hslash : c = '/'
  · subst hslash
    cases hc
    cases h with
    | symbol hs hk =>
      obtain rfl := eq_slash hs hcv
      cases k with
      | nil => rfl
      | cons d k =>
        refine clear_slash ⟨?_, ?_⟩
        · rintro rfl
          exact hk '/' rfl "//" (by decide) rfl
        · rintro rfl
          exact hk '*' rfl "/*" (by decide) rfl
  · rw [hcv]
    exact clear_cons (isPlain_of_ofStart? hc hslash)

lemma Aligned.sameTokens (h : Aligned u u') : SameTokens u u' := by
  cases h with
  | same => exact .refl u
  | token hw hw' h => exact .token hw.clear hw'.clear hw hw' h

lemma SameTokens.symm (h : SameTokens s s') : SameTokens s' s := by
  induction h with
  | same hg hg' => exact .same hg' hg
  | token hg hg' hw hw' _ ih => exact .token hg' hg hw' hw ih

lemma Aligned.symm (h : Aligned u u') : Aligned u' u := by
  cases h with
  | same => exact .same
  | token hw hw' h => exact .token hw' hw h.symm

/-- Layout in front makes no difference. -/
lemma SameTokens.layout (h : SameTokens s s') (hg : Layout g) : SameTokens s (g ++ s') := by
  cases h with
  | same h h' =>
    rw [← append_assoc]
    exact .same h (hg.takes_blank h')
  | @token _ a a' w k k' h h' hw hw' hrest =>
    rw [← append_assoc g a']
    exact .token h (hg.takes_blank h') hw hw' hrest

lemma SameTokens.append (h : SameTokens s s') (hg : Layout g) : SameTokens (g ++ s) (g ++ s') :=
  ((h.layout hg).symm.layout hg).symm

/-! ### What is taken from them -/

lemma Aligned.eq_nil (h : Aligned u u') (hu : u = []) : u' = [] := by
  cases h with
  | same => exact hu
  | token hw _ _ =>
    obtain ⟨c, v, rfl, -⟩ := hw.start
    nomatch hu

/-- The texts behind what a pattern took: with the same tokens, or both behind a symbol that was not
taken as a whole. -/
def Abreast (breaks : Bool) (k k' : List Char) : Prop :=
  SameTokens k k' ∨ breaks ∧ k.head? = some '=' ∧ k'.head? = some '='

/-- A terminal takes the same from texts with the same tokens. -/
lemma Aligned.take {p : Pattern} (h : Aligned u u') (hp : Terminal kind p) :
    p.take u = none ∧ p.take u' = none ∨
      ∃ w k k', u = w ++ k ∧ u' = w ++ k' ∧ p.Takes w k ∧ p.Takes w k' ∧
      Abreast (p.breaks '=') k k' := by
  cases h with
  | same =>
    cases htake : p.take u with
    | none => exact .inl ⟨rfl, rfl⟩
    | some t =>
      obtain ⟨w, rfl, -, htakes⟩ := takes_of_take htake
      exact .inr ⟨w, t.2, t.2, rfl, rfl, htakes, htakes, .inl (.refl _)⟩
  | @token _ w k k' hw hw' hrest =>
    have hsettles := hw.settles hp
    have hsettles' := hw'.settles hp
    cases htake : p.take w with
    | none =>
      refine .inl ⟨?_, ?_⟩
      · rw [hsettles.append, htake]
        rfl
      · rw [hsettles'.append, htake]
        rfl
    | some t =>
      obtain ⟨n, r⟩ := t
      have hwhole := hsettles.whole _ htake
      obtain ⟨x, rfl, rfl, htakes⟩ := takes_of_take htake
      have htakes (s : List Char) (hs : Settles p (x ++ r) s) : p.Takes x (r ++ s) := by
        rw [Takes, ← append_assoc, hs.append, htake]
        rfl
      refine .inr ⟨x, r ++ k, r ++ k', by simp, by simp, htakes k hsettles, htakes k' hsettles', ?_⟩
      rcases hwhole with rfl | ⟨rfl, hbreaks⟩
      · exact .inl hrest
      · exact .inr ⟨hbreaks, rfl, rfl⟩

/-- The inside of a string is taken up to its quote. -/
lemma IsQuoted.takes (h : IsQuoted v) : stringInner.Takes v ('"' :: k) := by
  induction h with
  | nil => exact takes_star_nil rfl
  | @escaped c v _ ih =>
    refine takes_star_append (u := ['\\', c]) (cons_ne_nil _ _) (takes_alt.mpr (.inl ?_)) ih
    exact takes_seq.mpr ⟨['\\'], [c], rfl, takes_literal.mpr rfl, takes_char.mpr ⟨c, rfl, rfl⟩⟩
  | @plain c v hquote hslash _ ih =>
    refine takes_star_append (u := [c]) (cons_ne_nil _ _) (takes_alt.mpr (.inr ⟨?_, ?_⟩)) ih
    · refine take_seq_eq_none.mpr (.inl (take_text_eq_none (c := '\\') ?_))
      rintro d ⟨⟩
      exact hslash
    · exact takes_char.mpr ⟨c, rfl, by simp [hquote, hslash]⟩

lemma Pattern.Takes.unique {p : Pattern} {w' k' : List Char} (h : p.Takes w k) (h' : p.Takes w' k')
    (heq : w ++ k = w' ++ k') : w = w' ∧ k = k' := by
  rw [Takes, heq, h'] at h
  obtain ⟨hlength, rfl⟩ := Prod.mk.inj (some.inj h)
  exact ⟨append_cancel_right heq, rfl⟩

/-- A string is taken from texts with the same tokens alike. -/
lemma Aligned.string (h : Aligned u u') (hu : u = '"' :: (v ++ '"' :: k))
    (hv : stringInner.Takes v ('"' :: k)) :
    ∃ k', u' = '"' :: (v ++ '"' :: k') ∧ stringInner.Takes v ('"' :: k') ∧ SameTokens k k' := by
  cases h with
  | same => exact ⟨k, hu, hv, .refl k⟩
  | @token kind w r r' hw hw' hrest =>
    -- only the token of a string starts with a quote
    obtain ⟨c, x, rfl, hc⟩ := hw.start
    obtain ⟨rfl, -⟩ : c = '"' ∧ _ := cons.inj hu
    cases hc
    generalize hy : '"' :: x = y at hw hw' hu
    cases hw with
    | @string q _ hq =>
      obtain ⟨rfl, hk⟩ := hv.unique (hq.takes (k := r)) (by simpa using hu.symm)
      cases hk
      exact ⟨r', by simp, hq.takes, hrest⟩

/-! ## Numbers in front of layout -/

namespace Pattern

/-- What is taken from in front of a text is taken from in front of its beginning, too. -/
def Truncates (p : Pattern) : Prop := ∀ w u v, p.Takes w (u ++ v) → p.Takes w u

/-- What fails on a text fails on its beginning, too. -/
def FailsEarly (p : Pattern) : Prop := ∀ u v, p.take (u ++ v) = none → p.take u = none

section

variable {a b : Pattern} {p : Char → Bool}

lemma head?_mem_of_append (h : d ∈ u.head?) : d ∈ (u ++ v).head? := by
  cases u with
  | nil => nomatch h
  | cons c u => exact h

lemma truncates_literal (cs : List Char) : (literal cs).Truncates := fun _ _ _ h =>
  takes_literal.mpr (takes_literal.mp h)

lemma truncates_char : (char p).Truncates := fun _ _ _ h => takes_char.mpr (takes_char.mp h)

lemma truncates_star_char : (star (char p)).Truncates := fun _ _ _ h =>
  let ⟨hw, hend⟩ := takes_star_char.mp h
  takes_star_char.mpr ⟨hw, fun d hd => hend d (head?_mem_of_append hd)⟩

lemma Truncates.seq (ha : a.Truncates) (hb : b.Truncates) : (seq a b).Truncates := by
  intro w u v h
  obtain ⟨x, y, rfl, hx, hy⟩ := takes_seq.mp h
  rw [← append_assoc] at hx
  exact takes_seq.mpr ⟨x, y, rfl, ha x (y ++ u) v hx, hb y u v hy⟩

lemma Truncates.alt (ha : a.Truncates) (hfails : a.FailsEarly) (hb : b.Truncates) :
    (alt a b).Truncates := by
  intro w u v h
  rcases takes_alt.mp h with h | ⟨hnone, h⟩
  · exact takes_alt.mpr (.inl (ha w u v h))
  · rw [← append_assoc] at hnone
    exact takes_alt.mpr (.inr ⟨hfails _ _ hnone, hb w u v h⟩)

lemma Truncates.opt (ha : a.Truncates) (hfails : a.FailsEarly) : (opt a).Truncates := by
  intro w u v h
  rcases takes_opt.mp h with h | ⟨hnone, rfl⟩
  · exact takes_opt.mpr (.inl (ha w u v h))
  · exact takes_opt.mpr (.inr ⟨hfails u v hnone, rfl⟩)

lemma failsEarly_char : (char p).FailsEarly := fun _ _ h =>
  take_char_eq_none.mpr fun d hd => take_char_eq_none.mp h d (head?_mem_of_append hd)

lemma failsEarly_literal (cs : List Char) : (literal cs).FailsEarly := by
  intro u v h
  cases htake : (literal cs).take u with
  | none => rfl
  | some t =>
    obtain ⟨w, rfl, -, htakes⟩ := takes_of_take htake
    have hlong : (literal cs).Takes w (t.2 ++ v) := takes_literal.mpr (takes_literal.mp htakes)
    rw [append_assoc, hlong] at h
    nomatch h

/-- What stands behind in a sequence decides nothing if it never fails. -/
lemma FailsEarly.seq (ha : a.FailsEarly) (hb : ∀ s, b.take s ≠ none) : (seq a b).FailsEarly := by
  intro u v h
  rcases take_seq_eq_none.mp h with h | ⟨_, s, -, -, h⟩
  · exact take_seq_eq_none.mpr (.inl (ha u v h))
  · exact absurd h (hb s)

/-- A character and a pattern behind it. -/
lemma FailsEarly.char_seq (hb : b.FailsEarly) : (Pattern.seq (char p) b).FailsEarly := by
  intro u v h
  cases u with
  | nil => rfl
  | cons c u =>
    rw [cons_append, take_seq, take_char_cons] at h
    rw [take_seq, take_char_cons]
    split at h
    · rw [if_pos ‹_›]
      rw [bind_some, map_eq_none_iff] at h ⊢
      exact hb u v h
    · rw [if_neg ‹_›]
      rfl

end

end Pattern

lemma truncates_digits : digit.plus.Truncates := truncates_char.seq truncates_star_char

lemma failsEarly_digits : digit.plus.FailsEarly := failsEarly_char.seq fun _ h => nomatch h

/-- A sign takes the first character, or nothing. -/
lemma take_sign (c : Char) (s : List Char) :
    (opt (alt (text "+") (text "-"))).take
      (c :: s) = some (if c = '+' ∨ c = '-' then (1, s) else (0, c :: s)) := by
  by_cases hplus : c = '+'
  · subst hplus
    rfl
  · by_cases hminus : c = '-'
    · subst hminus
      rfl
    · have hnone : (alt (text "+") (text "-")).take (c :: s) = none := by
        refine take_alt_eq_none.mpr ⟨?_, ?_⟩
        · exact take_text_eq_none (c := '+') (by rintro d ⟨⟩; exact hplus)
        · exact take_text_eq_none (c := '-') (by rintro d ⟨⟩; exact hminus)
      rw [take_opt, hnone, if_neg (by simp [hplus, hminus])]
      rfl

lemma failsEarly_signed : (seq (opt (alt (text "+") (text "-"))) digit.plus).FailsEarly := by
  intro u v h
  cases u with
  | nil => rfl
  | cons c u =>
    rw [cons_append, take_seq, take_sign, bind_some, map_eq_none_iff] at h
    rw [take_seq, take_sign, bind_some, map_eq_none_iff]
    split at h
    · rw [if_pos ‹_›]
      exact failsEarly_digits u v h
    · rw [if_neg ‹_›]
      exact failsEarly_digits (c :: u) v h

/-- A number is taken from in front of the beginning of what stands behind, too. -/
lemma truncates_number : number.Truncates := by
  have hfraction : (seq (text ".") (star digit)).Truncates :=
    (truncates_literal _).seq truncates_star_char
  have hsign : (opt (alt (text "+") (text "-"))).Truncates := by
    refine ((truncates_literal _).alt (failsEarly_literal _) (truncates_literal _)).opt
      fun u v h => ?_
    obtain ⟨hplus, hminus⟩ := take_alt_eq_none.mp h
    exact take_alt_eq_none.mpr ⟨failsEarly_literal _ u v hplus, failsEarly_literal _ u v hminus⟩
  refine .seq (.alt (truncates_digits.seq (hfraction.opt ?_)) ?_ ?_) (.opt ?_ ?_)
  · exact (failsEarly_literal _).seq fun _ h => nomatch h
  · exact failsEarly_digits.seq fun _ h => nomatch h
  · exact (truncates_literal _).seq truncates_digits
  · exact truncates_char.seq (hsign.seq truncates_digits)
  · exact failsEarly_signed.char_seq

/-! ## Layout between tokens -/

lemma Layout.head (h : Layout g) : ∀ d ∈ g.head?, isBlankChar d ∨ d = '/' := by
  cases h with
  | nil => exact fun _ hd => nomatch hd
  | blank hc _ =>
    rintro d ⟨⟩
    exact .inl hc
  | comment hw _ =>
    cases hw with
    | line | block =>
      rintro d ⟨⟩
      exact .inr rfl

lemma ignores_number (hd : isBlankChar d ∨ d = '/') : number.ignores d := by
  simp only [isBlankChar, Bool.or_eq_true, decide_eq_true_eq] at hd
  rcases hd with (((rfl | rfl) | rfl) | rfl) | rfl <;>
    simp [number, ignores, inOrder, plus, digit, text]

lemma not_isWordChar (hd : isBlankChar d ∨ d = '/') : isWordChar d = false := by
  simp only [isBlankChar, Bool.or_eq_true, decide_eq_true_eq] at hd
  rcases hd with (((rfl | rfl) | rfl) | rfl) | rfl <;> decide

/-- Layout makes no symbol longer, nor does it begin a comment with it, except for a comment behind
a slash. -/
lemma ne_of_layout {s t : String} (hs : s ∈ symbols) (ht : t ∈ symbols ++ commentMarks)
    (hd : isBlankChar d ∨ d = '/') (hslash : d = '/' → s.toList ≠ ['/']) :
    t.toList ≠ s.toList ++ [d] := by
  intro hts
  have hall : (symbols ++ commentMarks).all (fun t => t.toList.all (fun c => !isBlankChar c) &&
      (t.toList.getLast? ≠ some '/' || t = "/" || t = "//")) = true := by decide
  obtain ⟨hblank, hlast⟩ := Bool.and_eq_true_iff.mp (all_eq_true.mp hall t ht)
  rcases hd with hd | rfl
  · have hnot := all_eq_true.mp hblank d (by rw [hts]; simp)
    rw [hd] at hnot
    nomatch hnot
  · rw [hts, getLast?_concat] at hlast
    have htwo : t = "/" ∨ t = "//" := by simpa using hlast
    have hinit : t.toList.dropLast = s.toList := by rw [hts, dropLast_concat]
    rcases htwo with rfl | rfl
    · rw [String.toList_eq_nil_iff.mp hinit.symm] at hs
      exact absurd hs (by decide)
    · exact hslash rfl hinit.symm

/-- A token stays one when layout is put in behind it, at once or later. -/
lemma Token.insert {v' : List Char} (h : Token kind w (u ++ v)) (hd : isBlankChar d ∨ d = '/')
    (hslash : u = [] → d = '/' → w ≠ ['/']) : Token kind w (u ++ d :: v') := by
  -- what stands next is as before, or it is the layout
  have hnext : ∀ e ∈ (u ++ d :: v').head?, e ∈ (u ++ v).head? ∨ u = [] ∧ e = d := by
    intro e he
    cases u with
    | nil => exact .inr ⟨rfl, (some.inj he).symm⟩
    | cons c u => exact .inl he
  cases h with
  | word hc hv hk =>
    refine .word hc hv fun e he => ?_
    rcases hnext e he with he | ⟨-, rfl⟩
    · exact hk e he
    · exact not_isWordChar hd
  | number h =>
    refine .number ?_
    have htake := take_append (ignores_number hd) (w ++ u) v'
    rw [show Words.number.take (w ++ u) = some (w.length, u) from truncates_number w u v h,
      append_assoc] at htake
    exact htake
  | string h => exact .string h
  | @symbol s _ hs hk =>
    refine .symbol hs fun e he t ht hts => ?_
    rcases hnext e he with he | ⟨hnil, rfl⟩
    · exact hk e he t ht hts
    · exact ne_of_layout hs ht hd (hslash hnil) hts

/-- The text is made of tokens, blank characters and complete comments; at its end, a comment may
lack its line break. -/
inductive Lexed : List Char → Prop where
  | nil : Lexed []
  | line {x : List Char} (hx : '\n' ∉ x) : Lexed ('/' :: '/' :: x)
  | blank {c : Char} {s : List Char} (hc : isBlankChar c) (h : Lexed s) : Lexed (c :: s)
  | comment {w s : List Char} (hw : IsComment w) (h : Lexed s) : Lexed (w ++ s)
  | token {kind : TokenKind} {w s : List Char} (hw : Token kind w s) (h : Lexed s) : Lexed (w ++ s)

/-- The second text is the first one with layout put in: in front of it, behind it, and wherever one
of its parts ends. A comment does not stand behind a division at once. What is put in behind a
comment that lacks its line break belongs to that comment up to a line break, so layout begins
there. -/
inductive Relaid : List Char → List Char → Prop where
  | nil : Relaid [] []
  | line {x y g : List Char} (hx : '\n' ∉ x) (hy : '\n' ∉ y) (hg : Layout g)
    (hbreak : ∀ d ∈ g.head?, d = '\n') :
      Relaid ('/' :: '/' :: x) ('/' :: '/' :: x ++ (y ++ g))
  | blank {c : Char} {s s' : List Char} (hc : isBlankChar c) (h : Relaid s s') :
    Relaid (c :: s) (c :: s')
  | comment {w s s' : List Char} (hw : IsComment w) (h : Relaid s s') : Relaid (w ++ s) (w ++ s')
  | token {kind : TokenKind} {w s s' : List Char} (hw : Token kind w s)
    (hslash : w = ['/'] → s'.head? ≠ some '/')
      (h : Relaid s s') : Relaid (w ++ s) (w ++ s')
  | insert {g s s' : List Char} (hg : Layout g) (h : Relaid s s') : Relaid s (g ++ s')

/-- The texts are equal up to layout. -/
lemma Relaid.split (h : Relaid s s') :
    s' = s ∨ ∃ u v v' d, s = u ++ v ∧ s' = u ++ d :: v' ∧ (isBlankChar d ∨ d = '/') := by
  have hcons (w : List Char) {s s' : List Char}
      (ih : s' = s ∨ ∃ u v v' d, s = u ++ v ∧ s' = u ++ d :: v' ∧ (isBlankChar d ∨ d = '/')) :
      w ++ s' = w ++ s ∨ ∃ u v v' d, w ++ s = u ++ v ∧ w ++ s' = u ++ d :: v' ∧
        (isBlankChar d ∨ d = '/') := by
    rcases ih with rfl | ⟨u, v, v', d, rfl, rfl, hd⟩
    · exact .inl rfl
    · exact .inr ⟨w ++ u, v, v', d, (append_assoc w u v).symm, (append_assoc w u (d :: v')).symm,
        hd⟩
  induction h with
  | nil => exact .inl rfl
  | @line x y g => exact .inr ⟨[], '/' :: '/' :: x, '/' :: x ++ (y ++ g), '/', rfl, rfl, .inr rfl⟩
  | @blank c _ _ _ _ ih => exact hcons [c] ih
  | @comment w _ _ _ _ ih => exact hcons w ih
  | @token _ w _ _ _ _ _ ih => exact hcons w ih
  | @insert g s s' hg _ ih =>
    cases g with
    | nil => exact ih
    | cons d g => exact .inr ⟨[], s, g ++ s', d, rfl, rfl, hg.head d rfl⟩

/-- Behind a comment that runs to the end of its line. -/
lemma takes_blank_line {h : List Char} (hx : '\n' ∉ x) (hend : ∀ d ∈ (h ++ k).head?, d = '\n')
    (hh : blank.Takes h k) : blank.Takes ('/' :: '/' :: x ++ h) k := by
  have hline := takes_blank_comment (b := []) (takes_line hx hend) (forall_mem_nil _) hh
  rwa [append_nil] at hline

/-- The tokens stay the same when layout is put in. -/
theorem Relaid.sameTokens (h : Relaid s s') : SameTokens s s' := by
  induction h with
  | nil => exact .refl []
  | @line x y g hx hy hg hbreak =>
    have hxy : '\n' ∉ x ++ y := fun h => (mem_append.mp h).elim hx hy
    have hshort := takes_blank_line (h := []) (k := []) hx (fun _ hd => nomatch hd) clear_nil
    have hlong := takes_blank_line (k := []) hxy (by simpa using hbreak) (hg.takes_blank clear_nil)
    simpa using SameTokens.same hshort hlong
  | blank hc _ ih => exact ih.append (.blank hc .nil)
  | comment hw _ ih =>
    have happend := ih.append (.comment hw .nil)
    rwa [append_nil] at happend
  | @token kind w s s' hw hslash h ih =>
    have hw' : Token kind w s' := by
      rcases h.split with rfl | ⟨u, v, v', d, rfl, rfl, hd⟩
      · exact hw
      · refine hw.insert hd fun hnil hd' heq => ?_
        subst hnil hd'
        exact hslash heq rfl
    exact (Aligned.token hw hw' ih).sameTokens
  | insert hg _ ih => exact ih.layout hg

end SolidScript.Grammar
