import SolidScript.Proofs.Grammar.Alike

/-!
# Source texts are made of tokens

Whatever the grammar accepts is made of tokens, with layout between them.
-/

namespace SolidScript.Grammar

open Words Pattern List

/-! ## What is skipped -/

variable {g k w u : List Char} {c : Cursor}

lemma Layout.append {h : List Char} (hg : Layout g) (hh : Layout h) : Layout (g ++ h) := by
  induction hg with
  | nil => exact hh
  | blank hc _ ih => exact .blank hc ih
  | comment hw _ ih =>
    rw [append_assoc]
    exact .comment hw ih

lemma layout_of_blanks {b : List Char} (hb : ∀ c ∈ b, isBlankChar c) : Layout b := by
  induction b with
  | nil => exact .nil
  | cons c b ih =>
    obtain ⟨hc, hb⟩ := forall_mem_cons.mp hb
    exact .blank hc (ih hb)

lemma Layout.lexed {s : List Char} (hg : Layout g) (h : Lexed s) : Lexed (g ++ s) := by
  induction hg with
  | nil => exact h
  | blank hc _ ih => exact .blank hc ih
  | comment hw _ ih =>
    rw [append_assoc]
    exact .comment hw ih

/-- The inside of a comment ends at the first delimiter. -/
lemma not_delimited_of_takes {x : List Char}
    (h : (star (seq (absent (text "*/")) (char fun _ => true))).Takes x k) :
    ¬['*', '/'] <:+: x := by
  refine takes_star_induction h (by simp) fun u v hfirst hrest ih => ?_
  obtain ⟨_, _, rfl, habsent, hchar⟩ := takes_seq.mp hfirst
  obtain ⟨rfl, hnone⟩ := takes_absent.mp habsent
  obtain ⟨c, rfl, -⟩ := takes_char.mp hchar
  rw [nil_append, singleton_append, infix_cons_iff]
  rintro (⟨t, ht⟩ | hinner)
  · -- a delimiter at once
    have htakes : (text "*/").Takes ['*', '/'] (t ++ k) := takes_literal.mpr rfl
    have htext : ['*', '/'] ++ (t ++ k) = [c] ++ (v ++ k) := by rw [← append_assoc, ht]; rfl
    rw [Takes, htext, hnone] at htakes
    cases htakes
  · exact ih hinner

/-- A comment that the grammar takes is complete, but for its line break. -/
lemma isComment_of_takes (h : comment.Takes w k) :
    IsComment w ∨ ∃ x, w = '/' :: '/' :: x ∧ '\n' ∉ x ∧ ∀ d ∈ k.head?, d = '\n' := by
  rcases takes_alt.mp h with hline | ⟨-, hblock⟩
  · obtain ⟨_, x, rfl, hmark, hx⟩ := takes_seq.mp hline
    obtain ⟨hx, hend⟩ := takes_star_char.mp hx
    rw [takes_literal.mp hmark]
    refine .inr ⟨x, rfl, fun hbreak => ?_, fun d hd => ?_⟩
    · simpa using hx _ hbreak
    · simpa using hend d hd
  · obtain ⟨_, _, rfl, hopen, hrest⟩ := takes_seq.mp hblock
    obtain ⟨x, _, rfl, hx, hclose⟩ := takes_seq.mp hrest
    rw [takes_literal.mp hopen, takes_literal.mp hclose]
    exact .inl (.block (not_delimited_of_takes hx))

lemma layout_of_takes_seq (h : (seq comment (star blankChar)).Takes w k) :
    Layout w ∨ ∃ x, w = '/' :: '/' :: x ∧ '\n' ∉ x ∧ k = [] := by
  obtain ⟨w, b, rfl, hw, hb⟩ := takes_seq.mp h
  obtain ⟨hblank, hend⟩ := takes_star_char.mp hb
  rcases isComment_of_takes hw with hw | ⟨x, rfl, hx, hbreak⟩
  · exact .inl (.comment hw (layout_of_blanks hblank))
  · cases b with
    | nil =>
      -- a line break would have been taken
      cases k with
      | nil => exact .inr ⟨x, append_nil _, hx, rfl⟩
      | cons d k =>
        have hd := hend d rfl
        rw [hbreak d rfl] at hd
        nomatch hd
    | cons d b =>
      obtain rfl := hbreak d rfl
      have hrest := layout_of_blanks fun c hc => hblank c (mem_cons_of_mem _ hc)
      have hline := Layout.comment (.line hx) hrest
      left
      simpa using hline

lemma layout_of_takes_star {t : List Char} (h : (star (seq comment (star blankChar))).Takes t u) :
    Layout t ∨ ∃ g x, t = g ++ '/' :: '/' :: x ∧ Layout g ∧ '\n' ∉ x ∧ u = [] := by
  refine takes_star_induction h (.inl .nil) fun w v hfirst _ ih => ?_
  rcases layout_of_takes_seq hfirst with hw | ⟨x, rfl, hx, hnil⟩
  · rcases ih with hv | ⟨g, x, rfl, hg, hx, hu⟩
    · exact .inl (hw.append hv)
    · exact .inr ⟨w ++ g, x, (append_assoc w g _).symm, hw.append hg, hx, hu⟩
  · obtain ⟨rfl, rfl⟩ := append_eq_nil_iff.mp hnil
    exact .inr ⟨[], x, append_nil _, .nil, hx, rfl⟩

/-- What the grammar skips is layout; at the end of the text, a comment may lack its line break. -/
lemma layout_of_takes (h : blank.Takes g u) :
    Layout g ∨ ∃ f x, g = f ++ '/' :: '/' :: x ∧ Layout f ∧ '\n' ∉ x ∧ u = [] := by
  obtain ⟨b, t, rfl, hb, ht⟩ := takes_seq.mp h
  have hblanks := layout_of_blanks (takes_star_char.mp hb).1
  rcases layout_of_takes_star ht with ht | ⟨f, x, rfl, hf, hx, hu⟩
  · exact .inl (hblanks.append ht)
  · exact .inr ⟨b ++ f, x, (append_assoc b f _).symm, hblanks.append hf, hx, hu⟩

lemma lexed_of_takes (hg : blank.Takes g u) (h : Lexed u) : Lexed (g ++ u) := by
  rcases layout_of_takes hg with hg | ⟨h, x, rfl, hh, hx, rfl⟩
  · exact hg.lexed h
  · rw [append_nil]
    exact hh.lexed (.line hx)

lemma exists_line (s : List Char) : ∃ x r, s = x ++ r ∧ '\n' ∉ x ∧ ∀ d ∈ r.head?, d = '\n' := by
  induction s with
  | nil => exact ⟨[], [], rfl, not_mem_nil, fun _ hd => nomatch hd⟩
  | cons c s ih =>
    by_cases hc : c = '\n'
    · exact ⟨[], c :: s, rfl, not_mem_nil, fun d hd => by cases hd; exact hc⟩
    · obtain ⟨x, r, rfl, hx, hr⟩ := ih
      exact ⟨c :: x, r, rfl, not_mem_cons_of_ne_of_not_mem (Ne.symm hc) hx, hr⟩

/-- No comment to the end of a line stands behind what the grammar skips. -/
lemma ne_line_of_takes (hg : blank.Takes g u) (s : List Char) : u ≠ '/' :: '/' :: s := by
  rintro rfl
  rcases layout_of_takes hg with hlayout | ⟨_, _, -, -, -, hnil⟩
  · -- the comment would have been skipped, too
    obtain ⟨x, r, rfl, hx, hr⟩ := exists_line s
    obtain ⟨f, v, rfl, hf⟩ := exists_blank r
    have hlong := hlayout.takes_blank (takes_blank_line hx hr hf)
    obtain ⟨hskipped, -⟩ := hg.unique hlong (by simp)
    simp at hskipped
  · nomatch hnil

/-! ## What is taken -/

lemma isQuoted_of_takes {v : List Char} (h : stringInner.Takes v k) : IsQuoted v := by
  refine takes_star_induction h .nil fun w u hfirst _ hu => ?_
  rcases takes_alt.mp hfirst with hescaped | ⟨-, hplain⟩
  · obtain ⟨_, _, rfl, hslash, hchar⟩ := takes_seq.mp hescaped
    obtain ⟨c, rfl, -⟩ := takes_char.mp hchar
    rw [takes_literal.mp hslash]
    exact .escaped hu
  · obtain ⟨c, rfl, hc⟩ := takes_char.mp hplain
    obtain ⟨hquote, hslash⟩ := Bool.and_eq_true_iff.mp hc
    exact .plain (of_decide_eq_true hquote) (of_decide_eq_true hslash) hu

/-- A reserved word that is not the beginning of a longer one. -/
lemma token_of_reserved {p : Pattern} (hp : ∀ u v, p.Takes u v → String.ofList u ∈ reservedWords)
    (h : (seq p (absent wordChar)).Takes w k) : Token .word w k := by
  obtain ⟨u, _, rfl, hu, hend⟩ := takes_seq.mp h
  obtain ⟨rfl, hnone⟩ := takes_absent.mp hend
  rw [append_nil]
  have hall : reservedWords.all (fun s => s.toList.head?.any isNameStart &&
      s.toList.all isWordChar) = true := by decide
  obtain ⟨hstart, hword⟩ := Bool.and_eq_true_iff.mp (all_eq_true.mp hall _ (hp u _ hu))
  rw [String.toList_ofList] at hstart hword
  cases u with
  | nil => nomatch hstart
  | cons c v =>
    have hv : ∀ x ∈ v, isWordChar x := fun x hx => all_eq_true.mp hword x (mem_cons_of_mem c hx)
    exact .word hstart hv (take_wordChar_eq_none.mp hnone)

/-- The text up to `k` is made of tokens if the rest is; or a symbol was not taken as a whole. -/
def Lexes (breaks : Char → Bool) (s k : List Char) : Prop :=
  (Lexed k → Lexed s) ∨ ∃ x ∈ Peg.breakers, breaks x ∧ k.head? = some x

namespace Lexes

variable {breaks breaks' : Char → Bool} {r s k : List Char}

lemma refl (s : List Char) : Lexes breaks s s := .inl id

lemma mono (h : Lexes breaks s k) (hbreaks : ∀ {x}, x ∈ Peg.breakers → breaks x → breaks' x) :
    Lexes breaks' s k :=
  h.imp_right fun ⟨x, hx, hb, hk⟩ => ⟨x, hx, hbreaks hx hb, hk⟩

/-- More that is made of tokens stands in front. -/
lemma prepend (h : Lexes breaks s k) (hr : Lexed s → Lexed r) : Lexes breaks r k :=
  h.imp_left hr.comp

end Lexes

/-- No comment to the end of a line starts here. -/
def Uncommented (s : List Char) : Prop := ∀ t, s ≠ '/' :: '/' :: t

/-- A symbol is a token, unless an equals sign or a star would make it longer. -/
lemma lexes_symbol {s : String} (hs : s ∈ symbols)
    (hclear : Uncommented (s.toList ++ k)) : Lexes (text s).breaks (s.toList ++ k) k := by
  by_cases hk : ∃ d ∈ k.head?, ∃ t ∈ symbols ++ commentMarks, t.toList = s.toList ++ [d]
  · obtain ⟨d, hd, t, ht, hts⟩ := hk
    have hall : (symbols ++ commentMarks).all (fun t => t.toList.getLast?.any (· ∈ Peg.breakers) ||
      t = "//" ||
        symbols.all (·.toList ≠ t.toList.dropLast)) = true := by decide
    have hlast := all_eq_true.mp hall t ht
    rw [hts, getLast?_concat, dropLast_concat, Bool.or_eq_true, Bool.or_eq_true] at hlast
    rcases hlast with (hbreaker | hline) | hother
    · refine .inr ⟨d, of_decide_eq_true hbreaker, any_eq_true.mpr ⟨t, ht, ?_⟩, hd⟩
      have htakes : (text s).Takes s.toList [d] := takes_literal.mpr rfl
      rw [Takes, ← hts] at htakes
      rw [htakes]
      simp
    · -- a comment would have been skipped
      have hmark : s.toList ++ [d] = ['/'] ++ ['/'] := by
        rw [← hts, of_decide_eq_true hline]
        rfl
      obtain ⟨hslash, hd'⟩ := append_inj' hmark rfl
      obtain ⟨k, rfl⟩ := head?_eq_some_iff.mp hd
      cases hd'
      exact absurd (by rw [hslash]; rfl) (hclear k)
    · exact absurd rfl (of_decide_eq_true (all_eq_true.mp hother s hs))
  · exact .inl (.token (.symbol hs fun d hd t ht hts => hk ⟨d, hd, t, ht, hts⟩))

lemma Terminal.lexes {kind : TokenKind} {p : Pattern} (hp : Terminal kind p) (h : p.Takes w k)
    (hclear : Uncommented (w ++ k)) : Lexes p.breaks (w ++ k) k := by
  cases hp with
  | symbol hs =>
    obtain rfl := takes_literal.mp h
    exact lexes_symbol hs hclear
  | keyword hs =>
    refine .inl (.token (token_of_reserved (fun u v hu => ?_) h))
    rwa [takes_literal.mp hu, String.ofList_toList]
  | boolean =>
    refine .inl (.token (token_of_reserved (fun u v hu => ?_) h))
    rcases takes_alt.mp hu with hu | ⟨-, hu⟩
    · rw [takes_literal.mp hu]
      decide
    · rw [takes_literal.mp hu]
      decide
  | identifier =>
    obtain ⟨-, ⟨c, v, rfl, hc, hv⟩, hk⟩ := takes_identifier.mp h
    exact .inl (.token (.word hc hv hk))
  | number => exact .inl (.token (.number h))

lemma lexes_string {d : Cursor} {ns : List Tree} (hc : c.Sound)
    (h : Parses programs false (.one (.rule .string)) c (some (d, ns)))
    (breaks : Char → Bool) : Lexes breaks c.rest d.rest := by
  obtain ⟨v, k, hrest, hv⟩ := string_of_parses hc h
  obtain ⟨e, ms, hparses, rfl, -⟩ := reads_string hv c hc (by simpa using hrest)
  cases h.unique hparses
  have htoken : '"' :: (v ++ '"' :: d.rest) = '"' :: (v ++ ['"']) ++ d.rest := by simp
  rw [hrest, htoken]
  exact .inl (.token (.string (isQuoted_of_takes hv)))

lemma lexed_gap (hc : c.Sound) :
    Uncommented (programs.gap false c).rest ∧
      (Lexed (programs.gap false c).rest → Lexed c.rest) := by
  obtain ⟨g, u, hrest, hg⟩ := exists_blank c.rest
  rw [Gap.rest (j := false) hg hc hrest, hrest]
  exact ⟨ne_line_of_takes hg, lexed_of_takes hg⟩

/-- A repetition ends where a symbol was not taken as a whole. -/
lemma Lexes.more {a : Peg Name} {r : List Char} {d e : Cursor} {ys : List Tree}
    (h : Lexes a.breaks r d.rest) (hd : d.Sound) (hstops : a.stops a)
    (hm : Parses programs false (.more a) d (some (e, ys))) (hrest : Lexes a.breaks d.rest e.rest) :
    Lexes a.breaks r e.rest := by
  rcases h with h | ⟨x, hx, hb, hhead⟩
  · exact hrest.prepend h
  · cases hm.unique
      (.more_none (parses_none_of_refuses hx (Peg.refuses_of_stops hstops hx hb) hd hhead))
    exact .inr ⟨x, hx, hb, hhead⟩

/-- What the grammar takes is made of tokens, if what stands behind it is. Each part starts where no
comment does, and nothing goes on in the middle of a symbol. -/
theorem Parses.lexes {j : Bool} {ph : Phase Name} {r : Outcome} (h : Parses programs j ph c r) :
    j = false → ph.Safe → c.Sound → (∀ e, ph = .one e → Uncommented c.rest) →
      ∀ d ns, r = some (d, ns) → Lexes ph.peg.breaks c.rest d.rest := by
  induction h with
  | token h =>
    rintro rfl ⟨kind, hp⟩ hc hstart _ _ ⟨⟩
    obtain ⟨-, w, hw, htakes⟩ := Cursor.take?_eq_some hc h
    have hclear := hstart _ rfl
    rw [hw] at hclear ⊢
    exact hp.lexes htakes hclear
  | absent | finish =>
    rintro rfl - - - _ _ ⟨⟩
    exact .refl _
  | token_none | absent_none | finish_none | rule_none | seq_none_left | seq_none_right =>
    intro _ _ _ _ d ns hr
    nomatch hr
  | @rule j q c d ns h ih =>
    rintro rfl ⟨hprogram, hinner⟩ hc hstart _ _ ⟨⟩
    by_cases hstring : q = .string
    · subst hstring
      exact lexes_string hc (.rule h) _
    · have hjoined := joined_eq_false hstring
      exact (ih hjoined (safe_body q hprogram hstring hinner) hc (fun _ _ => hstart _ rfl) _ _
        rfl).mono (breaks_body q)
  | @seq j a b c d e xs ys ha hb iha ihb =>
    rintro rfl ⟨hsafe, hsafe', hstops⟩ hc hstart _ _ ⟨⟩
    have hd := (ha.sound hc _ _ rfl).1
    obtain ⟨hclear, hgap⟩ := lexed_gap hd
    rcases iha rfl hsafe hc (fun _ _ => hstart _ rfl) _ _ rfl with hfirst | ⟨x, hx, hbroken, hhead⟩
    · have hrest := ihb rfl hsafe' (programs.gap_sound hd false).1 (fun _ _ => hclear) _ _ rfl
      exact hrest.prepend (hfirst ∘ hgap)
    · nomatch hb.unique
        (parses_none_of_refuses hx (Peg.refuses_of_stops hstops hx hbroken) hd hhead)
  | @alt_left j a b c d xs ha iha =>
    rintro rfl ⟨hsafe, -⟩ hc hstart _ _ ⟨⟩
    refine (iha rfl hsafe hc (fun _ _ => hstart _ rfl) _ _ rfl).mono fun _ hb => ?_
    exact Bool.or_eq_true_iff.mpr (.inl hb)
  | @alt_right j a b c r ha hb iha ihb =>
    rintro rfl ⟨-, hsafe⟩ hc hstart d ns hr
    refine (ihb rfl hsafe hc (fun _ _ => hstart _ rfl) d ns hr).mono fun _ hb => ?_
    exact Bool.or_eq_true_iff.mpr (.inr hb)
  | opt ha iha =>
    rintro rfl hsafe hc hstart _ _ ⟨⟩
    exact iha rfl hsafe hc (fun _ _ => hstart _ rfl) _ _ rfl
  | opt_none | star_none | more_none =>
    rintro rfl - - - _ _ ⟨⟩
    exact .refl _
  | @star j a c d e xs ys ha hm iha ihm =>
    rintro rfl hsafe hc hstart _ _ ⟨⟩
    have hd := (ha.sound hc _ _ rfl).1
    have hfirst := iha rfl hsafe.1 hc (fun _ _ => hstart _ rfl) _ _ rfl
    exact hfirst.more hd hsafe.2.2 hm (ihm rfl hsafe hd (fun _ h => nomatch h) _ _ rfl)
  | @more j a c d e xs ys ha hlt hm iha ihm =>
    rintro rfl hsafe hc hstart _ _ ⟨⟩
    obtain ⟨hclear, hgap⟩ := lexed_gap hc
    have hcgap := (programs.gap_sound hc false).1
    have hd := (ha.sound hcgap _ _ rfl).1
    have hfirst := iha rfl hsafe.1 hcgap (fun _ _ => hclear) _ _ rfl
    have hmore := ihm rfl hsafe hd (fun _ h => nomatch h) _ _ rfl
    exact (hfirst.more hd hsafe.2.2 hm hmore).prepend hgap
  | more_stuck ha hlt iha =>
    rintro rfl ⟨-, hstrict, -⟩ hc hstart _ _ ⟨⟩
    exact absurd (ha.left_lt_of_isStrict hc hstrict) hlt

/-- A source text with a tree is made of tokens. -/
theorem lexed_of_parse {source : String} {tree : Tree} (hparse : parse source = .ok tree) :
    Lexed source.toList := by
  obtain ⟨d, hd⟩ := parse_eq_ok.mp hparse
  have hc := Cursor.sound_start source.toList
  obtain ⟨hclear, hgap⟩ := lexed_gap hc
  generalize hns : [tree] = ns at hd
  cases hd with
  | rule hbody =>
    cases hbody with
    | seq hstart hrest =>
      cases hstart with
      | token hstart =>
        cases hstart
        have hlexes :=
          hrest.lexes rfl safe_program (programs.gap_sound hc false).1 (fun _ _ => hclear) _ _ rfl
        have hend : d.rest = [] := by
          cases hrest with
          | seq _ hfinish =>
            cases hfinish with
            | rule hfinish =>
              cases hfinish with
              | finish hend => exact hend
        rcases hlexes with hlexed | ⟨_, -, -, hhead⟩
        · refine hgap (hlexed ?_)
          rw [hend]
          exact .nil
        · rw [hend] at hhead
          nomatch hhead

end SolidScript.Grammar
