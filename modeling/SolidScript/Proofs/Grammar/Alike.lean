import SolidScript.Proofs.Grammar.Layout
import SolidScript.Proofs.Grammar.Reads
import SolidScript.Proofs.Grammar.Tree

/-!
# Parsing texts with the same tokens

Source texts with the same tokens have the same tree, but for places and for layout in the texts of
its nodes. The grammar looks at no part of a text twice in different ways, except that a symbol may
be taken up to an equals sign at its end; whatever comes next in the grammar then fails.
-/

namespace SolidScript.Grammar

open Words Pattern Aligned List Cursor Tree Phase Peg

/-! ## Expressions that are safe -/

namespace Peg

/-- The characters that a symbol can be taken up to: an equals sign, or the star of a comment. -/
def breakers : List Char := ['=', '*']

/-- Rules that can end in front of one of them. -/
def breaksRule (r : Name) (x : Char) : Bool :=
  if x = '=' then r = .modifier || r = .unaryOp || r = .cmpOp else r = .mulOp

/-- The expression can end in the middle of a symbol, in front of this character. -/
def breaks : Peg Name → Char → Bool
  | token p, x => p.breaks x
  | absent _, _ => false
  | finish, _ => false
  | rule r, x => breaksRule r x
  | seq _ b, x => b.breaks x
  | alt a b, x => a.breaks x || b.breaks x
  | opt a, x => a.breaks x
  | star a, x => a.breaks x

/-- The expression does not match in front of this character. -/
def refuses (e : Peg Name) (x : Char) : Bool :=
  e.isStrict (programs.isStrict 20) && !e.starts (programs.isStrict 20) (programs.starts x 20) x

/-- Nothing goes on with `b` where `a` ends in the middle of a symbol. -/
def stops (a b : Peg Name) : Bool := breakers.all fun x => !a.breaks x || b.refuses x

lemma refuses_of_stops {a b : Peg Name} (h : a.stops b) {x : Char} (hx : x ∈ breakers)
    (ha : a.breaks x) : b.refuses x := by
  simpa [ha] using all_eq_true.mp h x hx

/-- Tokens are taken by terminals only, and nothing goes on in the middle of a symbol. -/
def Safe : Peg Name → Prop
  | token p => ∃ kind, Terminal kind p
  | absent p => ∃ kind, Terminal kind p
  | finish => True
  | rule r => r ≠ .program ∧ r ≠ .stringInner
  | seq a b => a.Safe ∧ b.Safe ∧ a.stops b
  | alt a b => a.Safe ∧ b.Safe
  | opt a => a.Safe
  | star a => a.Safe ∧ a.isStrict (programs.isStrict 20) ∧ a.stops a

/-- The expression takes part of one token. -/
def isFlat : Peg Name → Bool
  | token _ => true
  | alt a b => a.isFlat && b.isFlat
  | _ => false

end Peg

lemma safe_body (r : Name) (hprogram : r ≠ .program) (hstring : r ≠ .string)
    (hinner : r ≠ .stringInner) : (programs.rules r).body.Safe := by
  cases r
  case program => exact absurd rfl hprogram
  case string => exact absurd rfl hstring
  case stringInner => exact absurd rfl hinner
  case number => exact ⟨_, .number⟩
  case identifier => exact ⟨_, .identifier⟩
  case boolean => exact ⟨_, .boolean⟩
  case undefined => exact ⟨_, .keyword (by decide)⟩
  case wordModule => exact ⟨_, .keyword (by decide)⟩
  case wordFunction => exact ⟨_, .keyword (by decide)⟩
  case wordIf => exact ⟨_, .keyword (by decide)⟩
  case wordElse => exact ⟨_, .keyword (by decide)⟩
  case wordFor => exact ⟨_, .keyword (by decide)⟩
  case finish => trivial
  all_goals
    repeat' apply And.intro
    all_goals first
      | exact ⟨_, .symbol (by decide)⟩
      | decide

lemma breaks_body (r : Name) {x : Char} (hx : x ∈ breakers)
    (h : (programs.rules r).body.breaks x) : breaksRule r x := by
  have hall :
      breakers.all (fun x => !(programs.rules r).body.breaks x || breaksRule r x) := by
    cases r <;> decide
  simpa [h] using all_eq_true.mp hall x hx

lemma isFlat_body (r : Name) : r.kind ∈ wordKinds → (programs.rules r).body.isFlat := by
  cases r <;> decide

lemma joined_eq_false {r : Name} (hr : r ≠ .string) : (programs.rules r).joined = false := by
  cases r
  case string => exact absurd rfl hr
  all_goals rfl

/-! ## Outcomes -/

/-- Outcomes that are the same but for the layout. -/
inductive Outcome.Alike (breaks flat : Bool) (c c' : Cursor) : Outcome → Outcome → Prop where
  | none : Outcome.Alike breaks flat c c' none none
  | some {d d' : Cursor} {ns ns' : List Tree} (hrest : Abreast breaks d.rest d'.rest)
      (hnodes : ns.map bare = ns'.map bare)
      (htext : flat → ∃ w, c.rest = w ++ d.rest ∧ c'.rest = w ++ d'.rest) :
      Outcome.Alike breaks flat c c' (some (d, ns)) (some (d', ns'))

namespace Phase

def Safe : Phase Name → Prop
  | one e => e.Safe
  | more e => (star e).Safe

def isFlat : Phase Name → Bool
  | one e => e.isFlat
  | more _ => false

/-- Where parsing starts: at a token, or behind an occurrence. -/
def Starts (ph : Phase Name) (c c' : Cursor) : Prop :=
  match ph with
  | one _ => Aligned c.rest c'.rest
  | more e => Abreast (e.breaks '=') c.rest c'.rest

end Phase

variable {c c' d : Cursor} {r : Outcome}

lemma SameTokens.aligned_gap (h : SameTokens c.rest c'.rest) (hc : c.Sound)
    (hc' : c'.Sound) : Aligned (programs.gap false c).rest (programs.gap false c').rest := by
  have hgap {g u : List Char} {c : Cursor} (hc : c.Sound) (hrest : c.rest = g ++ u)
    (hg : blank.Takes g u) :
      (programs.gap false c).rest = u := Gap.rest (j := false) hg hc hrest
  generalize hu : c.rest = u at h
  generalize hu' : c'.rest = u' at h
  cases h with
  | same hg hg' =>
    rw [hgap hc hu hg, hgap hc' hu' hg']
    exact .same
  | token hg hg' hw hw' h =>
    rw [hgap hc hu hg, hgap hc' hu' hg']
    exact .token hw hw' h

/-- Nothing goes on in the middle of a symbol. -/
lemma parses_none_of_refuses {e : Peg Name} {x : Char} (hx : x ∈ breakers) (he : e.refuses x)
    (hc : c.Sound) (hrest : c.rest.head? = some x) :
    Parses programs false (.one e) (programs.gap false c) none := by
  obtain ⟨s, hs⟩ : ∃ s, c.rest = x :: s := head?_eq_some_iff.mp hrest
  obtain ⟨hstrict, hstarts⟩ := Bool.and_eq_true_iff.mp he
  have hplain : breakers.all isPlain = true := by decide
  have hclear : Clear (x :: s) := clear_cons (all_eq_true.mp hplain x hx)
  refine Refuses.of_starts hstrict ((Bool.not_eq_true' _).mp hstarts) hclear _
    (programs.gap_sound hc false).1 ?_
  exact (Gap.rest (j := false) (w := []) hclear hc hs)

/-- At another place, parsing comes to an outcome that is the same but for the layout. -/
def Phase.Agrees (ph : Phase Name) (c : Cursor) (r : Outcome) (c' : Cursor) : Prop :=
  ∃ r', Parses programs false ph c' r' ∧ Outcome.Alike (ph.peg.breaks '=') ph.isFlat c c' r r'

/-! ## Strings -/

/-- The nodes of a string, without places. -/
def stringNodes (v : List Char) : List Tree :=
  [.node "string" "" .start [.node "string_inner" (String.ofList v) .start []]]

lemma reads_string {v k : List Char} (h : stringInner.Takes v ('"' :: k)) :
    Reads false (.rule .string) ('"' :: (v ++ ['"'])) k fun ns => ns.map bare =
      stringNodes v := by
  have hinner : Reads true (.rule .stringInner) v ('"' :: k)
      (One fun t => t.bare = .node "string_inner" (String.ofList v) .start []) := by
    refine .node rfl (.token h) fun pos ns hns => ?_
    rw [hns]
    rfl
  have hstring : Reads false (.rule .string) ('"' :: (v ++ ['"'])) k
      (One fun t => [t.bare] = stringNodes v) := by
    refine .node rfl (.sym_seq "\"" (gap_joined _) (hinner.seq_sym "\"" (gap_joined _))) ?_
    rintro pos ns ⟨t, rfl, ht⟩
    rw [bare, bareAll, ht]
    rfl
  refine hstring.imp ?_
  rintro ns ⟨t, rfl, ht⟩
  exact ht

lemma string_of_parses {ns : List Tree} (hc : c.Sound)
    (h : Parses programs false (.one (.rule .string)) c (some (d, ns))) :
    ∃ v k, c.rest = '"' :: (v ++ '"' :: k) ∧ stringInner.Takes v ('"' :: k) := by
  cases h with
  | rule h =>
    cases h with
    | seq hopen hrest =>
      cases hrest with
      | seq hinner hclose =>
        cases hinner with
        | rule hinner =>
          cases hopen with
          | token hopen =>
            cases hinner with
            | token hinner =>
              cases hclose with
              | token hclose =>
                -- each part starts where the one in front of it ends
                obtain ⟨ha, _, hcrest, hquote⟩ := take?_eq_some hc hopen
                obtain ⟨hb, v, harest, hv⟩ := take?_eq_some ha hinner
                obtain ⟨-, _, hbrest, hquote'⟩ := take?_eq_some hb hclose
                rw [takes_literal.mp hquote] at hcrest
                rw [takes_literal.mp hquote'] at hbrest
                refine ⟨v, d.rest, ?_, ?_⟩
                · rw [hcrest, harest, hbrest]
                  rfl
                · rw [hbrest] at hv
                  exact hv

/-- Strings are parsed alike. -/
lemma agrees_string (h : Parses programs false (.one (.rule .string)) c r) (hc : c.Sound)
    (hc' : c'.Sound) (hrest : Aligned c.rest c'.rest) : (one (.rule .string)).Agrees c r c' := by
  cases r with
  | none =>
    obtain ⟨r', hr'⟩ := ranked_programs.exists_parses false (.rule .string) hc'
    cases r' with
    | none => exact ⟨none, hr', .none⟩
    | some parsed =>
      obtain ⟨v, k', hv, htakes⟩ := string_of_parses hc' hr'
      obtain ⟨k, hk, htakes, -⟩ := hrest.symm.string hv htakes
      obtain ⟨d, ns, hparses, -⟩ := reads_string htakes c hc (by simpa using hk)
      nomatch h.unique hparses
  | some parsed =>
    obtain ⟨d, ns⟩ := parsed
    obtain ⟨v, k, hv, htakes⟩ := string_of_parses hc h
    obtain ⟨k', hk', htakes', hsame⟩ := hrest.string hv htakes
    obtain ⟨e, ms, hparses, he, hms⟩ := reads_string htakes c hc (by simpa using hv)
    obtain ⟨d', ns', hparses', hd', hns'⟩ := reads_string htakes' c' hc' (by simpa using hk')
    cases h.unique hparses
    refine ⟨_, hparses', .some (.inl ?_) (hms.trans hns'.symm) fun hflat => nomatch hflat⟩
    rwa [he, hd']

lemma bare_leaves {r : Name} {d' : Cursor} {ns ns' : List Tree} (hc : c.Sound) (hc' : c'.Sound)
    (hd : d.Sound) (hd' : d'.Sound) (hnodes : ns.map bare = ns'.map bare)
    (htext : (programs.rules r).body.isFlat → ∃ w, c.rest = w ++ d.rest ∧ c'.rest = w ++ d'.rest) :
    (programs.leaves r c d ns).map bare = (programs.leaves r c' d' ns').map bare := by
  unfold RuleSet.leaves
  split
  · have hwords : r.kind ∈ wordKinds → c.textTo d = c'.textTo d' := fun hkind => by
      obtain ⟨w, hw, hw'⟩ := htext (isFlat_body r hkind)
      rw [textTo_eq hc hd hw, textTo_eq hc' hd' hw']
    rw [List.map_singleton, List.map_singleton, bare, bare, bareAll_eq_map,
      bareAll_eq_map, hnodes]
    change [node r.kind (if r.kind ∈ wordKinds then c.textTo d else "") _ _] =
      [node r.kind (if r.kind ∈ wordKinds then c'.textTo d' else "") _ _]
    split
    · rw [hwords ‹_›]
    · rfl
  · rfl
  · exact hnodes

/-- A strict expression makes a repetition go on. -/
lemma Parses.left_lt_of_isStrict {a : Peg Name} {xs : List Tree} {n : Nat}
    (h : Parses programs false (.one a) (programs.gap false c) (some (d, xs))) (hc : c.Sound)
    (hstrict : a.isStrict (programs.isStrict n)) : d.left < c.left := by
  obtain ⟨hgap, hgapsuffix⟩ := programs.gap_sound hc false
  obtain ⟨hd, hsuffix⟩ := h.sound hgap _ _ rfl
  have hlt := left_lt hgap hd hsuffix (h.ne_of_isStrict hgap n _ _ _ rfl rfl hstrict)
  exact lt_of_lt_of_le hlt (left_le hc hgap hgapsuffix)

/-! ## Parsing texts with the same tokens -/

lemma Abreast.mono {breaks breaks' : Bool} {k k' : List Char} (h : Abreast breaks k k')
    (hbreaks : breaks → breaks') : Abreast breaks' k k' :=
  h.imp_right fun ⟨hb, hequals⟩ => ⟨hbreaks hb, hequals⟩

lemma Aligned.abreast {breaks : Bool} {u u' : List Char} (h : Aligned u u') : Abreast breaks u u' :=
  .inl h.sameTokens

/-- A terminal is taken at both places or at none. -/
lemma Aligned.take? {kind : TokenKind} {p : Pattern} (h : Aligned c.rest c'.rest)
    (hp : Terminal kind p) (hc : c.Sound) (hc' : c'.Sound) :
    c.take? p = none ∧ c'.take? p = none ∨
      ∃ d d' w, c.take? p = some d ∧ c'.take? p = some d' ∧ c.rest = w ++ d.rest ∧
      c'.rest = w ++ d'.rest ∧
        Abreast (p.breaks '=') d.rest d'.rest := by
  rcases h.take hp with ⟨hnone, hnone'⟩ | ⟨w, k, k', hw, hw', htakes, htakes', hrest⟩
  · exact .inl ⟨take?_eq_none.mpr hnone, take?_eq_none.mpr hnone'⟩
  · obtain ⟨d, hd, -, rfl⟩ := exists_take? hc hw htakes
    obtain ⟨d', hd', -, rfl⟩ := exists_take? hc' hw' htakes'
    exact .inr ⟨d, d', w, hd, hd', hw, hw', hrest⟩

/-- The next part starts at a token; in the middle of a symbol it fails. -/
lemma agrees_next {a b : Peg Name} {d' : Cursor} (hrest : Abreast (a.breaks '=') d.rest d'.rest)
    (hstops : a.stops b) (hd : d.Sound) (hd' : d'.Sound)
    (hb : Parses programs false (.one b) (programs.gap false d) r)
    (ih : ∀ c', c'.Sound → Aligned (programs.gap false d).rest c'.rest →
      (one b).Agrees (programs.gap false d) r c') :
    (one b).Agrees (programs.gap false d) r (programs.gap false d') := by
  rcases hrest with hrest | ⟨hbroken, hequals, hequals'⟩
  · exact ih _ (programs.gap_sound hd' false).1 (hrest.aligned_gap hd hd')
  · have hrefuses := refuses_of_stops hstops mem_cons_self hbroken
    cases hb.unique (parses_none_of_refuses mem_cons_self hrefuses hd hequals)
    exact ⟨none, parses_none_of_refuses mem_cons_self hrefuses hd' hequals', .none⟩

lemma agrees_rule {q : Name} (hq : q ≠ .string) (hc : c.Sound) (hc' : c'.Sound)
    (h : Parses programs false (.one (programs.rules q).body) c r)
    (hbody : (one (programs.rules q).body).Agrees c r c') :
    (one (.rule q)).Agrees c (r.map fun (d, ns) => (d, programs.leaves q c d ns)) c' := by
  have hjoined := joined_eq_false hq
  obtain ⟨_, h', halike⟩ := hbody
  cases halike with
  | none => exact ⟨none, .rule_none (by rw [hjoined]; exact h'), .none⟩
  | some hrest hnodes htext =>
    have hrest := hrest.mono (breaks_body q mem_cons_self)
    refine ⟨_, .rule (by rw [hjoined]; exact h'), .some hrest ?_ fun hflat => nomatch hflat⟩
    exact bare_leaves hc hc' (h.sound hc _ _ rfl).1 (h'.sound hc' _ _ rfl).1 hnodes htext

section

variable {a b : Peg Name} {p : Pattern} {e : Cursor} {xs ys : List Tree}

/-- A token is taken at both places or at none. -/
lemma agrees_token (h : Parses programs false (.one (.token p)) c r) (hp : (token p).Safe)
    (hc : c.Sound) (hc' : c'.Sound) (hstart : Aligned c.rest c'.rest) :
    (one (.token p)).Agrees c r c' := by
  obtain ⟨kind, hp⟩ := hp
  rcases take? hstart hp hc hc' with ⟨hnone, hnone'⟩ | ⟨d, d', w, hd, hd', hw, hw', hrest⟩
  · cases h.unique (.token_none hnone)
    exact ⟨_, .token_none hnone', .none⟩
  · cases h.unique (.token hd)
    exact ⟨_, .token hd', .some hrest rfl fun _ => ⟨w, hw, hw'⟩⟩

/-- A token is missing at both places or at none. -/
lemma agrees_absent (h : Parses programs false (.one (.absent p)) c r) (hp : (Peg.absent p).Safe)
    (hc : c.Sound) (hc' : c'.Sound) (hstart : Aligned c.rest c'.rest) :
    (one (.absent p)).Agrees c r c' := by
  obtain ⟨kind, hp⟩ := hp
  rcases take? hstart hp hc hc' with ⟨hnone, hnone'⟩ | ⟨d, d', w, hd, hd', -⟩
  · cases h.unique (.absent hnone)
    exact ⟨_, .absent hnone', .some (abreast hstart) rfl nofun⟩
  · cases h.unique (.absent_none hd)
    exact ⟨_, .absent_none hd', .none⟩

/-- Two parts behind each other agree if the second one does behind either end of the first. -/
lemma agrees_seq (ha : (one a).Agrees c (some (d, xs)) c') (hc' : c'.Sound)
    (hb : ∀ d', d'.Sound → Abreast (a.breaks '=') d.rest d'.rest →
      (one b).Agrees (programs.gap false d) r (programs.gap false d')) :
    (one (.seq a b)).Agrees c (r.map fun (e, ys) => (e, xs ++ ys)) c' := by
  obtain ⟨_, ha', _ | ⟨hrest, hxs, -⟩⟩ := ha
  obtain ⟨_, hb', _ | ⟨hrest, hys, -⟩⟩ := hb _ (ha'.sound hc' _ _ rfl).1 hrest
  · exact ⟨_, .seq_none_right ha' hb', .none⟩
  · refine ⟨_, .seq ha' hb', .some hrest ?_ nofun⟩
    rw [map_append, map_append, hxs, hys]

/-- The first choice is made at both places. -/
lemma agrees_alt_left (ha : (one a).Agrees c (some (d, xs)) c') :
    (one (.alt a b)).Agrees c (some (d, xs)) c' := by
  obtain ⟨_, ha', _ | ⟨hrest, hxs, htext⟩⟩ := ha
  refine ⟨_, .alt_left ha', .some (hrest.mono fun h => ?_) hxs fun hflat => htext ?_⟩
  · exact Bool.or_eq_true_iff.mpr (.inl h)
  · exact (Bool.and_eq_true_iff.mp hflat).1

/-- The second choice is made at both places. -/
lemma agrees_alt_right (ha : (one a).Agrees c none c') (hb : (one b).Agrees c r c') :
    (one (.alt a b)).Agrees c r c' := by
  obtain ⟨_, ha', ⟨⟩⟩ := ha
  obtain ⟨_, hb', _ | ⟨hrest, hxs, htext⟩⟩ := hb
  · exact ⟨_, .alt_right ha' hb', .none⟩
  · refine ⟨_, .alt_right ha' hb', .some (hrest.mono fun h => ?_) hxs fun hflat => htext ?_⟩
    · exact Bool.or_eq_true_iff.mpr (.inr h)
    · exact (Bool.and_eq_true_iff.mp hflat).2

/-- An occurrence and those behind it, at both places. -/
lemma exists_agreeing {c c' : Cursor} (ha : (one a).Agrees c (some (d, xs)) c')
    (hc' : c'.Sound)
    (hm : ∀ d', d'.Sound → Abreast (a.breaks '=') d.rest d'.rest →
      (more a).Agrees d (some (e, ys)) d') :
    ∃ d' e' xs' ys', Parses programs false (.one a) c' (some (d', xs')) ∧
      Parses programs false (.more a) d' (some (e', ys')) ∧ Abreast (a.breaks '=') e.rest e'.rest ∧
      (xs ++ ys).map bare = (xs' ++ ys').map bare := by
  obtain ⟨_, ha', _ | ⟨hrest, hxs, -⟩⟩ := ha
  obtain ⟨_, hm', _ | ⟨hrest, hys, -⟩⟩ := hm _ (ha'.sound hc' _ _ rfl).1 hrest
  exact ⟨_, _, _, _, ha', hm', hrest, by rw [map_append, map_append, hxs, hys]⟩

end

/-- From texts with the same tokens the same nodes come, but for places and for layout in their
texts. -/
theorem Parses.agrees {j : Bool} {ph : Phase Name} (h : Parses programs j ph c r) :
    j = false → ph.Safe → c.Sound → ∀ c', c'.Sound → ph.Starts c c' → ph.Agrees c r c' := by
  induction h with
  | token h =>
    rintro rfl hsafe hc c' hc' hstart
    exact agrees_token (.token h) hsafe hc hc' hstart
  | token_none h =>
    rintro rfl hsafe hc c' hc' hstart
    exact agrees_token (.token_none h) hsafe hc hc' hstart
  | absent h =>
    rintro rfl hsafe hc c' hc' hstart
    exact agrees_absent (.absent h) hsafe hc hc' hstart
  | absent_none h =>
    rintro rfl hsafe hc c' hc' hstart
    exact agrees_absent (.absent_none h) hsafe hc hc' hstart
  | finish h =>
    rintro rfl - hc c' hc' hstart
    exact ⟨_, .finish (eq_nil hstart h), .some (abreast hstart) rfl nofun⟩
  | finish_none h =>
    rintro rfl - hc c' hc' hstart
    exact ⟨_, .finish_none fun hnil => h (eq_nil (symm hstart) hnil), .none⟩
  | @rule j q c d ns h ih =>
    rintro rfl ⟨hprogram, hinner⟩ hc c' hc' hstart
    by_cases hstring : q = .string
    · subst hstring
      exact agrees_string (.rule h) hc hc' hstart
    · have hjoined := joined_eq_false hstring
      rw [hjoined] at h ih
      exact agrees_rule hstring hc hc' h
        (ih rfl (safe_body q hprogram hstring hinner) hc c' hc' hstart)
  | @rule_none j q c h ih =>
    rintro rfl ⟨hprogram, hinner⟩ hc c' hc' hstart
    by_cases hstring : q = .string
    · subst hstring
      exact agrees_string (.rule_none h) hc hc' hstart
    · have hjoined := joined_eq_false hstring
      rw [hjoined] at h ih
      exact agrees_rule hstring hc hc' h
        (ih rfl (safe_body q hprogram hstring hinner) hc c' hc' hstart)
  | @seq _ _ _ _ _ e _ ys ha hb iha ihb =>
    rintro rfl ⟨hsafe, hsafe', hstops⟩ hc c' hc' hstart
    have hd := (ha.sound hc _ _ rfl).1
    refine agrees_seq (r := some (e, ys)) (iha rfl hsafe hc c' hc' hstart) hc'
      fun d' hd' hrest => ?_
    exact agrees_next hrest hstops hd hd' hb (ihb rfl hsafe' (programs.gap_sound hd false).1)
  | seq_none_left ha iha =>
    rintro rfl ⟨hsafe, -, -⟩ hc c' hc' hstart
    obtain ⟨_, ha', ⟨⟩⟩ := iha rfl hsafe hc c' hc' hstart
    exact ⟨_, .seq_none_left ha', .none⟩
  | seq_none_right ha hb iha ihb =>
    rintro rfl ⟨hsafe, hsafe', hstops⟩ hc c' hc' hstart
    have hd := (ha.sound hc _ _ rfl).1
    refine agrees_seq (r := none) (iha rfl hsafe hc c' hc' hstart) hc' fun d' hd' hrest => ?_
    exact agrees_next hrest hstops hd hd' hb (ihb rfl hsafe' (programs.gap_sound hd false).1)
  | alt_left ha iha =>
    rintro rfl ⟨hsafe, -⟩ hc c' hc' hstart
    exact agrees_alt_left (iha rfl hsafe hc c' hc' hstart)
  | alt_right ha hb iha ihb =>
    rintro rfl ⟨hsafe, hsafe'⟩ hc c' hc' hstart
    exact agrees_alt_right (iha rfl hsafe hc c' hc' hstart) (ihb rfl hsafe' hc c' hc' hstart)
  | opt ha iha =>
    rintro rfl hsafe hc c' hc' hstart
    obtain ⟨_, ha', _ | ⟨hrest, hxs, -⟩⟩ := iha rfl hsafe hc c' hc' hstart
    exact ⟨_, .opt ha', .some hrest hxs nofun⟩
  | opt_none ha iha =>
    rintro rfl hsafe hc c' hc' hstart
    obtain ⟨_, ha', ⟨⟩⟩ := iha rfl hsafe hc c' hc' hstart
    exact ⟨_, .opt_none ha', .some (abreast hstart) rfl nofun⟩
  | star ha hm iha ihm =>
    rintro rfl hsafe hc c' hc' hstart
    have hd := (ha.sound hc _ _ rfl).1
    obtain ⟨_, _, _, _, ha', hm', hrest, hnodes⟩ :=
      exists_agreeing (iha rfl hsafe.1 hc c' hc' hstart) hc' (ihm rfl hsafe hd)
    exact ⟨_, .star ha' hm', .some hrest hnodes nofun⟩
  | star_none ha iha =>
    rintro rfl hsafe hc c' hc' hstart
    obtain ⟨_, ha', ⟨⟩⟩ := iha rfl hsafe.1 hc c' hc' hstart
    exact ⟨_, .star_none ha', .some (abreast hstart) rfl nofun⟩
  | more ha hlt hm iha ihm =>
    rintro rfl hsafe hc c' hc' hstart
    obtain ⟨hsafe', hstrict, hstops⟩ := id hsafe
    have hgap := (programs.gap_sound hc false).1
    have hd := (ha.sound hgap _ _ rfl).1
    have hagrees := agrees_next hstart hstops hc hc' ha (iha rfl hsafe' hgap)
    obtain ⟨_, _, _, _, ha', hm', hrest, hnodes⟩ :=
      exists_agreeing hagrees (programs.gap_sound hc' false).1 (ihm rfl hsafe hd)
    exact ⟨_, .more ha' (ha'.left_lt_of_isStrict hc' hstrict) hm', .some hrest hnodes nofun⟩
  | more_stuck ha hlt iha =>
    rintro rfl ⟨-, hstrict, -⟩ hc c' hc' hstart
    exact absurd (ha.left_lt_of_isStrict hc hstrict) hlt
  | more_none ha iha =>
    rintro rfl ⟨hsafe, hstrict, hstops⟩ hc c' hc' hstart
    have hgap := (programs.gap_sound hc false).1
    obtain ⟨_, ha', ⟨⟩⟩ := agrees_next hstart hstops hc hc' ha (iha rfl hsafe hgap)
    exact ⟨_, .more_none ha', .some hstart rfl nofun⟩

/-- The parts of a program behind its start. -/
lemma safe_program : (seq (.star (.rule .statement)) (.rule .finish) : Peg Name).Safe := by
  repeat' apply And.intro
  all_goals decide

/-- Source texts with the same tokens have the same tree, but for places and layout. -/
theorem parse_alike {source source' : String} {tree : Tree}
    (h : SameTokens source.toList source'.toList) (hparse : parse source = .ok tree) :
    ∃ tree', parse source' = .ok tree' ∧ tree'.bare = tree.bare := by
  obtain ⟨d, hd⟩ := parse_eq_ok.mp hparse
  have hc := sound_start source.toList
  have hc' := sound_start source'.toList
  generalize hns : [tree] = ns at hd
  cases hd with
  | rule hbody =>
    cases hbody with
    | seq hstart hrest =>
      cases hstart with
      | token hstart =>
        cases hstart
        obtain ⟨_, hrest', halike⟩ :=
          hrest.agrees rfl safe_program (programs.gap_sound hc false).1 _
          (programs.gap_sound hc' false).1 (h.aligned_gap hc hc')
        cases halike with
        | @some _ d' _ ns' _ hnodes _ =>
          have hprogram : Parses programs false (.one (.rule .program)) (.start source'.toList)
              (some (d', programs.leaves .program (.start source'.toList) d' ([] ++ ns'))) :=
            .rule (.seq (.token rfl) hrest')
          refine ⟨_, parse_eq_ok.mpr ⟨d', hprogram⟩, ?_⟩
          rw [(cons.inj hns).1, bare, bare, bareAll_eq_map, bareAll_eq_map,
            nil_append, nil_append, hnodes]
          rfl

end SolidScript.Grammar
