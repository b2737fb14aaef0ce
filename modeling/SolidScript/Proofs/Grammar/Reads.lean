import SolidScript.Proofs.Grammar.Programs
import SolidScript.Proofs.Grammar.Words

/-!
# Reading texts

`Reads j e u k Q` says that the expression `e` takes the text `u` in front of `k`, wherever it
stands, and leaves nodes with `Q`; `Refuses j e s` says that it does not match at the front of `s`.
Parsing a text that was written down is put together from these, with one rule for each way of
building expressions.
-/

namespace SolidScript.Grammar

open Words Cursor List

/-- The expression takes `u` from in front of `k` and leaves nodes with `Q`. -/
def Reads (j : Bool) (e : Peg Name) (u k : List Char) (Q : List Tree → Prop) : Prop :=
  ∀ c : Cursor, c.Sound → c.rest = u ++ k →
    ∃ d ns, Parses programs j (.one e) c (some (d, ns)) ∧ d.rest = k ∧ Q ns

/-- The expression does not match at the front of `s`. -/
def Refuses (j : Bool) (e : Peg Name) (s : List Char) : Prop :=
  ∀ c : Cursor, c.Sound → c.rest = s → Parses programs j (.one e) c none

/-- The blanks `w` stand in front of `s`; inside a joined rule there are none. -/
def Gap (j : Bool) (w s : List Char) : Prop := if j then w = [] else blank.Takes w s

variable {j : Bool} {s : List Char} {c : Cursor}

/-- No layout, where none can be taken. -/
lemma gap_nil (h : Clear s) : Gap j [] s := by
  unfold Gap
  split
  · rfl
  · exact h

lemma gap_joined (s : List Char) : Gap true [] s := rfl

/-- What is behind the layout. -/
lemma Gap.rest {w : List Char} (h : Gap j w s) (hc : c.Sound)
    (hrest : c.rest = w ++ s) : (programs.gap j c).rest = s := by
  unfold Gap at h
  unfold RuleSet.gap
  split at h
  · rw [if_pos ‹_›, hrest, h, nil_append]
  · obtain ⟨d, hd, -, hs⟩ := exists_take? hc hrest h
    rw [if_neg ‹_›, skip, show c.take? programs.blank = some d from hd, Option.getD_some, hs]

/-- Where no blanks stand, the next part starts at once. -/
lemma Gap.eq (h : Gap j [] s) (hrest : c.rest = s) : programs.gap j c = c := by
  unfold Gap at h
  unfold RuleSet.gap
  split at h
  · rw [if_pos ‹_›]
  · have htake : blank.take c.rest = some (0, s) := by rw [hrest]; exact h
    rw [if_neg ‹_›, skip, take?, show programs.blank = blank from rfl, htake]
    rfl

variable {es : List (Peg Name)} {n : Nat} {p : Pattern}

/-- Where no blanks stand, a repetition goes on as it would start. -/
lemma Parses.more_of_star {a : Peg Name} {r : Outcome} (hc : c.Sound)
    (hstrict : a.isStrict (programs.isStrict n)) (hgap : programs.gap j c = c)
    (h : Parses programs j (.one (.star a)) c r) : Parses programs j (.more a) c r := by
  cases h with
  | star ha hm =>
    obtain ⟨hd, hsuffix⟩ := ha.sound hc _ _ rfl
    have hlt := left_lt hc hd hsuffix (ha.ne_of_isStrict hc n _ _ _ rfl rfl hstrict)
    exact .more (by rw [hgap]; exact ha) hlt hm
  | star_none ha => exact .more_none (by rw [hgap]; exact ha)

/-- Exactly one node is left. -/
def One (A : Tree → Prop) (ns : List Tree) : Prop := ∃ t, ns = [t] ∧ A t

namespace Reads

variable {j : Bool} {a b : Peg Name} {u v k : List Char} {P Q R : List Tree → Prop}
  {A : Tree → Prop}

lemma imp (h : Reads j a u k P) (hPQ : ∀ ns, P ns → Q ns) : Reads j a u k Q := fun c hc hrest =>
  let ⟨d, ns, hparses, hd, hns⟩ := h c hc hrest
  ⟨d, ns, hparses, hd, hPQ ns hns⟩

lemma token (h : p.Takes u k) : Reads j (.token p) u k (· = []) := by
  intro c hc hrest
  obtain ⟨d, hd, -, hk⟩ := exists_take? hc hrest h
  exact ⟨d, [], .token hd, hk, rfl⟩

lemma absent (h : p.take k = none) : Reads j (.absent p) [] k (· = []) := by
  intro c hc hrest
  refine ⟨c, [], .absent (take?_eq_none.mpr ?_), hrest, rfl⟩
  rw [hrest]
  exact h

lemma finish : Reads j .finish [] [] (· = []) := fun c _ hrest => ⟨c, [], .finish hrest, hrest, rfl⟩

lemma sym (s : String) : Reads j (Rules.sym s) s.toList k (· = []) :=
  token (Pattern.takes_literal.mpr rfl)

/-- A rule that leaves a node leaves one with the text that it took. -/
lemma node {r : Name} (hr : (programs.rules r).form = .node)
    (h : Reads (j || (programs.rules r).joined) (programs.rules r).body u k Q)
    (hA : ∀ pos ns, Q ns → A (.node r.kind (String.ofList u) pos ns)) :
    Reads j (.rule r) u k (One A) := by
  intro c hc hrest
  obtain ⟨d, ns, hparses, hd, hns⟩ := h c hc hrest
  have htext : c.textTo d = String.ofList u :=
    textTo_eq hc (hparses.sound hc _ _ rfl).1 (by rw [hrest, hd])
  have hleaves : programs.leaves r c d ns = [.node r.kind (String.ofList u) c.pos ns] := by
    rw [RuleSet.leaves, hr, htext]
    rfl
  exact ⟨d, _, .rule hparses, hd, _, hleaves, hA c.pos ns hns⟩

/-- A rule without a node of its own or of its parts. -/
lemma mark {r : Name} (hr : (programs.rules r).form = .mark)
    (h : Reads (j || (programs.rules r).joined) (programs.rules r).body u k Q) :
    Reads j (.rule r) u k (· = []) := by
  intro c hc hrest
  obtain ⟨d, ns, hparses, hd, -⟩ := h c hc hrest
  refine ⟨d, _, .rule hparses, hd, ?_⟩
  rw [RuleSet.leaves, hr]

lemma silent {r : Name} (hr : (programs.rules r).form = .silent)
    (h : Reads (j || (programs.rules r).joined) (programs.rules r).body u k Q) :
    Reads j (.rule r) u k Q := by
  intro c hc hrest
  obtain ⟨d, ns, hparses, hd, hns⟩ := h c hc hrest
  refine ⟨d, _, .rule hparses, hd, ?_⟩
  rw [RuleSet.leaves, hr]
  exact hns

/-- Parts with layout in between. -/
lemma seq_gap {w : List Char} (ha : Reads j a u (w ++ (v ++ k)) P) (hw : Gap j w (v ++ k))
    (hb : Reads j b v k Q) (hR : ∀ xs ys, P xs → Q ys → R (xs ++ ys)) :
    Reads j (.seq a b) (u ++ (w ++ v)) k R := by
  intro c hc hrest
  obtain ⟨d, xs, hpa, hd, hxs⟩ := ha c hc (by simpa using hrest)
  have hdsound := (hpa.sound hc _ _ rfl).1
  obtain ⟨e, ys, hpb, he, hys⟩ :=
    hb (programs.gap j d) (programs.gap_sound hdsound j).1 (hw.rest hdsound hd)
  exact ⟨e, xs ++ ys, .seq hpa hpb, he, hR xs ys hxs hys⟩

lemma seq (ha : Reads j a u (v ++ k) P) (hgap : Gap j [] (v ++ k)) (hb : Reads j b v k Q)
    (hR : ∀ xs ys, P xs → Q ys → R (xs ++ ys)) : Reads j (.seq a b) (u ++ v) k R :=
  seq_gap (w := []) ha hgap hb hR

lemma sym_seq (s : String) (hgap : Gap j [] (v ++ k)) (hb : Reads j b v k Q) :
    Reads j (.seq (Rules.sym s) b) (s.toList ++ v) k Q :=
  seq (sym s) hgap hb fun _ _ hxs hys => by rw [hxs]; exact hys

lemma seq_sym (s : String) (ha : Reads j a u (s.toList ++ k) P) (hgap : Gap j [] (s.toList ++ k)) :
    Reads j (.seq a (Rules.sym s)) (u ++ s.toList) k P :=
  seq ha hgap (sym s) fun xs _ hxs hys => by rw [hys, append_nil]; exact hxs

/-- A part that leaves one node, and further ones. -/
lemma cons (ha : Reads j a u (v ++ k) (One A)) (hgap : Gap j [] (v ++ k)) (hb : Reads j b v k Q) :
    Reads j (.seq a b) (u ++ v) k fun ns => ∃ t ys, ns = t :: ys ∧ A t ∧ Q ys :=
  seq ha hgap hb fun _ ys ⟨t, hxs, ht⟩ hys => ⟨t, ys, by rw [hxs]; rfl, ht, hys⟩

lemma alt_left (ha : Reads j a u k Q) : Reads j (.alt a b) u k Q := fun c hc hrest =>
  let ⟨d, ns, hparses, hd, hns⟩ := ha c hc hrest
  ⟨d, ns, .alt_left hparses, hd, hns⟩

/-- The second choice, where the first is refused. -/
lemma alt_right (ha : Refuses j a (u ++ k)) (hb : Reads j b u k Q) : Reads j (.alt a b) u k Q :=
  fun c hc hrest =>
  let ⟨d, ns, hparses, hd, hns⟩ := hb c hc hrest
  ⟨d, ns, .alt_right (ha c hc hrest) hparses, hd, hns⟩

lemma oneOf (n : Nat) (hn : es[n]? = some a) (h : ∀ b ∈ es.take n, Refuses j b (u ++ k))
    (ha : Reads j a u k Q) : Reads j (Peg.oneOf es) u k Q := by
  induction n generalizing es with
  | zero =>
    match es, hn with
    | [_], rfl => exact ha
    | _ :: _ :: _, rfl => exact .alt_left ha
  | succ n ih =>
    match es, hn, h with
    | b :: b' :: es, hn, h =>
      obtain ⟨hb, hrest⟩ := forall_mem_cons.mp h
      exact .alt_right hb (ih hn hrest)

lemma opt (ha : Reads j a u k Q) : Reads j (.opt a) u k Q := fun c hc hrest =>
  let ⟨d, ns, hparses, hd, hns⟩ := ha c hc hrest
  ⟨d, ns, .opt hparses, hd, hns⟩

/-- An optional part is left out where it is refused. -/
lemma opt_nil (ha : Refuses j a k) : Reads j (.opt a) [] k (· = []) := fun c hc hrest =>
  ⟨c, [], .opt_none (ha c hc hrest), hrest, rfl⟩

lemma seq_opt_nil (ha : Reads j a u k P) (hgap : Gap j [] k) (hb : Refuses j b k) :
    Reads j (.seq a (.opt b)) u k P := by
  have hseq := ha.seq (v := []) hgap (opt_nil hb) (R := P) fun xs ys hxs hys => by
    rw [hys, append_nil]; exact hxs
  rwa [append_nil] at hseq

lemma opt_nil_seq (hb : Reads j b u k Q) (hgap : Gap j [] (u ++ k)) (ha : Refuses j a (u ++ k)) :
    Reads j (.seq (.opt a) b) u k Q :=
  seq (u := []) (opt_nil ha) hgap hb fun xs ys hxs hys => by rw [hxs]; exact hys

lemma star_nil (ha : Refuses j a k) : Reads j (.star a) [] k (· = []) := fun c hc hrest =>
  ⟨c, [], .star_none (ha c hc hrest), hrest, rfl⟩

/-- A repetition goes on behind an occurrence as it would start there. -/
lemma star_append (hstrict : a.isStrict (programs.isStrict n)) (ha : Reads j a u (v ++ k) P)
    (hgap : Gap j [] (v ++ k)) (hs : Reads j (.star a) v k Q)
    (hR : ∀ xs ys, P xs → Q ys → R (xs ++ ys)) : Reads j (.star a) (u ++ v) k R := by
  intro c hc hrest
  obtain ⟨d, xs, hpa, hd, hxs⟩ := ha c hc (by simpa using hrest)
  have hdsound := (hpa.sound hc _ _ rfl).1
  obtain ⟨e, ys, hps, he, hys⟩ := hs d hdsound hd
  exact ⟨e, xs ++ ys, .star hpa (hps.more_of_star hdsound hstrict (hgap.eq hd)), he,
    hR xs ys hxs hys⟩

/-- A repetition goes on with one more occurrence. -/
lemma star_seq_append (hstrict : a.isStrict (programs.isStrict n)) (ha : Reads j a u (v ++ k) P)
    (hgap : Gap j [] (v ++ k)) (hs : Reads j (.seq (.star a) b) v k Q)
    (hR : ∀ xs ys, P xs → Q ys → R (xs ++ ys)) : Reads j (.seq (.star a) b) (u ++ v) k R := by
  intro c hc hrest
  obtain ⟨d, xs, hpa, hd, hxs⟩ := ha c hc (by simpa using hrest)
  have hdsound := (hpa.sound hc _ _ rfl).1
  obtain ⟨e, ys, hps, he, hys⟩ := hs d hdsound hd
  cases hps with
  | seq hstar hb =>
    have hmore := hstar.more_of_star hdsound hstrict (hgap.eq hd)
    refine ⟨e, _, .seq (.star hpa hmore) hb, he, ?_⟩
    rw [append_assoc]
    exact hR xs _ hxs hys

end Reads

namespace Refuses

variable {j : Bool} {a b : Peg Name} {u v s : List Char} {P : List Tree → Prop}

lemma token (h : p.take s = none) : Refuses j (.token p) s := fun _ _ hrest =>
  .token_none (take?_eq_none.mpr (by rw [hrest]; exact h))

lemma absent (h : p.Takes u v) : Refuses j (.absent p) (u ++ v) := fun _ hc hrest =>
  let ⟨_, hd, _⟩ := exists_take? hc hrest h
  .absent_none hd

lemma rule {r : Name} (h : Refuses (j || (programs.rules r).joined) (programs.rules r).body s) :
    Refuses j (.rule r) s := fun c hc hrest => .rule_none (h c hc hrest)

lemma seq (h : Refuses j a s) : Refuses j (.seq a b) s := fun c hc hrest =>
    .seq_none_left (h c hc hrest)

/-- The second part does not match behind the first one. -/
lemma seq_right (ha : Reads j a u v P) (hgap : Gap j [] v) (hb : Refuses j b v) :
    Refuses j (.seq a b) (u ++ v) := by
  intro c hc hrest
  obtain ⟨d, xs, hpa, hd, -⟩ := ha c hc hrest
  have hdsound := (hpa.sound hc _ _ rfl).1
  exact .seq_none_right hpa (hb _ (programs.gap_sound hdsound j).1 (hgap.rest hdsound hd))

lemma alt (ha : Refuses j a s) (hb : Refuses j b s) : Refuses j (.alt a b) s := fun c hc hrest =>
  .alt_right (ha c hc hrest) (hb c hc hrest)

lemma oneOf (h : ∀ a ∈ es, Refuses j a s) : Refuses j (Peg.oneOf es) s := by
  induction es with
  | nil => exact .token (Pattern.take_char_eq_none.mpr fun _ _ => rfl)
  | cons a es ih =>
    obtain ⟨ha, hes⟩ := forall_mem_cons.mp h
    cases es with
    | nil => exact ha
    | cons b es => exact .alt ha (ih hes)

/-- A strict expression does not match at the end of the text. -/
lemma of_nil (hstrict : a.isStrict (programs.isStrict n)) : Refuses j a [] := by
  intro c hc hrest
  obtain ⟨r, hr⟩ := ranked_programs.exists_parses j a hc
  cases r with
  | none => exact hr
  | some parsed =>
    refine absurd ?_ (hr.ne_of_isStrict hc n _ _ _ rfl rfl hstrict)
    rw [hrest]
    exact suffix_nil.mp (hrest ▸ (hr.sound hc _ _ rfl).2)

/-- A strict expression does not match a text that starts with a character it cannot start with. -/
lemma of_starts {x : Char} (hstrict : a.isStrict (programs.isStrict n))
    (hstarts : a.starts (programs.isStrict n) (programs.starts x n) x = false)
    (hclear : Clear (x :: s)) : Refuses j a (x :: s) := by
  intro c hc hrest
  obtain ⟨r, hr⟩ := ranked_programs.exists_parses j a hc
  cases r with
  | none => exact hr
  | some parsed =>
    obtain ⟨d, ns⟩ := parsed
    have htrue :=
      hr.starts hc hrest hclear n d ns rfl (hr.ne_of_isStrict hc n _ _ _ rfl rfl hstrict)
    rw [show (Phase.one a).peg = a from rfl, hstarts] at htrue
    exact Bool.noConfusion htrue

end Refuses

/-- Several strict expressions none of which starts with a character. -/
lemma refuses_of_starts {x : Char} (hx : isPlain x = true)
    (h : ∀ a ∈ es, a.isStrict (programs.isStrict n) &&
      !a.starts (programs.isStrict n) (programs.starts x n) x) :
    ∀ a ∈ es, Refuses j a (x :: s) := by
  intro a ha
  obtain ⟨hstrict, hstarts⟩ := Bool.and_eq_true_iff.mp (h a ha)
  exact .of_starts hstrict ((Bool.not_eq_true' _).mp hstarts) (clear_cons hx)

end SolidScript.Grammar
