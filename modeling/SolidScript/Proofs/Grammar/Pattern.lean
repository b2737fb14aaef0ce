import Mathlib.Tactic.Common
import SolidScript.Grammar.Pattern

/-!
# What patterns take

`p.Takes w k` says that the pattern `p` takes exactly `w` from in front of `k`. What stands behind
matters: a repetition goes on as long as it can, and an absence is about what follows.
-/

namespace SolidScript.Grammar

open List Option

variable {cs : List Char}

lemma takeLiteral_eq_some {s k : List Char} {n m : Nat} :
    takeLiteral cs s n = some (m, k) ↔ s = cs ++ k ∧ m = n + cs.length := by
  induction cs generalizing s n with
  | nil =>
    simp only [takeLiteral, some.injEq, Prod.mk.injEq, nil_append, length_nil, Nat.add_zero]
    exact ⟨fun ⟨hn, hs⟩ => ⟨hs, hn.symm⟩, fun ⟨hs, hn⟩ => ⟨hn.symm, hs⟩⟩
  | cons c cs ih =>
    cases s with
    | nil => simp [takeLiteral]
    | cons d s =>
      by_cases hcd : c = d
      · subst hcd
        simp only [takeLiteral, if_true, ih, cons_append, cons.injEq, true_and, length_cons]
        constructor
        · rintro ⟨hs, hm⟩
          exact ⟨hs, by omega⟩
        · rintro ⟨hs, hm⟩
          exact ⟨hs, by omega⟩
      · have hdc : d ≠ c := fun h => hcd h.symm
        simp [takeLiteral, hcd, hdc]

/-! ## Repetition -/

/-- A way of taking characters from the front of a text, which says how many it took. -/
def TakesFront (f : List Char → Option Taken) : Prop :=
  ∀ s n k, f s = some (n, k) → ∃ w : List Char, s = w ++ k ∧ n = w.length

section

variable {f : List Char → Option Taken}

/-- The count goes on from where it was. -/
lemma takeMany_add (fuel n : Nat) (s : List Char) :
    takeMany f fuel n s = (n + (takeMany f fuel 0 s).1, (takeMany f fuel 0 s).2) := by
  induction fuel generalizing n s with
  | zero => rfl
  | succ fuel ih =>
    unfold takeMany
    split
    · rename_i j s' hs
      rw [ih, ih (0 + (j + 1))]
      simp only [Prod.mk.injEq, and_true]
      omega
    · rfl

lemma TakesFront.takeMany (hf : TakesFront f) (fuel n : Nat) (s : List Char) :
    ∃ w : List Char, s = w ++ (Grammar.takeMany f fuel n s).2 ∧ (Grammar.takeMany f fuel n s).1 =
      n + w.length := by
  induction fuel generalizing n s with
  | zero => exact ⟨[], rfl, rfl⟩
  | succ fuel ih =>
    unfold Grammar.takeMany
    split
    · rename_i j s' hs
      obtain ⟨v, rfl, hv⟩ := hf s _ _ hs
      obtain ⟨w, hw, hlength⟩ := ih (n + (j + 1)) s'
      refine ⟨v ++ w, ?_, ?_⟩
      · rw [append_assoc, ← hw]
      · rw [hlength, length_append]
        omega
    · exact ⟨[], rfl, rfl⟩

/-- More attempts than there are characters make no difference. -/
lemma TakesFront.takeMany_fuel (hf : TakesFront f) {m l : Nat} {s : List Char} (n : Nat)
    (h : s.length ≤ m) (h' : s.length ≤ l) :
    Grammar.takeMany f m n s = Grammar.takeMany f l n s := by
  induction m generalizing l n s with
  | zero =>
    have hs : s = [] := eq_nil_of_length_eq_zero (Nat.le_zero.mp h)
    subst hs
    cases l with
    | zero => rfl
    | succ l =>
      rw [Grammar.takeMany, Grammar.takeMany]
      split
      · rename_i j k hk
        obtain ⟨w, hw, hlength⟩ := hf _ _ _ hk
        have hlength := congrArg length hw
        rw [length_nil, length_append] at hlength
        omega
      · rfl
  | succ m ih =>
    cases l with
    | zero =>
      have hs : s = [] := eq_nil_of_length_eq_zero (Nat.le_zero.mp h')
      subst hs
      rw [Grammar.takeMany, Grammar.takeMany]
      split
      · rename_i j k hk
        obtain ⟨w, hw, hlength⟩ := hf _ _ _ hk
        have hlength := congrArg length hw
        rw [length_nil, length_append] at hlength
        omega
      · rfl
    | succ l =>
      rw [Grammar.takeMany, Grammar.takeMany]
      split
      · rename_i j k hk
        obtain ⟨w, rfl, hlength⟩ := hf _ _ _ hk
        rw [length_append] at h h'
        exact ih _ (by omega) (by omega)
      · rfl

end

/-! ## What is taken -/

namespace Pattern

section

variable {a b : Pattern} {p : Char → Bool} {s : List Char}

lemma take_literal : (literal cs).take s = takeLiteral cs s 0 := rfl

lemma take_char_nil : (char p).take [] = none := rfl

lemma take_char_cons {c : Char} : (char p).take (c :: s) = if p c then some (1, s) else none := rfl

lemma take_seq : (seq a b).take s = (a.take s).bind fun t => (b.take t.2).map fun u =>
    (t.1 + u.1, u.2) := by
  rw [take]
  cases a.take s with
  | none => rfl
  | some t => rfl

lemma take_alt : (alt a b).take s = (a.take s).or (b.take s) := by
  rw [take]
  cases a.take s with
  | none => rfl
  | some t => rfl

lemma take_opt : (opt a).take s = some ((a.take s).getD (0, s)) := rfl

lemma take_star : (star a).take s = some (takeMany a.take s.length 0 s) := rfl

lemma take_absent : (absent a).take s = if (a.take s).isSome then none else some (0, s) := rfl

end

/-- The pattern takes `w` from in front of `k`. -/
def Takes (p : Pattern) (w k : List Char) : Prop := p.take (w ++ k) = some (w.length, k)

/-- What is taken is a front part of the text. -/
lemma takesFront_take (p : Pattern) : TakesFront p.take := by
  induction p with
  | literal cs =>
    intro s n k h
    obtain ⟨hs, hn⟩ := takeLiteral_eq_some.mp h
    exact ⟨cs, hs, by rw [hn, Nat.zero_add]⟩
  | char p =>
    intro s n k h
    cases s with
    | nil => nomatch h
    | cons c s =>
      simp only [take_char_cons, ite_none_right_eq_some, some.injEq, Prod.mk.injEq]
        at h
      obtain ⟨-, rfl, rfl⟩ := h
      exact ⟨[c], rfl, rfl⟩
  | seq a b iha ihb =>
    intro s n k h
    rw [take_seq] at h
    obtain ⟨⟨m, s'⟩, hs, h⟩ := bind_eq_some_iff.mp h
    obtain ⟨⟨m', k'⟩, hb, hk⟩ := map_eq_some_iff.mp h
    obtain ⟨rfl, rfl⟩ := Prod.mk.inj hk
    obtain ⟨u, rfl, rfl⟩ := iha _ _ _ hs
    obtain ⟨v, rfl, rfl⟩ := ihb _ _ _ hb
    exact ⟨u ++ v, (append_assoc u v _).symm, length_append.symm⟩
  | alt a b iha ihb =>
    intro s n k h
    rw [take_alt] at h
    rcases or_eq_some_iff.mp h with hs | ⟨-, hs⟩
    · exact iha _ _ _ hs
    · exact ihb _ _ _ hs
  | opt a iha =>
    intro s n k h
    simp only [take_opt, some.injEq] at h
    cases hs : a.take s with
    | none =>
      rw [hs] at h
      cases h
      exact ⟨[], rfl, rfl⟩
    | some t =>
      rw [hs, getD_some] at h
      subst h
      exact iha _ _ _ hs
  | star a iha =>
    intro s n k h
    simp only [take_star, some.injEq] at h
    obtain ⟨w, hw, hlength⟩ := iha.takeMany s.length 0 s
    rw [h] at hw hlength
    exact ⟨w, hw, hlength.trans (Nat.zero_add _)⟩
  | absent a iha =>
    intro s n k h
    simp only [take_absent] at h
    split at h
    · nomatch h
    · cases h
      exact ⟨[], rfl, rfl⟩

variable {p : Pattern} {k : List Char}

/-- Whatever is taken stands in front of the rest. -/
lemma takes_of_take {s : List Char} {n : Nat}
    (h : p.take s = some (n, k)) : ∃ w, s = w ++ k ∧ n = w.length ∧ p.Takes w k := by
  obtain ⟨w, rfl, rfl⟩ := takesFront_take p s n k h
  exact ⟨w, rfl, rfl, h⟩

section

variable {a b : Pattern} {p : Char → Bool} {w k s : List Char}

@[simp]
lemma takes_literal : (literal cs).Takes w k ↔ w = cs := by
  rw [Takes, take_literal, takeLiteral_eq_some, append_cancel_right_eq, Nat.zero_add]
  exact ⟨And.left, fun h => ⟨h, congrArg length h⟩⟩

@[simp]
lemma takes_char : (char p).Takes w k ↔ ∃ c, w = [c] ∧ p c := by
  constructor
  · intro h
    unfold Takes at h
    cases w with
    | nil =>
      cases k with
      | nil => nomatch h
      | cons c k =>
        simp only [nil_append, take_char_cons, ite_none_right_eq_some, some.injEq,
          Prod.mk.injEq, length_nil, Nat.one_ne_zero, false_and, and_false] at h
    | cons c w =>
      simp only [cons_append, take_char_cons, ite_none_right_eq_some, some.injEq,
        Prod.mk.injEq, length_cons] at h
      obtain ⟨hc, hlength, -⟩ := h
      have hw : w = [] := eq_nil_of_length_eq_zero (by omega)
      exact ⟨c, by rw [hw], hc⟩
  · rintro ⟨c, rfl, hc⟩
    simp [Takes, take_char_cons, hc]

lemma take_char_eq_none : (char p).take s = none ↔ ∀ c ∈ s.head?, p c = false := by
  cases s with
  | nil => simp [take_char_nil]
  | cons c s => simp [take_char_cons]

/-- A sequence takes what its parts take. -/
lemma takes_seq : (seq a b).Takes w k ↔ ∃ u v, w = u ++ v ∧ a.Takes u (v ++ k) ∧ b.Takes v k := by
  constructor
  · intro h
    rw [Takes, take_seq] at h
    obtain ⟨⟨m, s'⟩, hs, h⟩ := bind_eq_some_iff.mp h
    obtain ⟨⟨m', k'⟩, hb, hk⟩ := map_eq_some_iff.mp h
    obtain ⟨hlength, rfl⟩ := Prod.mk.inj hk
    obtain ⟨u, hu, rfl, hau⟩ := takes_of_take hs
    obtain ⟨v, rfl, rfl, hbv⟩ := takes_of_take hb
    rw [← append_assoc] at hu
    exact ⟨u, v, append_cancel_right hu, hau, hbv⟩
  · rintro ⟨u, v, rfl, ha, hb⟩
    unfold Takes at ha hb ⊢
    rw [append_assoc, take_seq, ha, bind_some, hb, map_some, length_append]

/-- It fails where one of its parts does. -/
lemma take_seq_eq_none : (seq a b).take s = none ↔
    a.take s = none ∨ ∃ u v, s = u ++ v ∧ a.Takes u v ∧ b.take v = none := by
  rw [take_seq]
  cases hs : a.take s with
  | none => exact ⟨fun _ => .inl rfl, fun _ => rfl⟩
  | some t =>
    obtain ⟨m, s'⟩ := t
    obtain ⟨u, rfl, rfl, hu⟩ := takes_of_take hs
    rw [bind_some, map_eq_none_iff]
    constructor
    · exact fun h => .inr ⟨u, s', rfl, hu, h⟩
    · rintro (h | ⟨u', v, huv, hu', hv⟩)
      · nomatch h
      · rw [Takes, ← huv, hs] at hu'
        obtain ⟨-, rfl⟩ := Prod.mk.inj (some.inj hu')
        exact hv

/-- A choice takes what the first part takes, or else the second. -/
lemma takes_alt : (alt a b).Takes w k ↔ a.Takes w k ∨ a.take (w ++ k) = none ∧ b.Takes w k := by
  unfold Takes
  rw [take_alt, or_eq_some_iff]

lemma take_alt_eq_none : (alt a b).take s = none ↔ a.take s = none ∧ b.take s = none := by
  rw [take_alt, or_eq_none_iff]

lemma takes_opt : (opt a).Takes w k ↔ a.Takes w k ∨ a.take (w ++ k) = none ∧ w = [] := by
  unfold Takes
  rw [take_opt]
  cases hs : a.take (w ++ k) with
  | none =>
    simp only [getD_none, some.injEq, Prod.mk.injEq, true_and, reduceCtorEq, false_or]
    constructor
    · rintro ⟨h, -⟩
      exact eq_nil_of_length_eq_zero h.symm
    · rintro rfl
      exact ⟨rfl, rfl⟩
  | some t => simp

lemma takes_absent : (absent a).Takes w k ↔ w = [] ∧ a.take k = none := by
  unfold Takes
  rw [take_absent]
  constructor
  · intro h
    split at h
    · nomatch h
    · rename_i hnot
      obtain ⟨hlength, hk⟩ := Prod.mk.inj (some.inj h)
      have hw : w = [] := eq_nil_of_length_eq_zero hlength.symm
      subst hw
      exact ⟨rfl, by simpa using hnot⟩
  · rintro ⟨rfl, hk⟩
    simp [hk]

/-- A repetition takes nothing where its pattern fails. -/
lemma takes_star_nil (h : a.take k = none) : (star a).Takes [] k := by
  unfold Takes
  rw [nil_append, take_star]
  cases k with
  | nil => rfl
  | cons c k => rw [length_cons, takeMany, h]; rfl

/-- A repetition takes one occurrence after the other. -/
lemma takes_star_append {u v : List Char} (hu : u ≠ []) (ha : a.Takes u (v ++ k))
    (hs : (star a).Takes v k) : (star a).Takes (u ++ v) k := by
  obtain ⟨n, hn⟩ : ∃ n, u.length = n + 1 :=
    Nat.exists_eq_succ_of_ne_zero (mt eq_nil_of_length_eq_zero hu)
  unfold Takes at ha hs ⊢
  rw [take_star, some.injEq] at hs ⊢
  have hlength : (u ++ v ++ k).length = n + (v ++ k).length + 1 := by
    rw [append_assoc, length_append, hn]
    omega
  rw [hlength, takeMany, append_assoc, ha, hn]
  dsimp only
  rw [takeMany_add, (takesFront_take a).takeMany_fuel (l := (v ++ k).length) 0 (by omega)
    (by omega), hs, length_append, hn]
  simp only [Prod.mk.injEq, and_true]
  omega

/-- A repetition ends where its pattern fails or takes nothing, and takes one occurrence after the
other. -/
lemma takes_star_cases (h : (star a).Takes w k) :
    w = [] ∧ (∀ n s, a.take k ≠ some (n + 1, s)) ∨
      ∃ u v, u ≠ [] ∧ w = u ++ v ∧ a.Takes u (v ++ k) ∧ (star a).Takes v k := by
  unfold Takes at h
  rw [take_star, some.injEq] at h
  cases hfuel : (w ++ k).length with
  | zero =>
    have hnil := append_eq_nil_iff.mp (eq_nil_of_length_eq_zero hfuel)
    obtain ⟨rfl, rfl⟩ := hnil
    refine .inl ⟨rfl, fun n s hs => ?_⟩
    obtain ⟨u, hu, hlength, -⟩ := takes_of_take hs
    have hu := congrArg length hu
    rw [length_append, length_nil] at hu
    omega
  | succ fuel =>
    rw [hfuel, takeMany] at h
    split at h
    · rename_i j s' hs
      obtain ⟨u, hu, hlength, hau⟩ := takes_of_take hs
      have hs' : s'.length ≤ fuel := by
        have hu := congrArg length hu
        rw [hfuel, length_append] at hu
        omega
      rw [takeMany_add, (takesFront_take a).takeMany_fuel (l := s'.length) 0 hs' (Nat.le_refl _)]
        at h
      obtain ⟨v, hv, hvlength⟩ := (takesFront_take a).takeMany s'.length 0 s'
      obtain ⟨hcount, hk⟩ := Prod.mk.inj h
      rw [hk] at hv
      subst hv
      rw [← append_assoc] at hu
      refine .inr ⟨u, v, ?_, append_cancel_right hu, hau, ?_⟩
      · rintro rfl
        nomatch hlength
      · unfold Takes
        rw [take_star, some.injEq]
        exact Prod.ext (by rw [hvlength, Nat.zero_add]) hk
    · rename_i hnot
      obtain ⟨hlength, hk⟩ := Prod.mk.inj h
      have hw : w = [] := eq_nil_of_length_eq_zero hlength.symm
      subst hw
      exact .inl ⟨rfl, fun n s hs => hnot n s hs⟩

/-- What goes for nothing, and goes on for one more occurrence in front, goes for all that a
repetition takes. -/
@[elab_as_elim]
lemma takes_star_induction {motive : List Char → Prop} (h : (star a).Takes w k) (hnil : motive [])
    (hcons : ∀ u v, a.Takes u (v ++ k) → (star a).Takes v k → motive v → motive (u ++ v)) :
    motive w := by
  induction hlength : w.length using Nat.strongRecOn generalizing w with
  | ind n ih =>
    rcases takes_star_cases h with ⟨rfl, -⟩ | ⟨u, v, hu, rfl, hfirst, hrest⟩
    · exact hnil
    · have hlt : v.length < n := by
        have hpos := length_pos_iff.mpr hu
        rw [← hlength, length_append]
        omega
      exact hcons u v hfirst hrest (ih _ hlt hrest rfl)

/-- Repeating a class of characters takes all that are in it. -/
lemma takes_star_char :
    (star (char p)).Takes w k ↔ (∀ c ∈ w, p c) ∧ ∀ c ∈ k.head?, p c = false := by
  constructor
  · intro h
    induction w with
    | nil =>
      rcases takes_star_cases h with ⟨-, hk⟩ | ⟨u, v, hu, huv, -⟩
      · refine ⟨forall_mem_nil _, take_char_eq_none.mp ?_⟩
        cases hs : (char p).take k with
        | none => rfl
        | some t =>
          obtain ⟨m, s⟩ := t
          obtain ⟨u, rfl, rfl, hu⟩ := takes_of_take hs
          obtain ⟨c, rfl, -⟩ := takes_char.mp hu
          exact absurd hs (hk 0 s)
      · exact absurd (append_eq_nil_iff.mp huv.symm).1 hu
    | cons c w ih =>
      rcases takes_star_cases h with ⟨hnil, -⟩ | ⟨u, v, -, huv, hau, hv⟩
      · nomatch hnil
      · obtain ⟨d, rfl, hd⟩ := takes_char.mp hau
        cases huv
        obtain ⟨hw, hk⟩ := ih hv
        exact ⟨forall_mem_cons.mpr ⟨hd, hw⟩, hk⟩
  · rintro ⟨hw, hk⟩
    induction w with
    | nil => exact takes_star_nil (take_char_eq_none.mpr hk)
    | cons c w ih =>
      obtain ⟨hc, hw⟩ := forall_mem_cons.mp hw
      exact takes_star_append (u := [c]) (cons_ne_nil c []) (takes_char.mpr ⟨c, rfl, hc⟩) (ih hw)

end

/-! ## Strict patterns -/

/-- The pattern takes at least one character wherever it matches. -/
def isStrict : Pattern → Bool
  | literal cs => !cs.isEmpty
  | char _ => true
  | seq a b => a.isStrict || b.isStrict
  | alt a b => a.isStrict && b.isStrict
  | opt _ => false
  | star _ => false
  | absent _ => false

/-- Strict patterns take something. -/
lemma ne_nil_of_isStrict {w : List Char} (hp : p.isStrict) (h : p.Takes w k) : w ≠ [] := by
  induction p generalizing w k with
  | literal cs =>
    rw [takes_literal.mp h]
    rintro rfl
    nomatch hp
  | char p =>
    obtain ⟨c, rfl, -⟩ := takes_char.mp h
    exact cons_ne_nil c []
  | seq a b iha ihb =>
    obtain ⟨u, v, rfl, ha, hb⟩ := takes_seq.mp h
    intro hnil
    obtain ⟨rfl, rfl⟩ := append_eq_nil_iff.mp hnil
    rcases Bool.or_eq_true_iff.mp hp with hp | hp
    · exact iha hp ha rfl
    · exact ihb hp hb rfl
  | alt a b iha ihb =>
    obtain ⟨hpa, hpb⟩ := Bool.and_eq_true_iff.mp hp
    rcases takes_alt.mp h with ha | ⟨-, hb⟩
    · exact iha hpa ha
    · exact ihb hpb hb
  | opt a => nomatch hp
  | star a => nomatch hp
  | absent a => nomatch hp

/-- The pattern can take a text that starts with a character. -/
def starts (x : Char) : Pattern → Bool
  | literal cs => cs.head? = some x
  | char p => p x
  | seq a b => a.starts x || !a.isStrict && b.starts x
  | alt a b => a.starts x || b.starts x
  | opt a => a.starts x
  | star a => a.starts x
  | absent _ => false

lemma starts_of_takes {x : Char} {w : List Char} (h : p.Takes (x :: w) k) : p.starts x := by
  induction p generalizing w k with
  | literal cs =>
    rw [← takes_literal.mp h]
    exact decide_eq_true rfl
  | char p =>
    obtain ⟨c, hc, hp⟩ := takes_char.mp h
    cases hc
    exact hp
  | seq a b iha ihb =>
    obtain ⟨u, v, huv, ha, hb⟩ := takes_seq.mp h
    rw [starts, Bool.or_eq_true_iff, Bool.and_eq_true_iff, Bool.not_eq_true']
    cases u with
    | nil =>
      cases (show x :: w = v from huv)
      refine .inr ⟨Bool.eq_false_iff.mpr fun hstrict => ?_, ihb hb⟩
      exact ne_nil_of_isStrict hstrict ha rfl
    | cons y u =>
      cases huv
      exact .inl (iha ha)
  | alt a b iha ihb =>
    rw [starts, Bool.or_eq_true_iff]
    rcases takes_alt.mp h with ha | ⟨-, hb⟩
    · exact .inl (iha ha)
    · exact .inr (ihb hb)
  | opt a iha =>
    rcases takes_opt.mp h with ha | ⟨-, hnil⟩
    · exact iha ha
    · nomatch hnil
  | star a iha =>
    rcases takes_star_cases h with ⟨hnil, -⟩ | ⟨u, v, hu, huv, ha, -⟩
    · nomatch hnil
    · cases u with
      | nil => exact absurd rfl hu
      | cons y u =>
        cases huv
        exact iha ha
  | absent a => nomatch (takes_absent.mp h).1

/-! ## What stands behind -/

/-- No test of the pattern accepts the character. -/
def ignores (d : Char) : Pattern → Prop
  | literal cs => d ∉ cs
  | char p => p d = false
  | seq a b => a.ignores d ∧ b.ignores d
  | alt a b => a.ignores d ∧ b.ignores d
  | opt a => a.ignores d
  | star a => a.ignores d
  | absent a => a.ignores d

/-- What was taken from the front of a longer text. -/
def Taken.before (k : List Char) (t : Taken) : Taken := (t.1, t.2 ++ k)

lemma takeLiteral_append {d : Char} (h : d ∉ cs) (s k : List Char) (n : Nat) :
    takeLiteral cs (s ++ d :: k) n = (takeLiteral cs s n).map (Taken.before (d :: k)) := by
  induction cs generalizing s n with
  | nil => rfl
  | cons c cs ih =>
    obtain ⟨hc, hcs⟩ := not_or.mp (mt mem_cons.mpr h)
    cases s with
    | nil => simp [takeLiteral, Ne.symm hc]
    | cons e s =>
      rw [cons_append, takeLiteral, takeLiteral]
      split
      · exact ih hcs s (n + 1)
      · rfl

lemma takeMany_append {f : List Char → Option Taken} (hf : TakesFront f)
    (h : ∀ s, f (s ++ k) = (f s).map (Taken.before k)) (n : Nat) (s : List Char) {fuel : Nat}
    (hfuel : (s ++ k).length ≤ fuel) :
    takeMany f fuel n (s ++ k) = Taken.before k (takeMany f s.length n s) := by
  induction fuel generalizing n s with
  | zero =>
    obtain ⟨rfl, rfl⟩ := append_eq_nil_iff.mp (eq_nil_of_length_eq_zero (Nat.le_zero.mp hfuel))
    rfl
  | succ fuel ih =>
    rw [hf.takeMany_fuel (l := fuel + 1) n (s := s) (Nat.le_refl _)
      (by rw [length_append] at hfuel; omega), takeMany, takeMany, h]
    rcases hs : f s with _ | ⟨_ | j, s'⟩
    · rfl
    · rfl
    · obtain ⟨w, rfl, hw⟩ := hf _ _ _ hs
      simp only [length_append] at hfuel
      simp only [map_some, Taken.before]
      rw [ih (n + (j + 1)) s' (by rw [length_append]; omega),
        hf.takeMany_fuel (l := fuel) _ (Nat.le_refl _) (by omega)]
      rfl

/-- A text behind a character that the pattern has no use for is like the end of the text. -/
lemma take_append {d : Char} (h : p.ignores d)
    (s k : List Char) : p.take (s ++ d :: k) = (p.take s).map (Taken.before (d :: k)) := by
  induction p generalizing s with
  | literal cs => exact takeLiteral_append h s k 0
  | char p =>
    cases s with
    | nil => simp [take_char_nil, take_char_cons, show p d = false from h]
    | cons c s =>
      rw [cons_append, take_char_cons, take_char_cons]
      split
      · rfl
      · rfl
  | seq a b iha ihb =>
    rw [take_seq, take_seq, iha h.1]
    rcases a.take s with _ | ⟨n, s'⟩
    · rfl
    · simp only [Option.map_some, Option.bind_some, Taken.before, ihb h.2, Option.map_map]
      rfl
  | alt a b iha ihb =>
    rw [take_alt, take_alt, iha h.1, ihb h.2]
    rcases a.take s with _ | t
    · rfl
    · rfl
  | opt a iha =>
    rw [take_opt, take_opt, iha h]
    rcases a.take s with _ | t
    · rfl
    · rfl
  | star a iha =>
    rw [take_star, take_star, takeMany_append (takesFront_take a) (iha h) 0 s (Nat.le_refl _)]
    rfl
  | absent a iha =>
    rw [take_absent, take_absent, iha h, Option.isSome_map]
    split
    · rfl
    · rfl

lemma take_append_eq_none {s : List Char}
    (hk : ∀ d ∈ k.head?, p.ignores d) : p.take (s ++ k) = none ↔ p.take s = none := by
  cases k with
  | nil => rw [append_nil]
  | cons d k => rw [take_append (hk d rfl), map_eq_none_iff]

end Pattern

end SolidScript.Grammar
