import Mathlib.Data.List.Infix
import SolidScript.Grammar.Peg
import SolidScript.Proofs.Grammar.Pattern

/-!
# Parsing as a relation

`Parses g joined phase c r` says what parsing comes to at a place, with the place reached and the
nodes left, or nothing where it fails. It knows nothing of ranks and limits.
-/

namespace SolidScript.Grammar

open Cursor List

/-! ## Places -/

namespace Cursor

/-- The length that a place gives is that of the text from there on. -/
def Sound (c : Cursor) : Prop := c.left = c.rest.length

lemma sound_start (s : List Char) : (start s).Sound := rfl

variable {w : List Char} {c d : Cursor} {p : Pattern}

/-- The place behind a part of the text. -/
lemma advance_length {k : List Char} (hc : c.Sound)
    (h : c.rest = w ++ k) : (c.advance w.length).rest = k ∧ (c.advance w.length).Sound := by
  induction w generalizing c with
  | nil => exact ⟨h, hc⟩
  | cons x w ih =>
    obtain ⟨rest, left, pos⟩ := c
    cases (show rest = x :: (w ++ k) from h)
    refine ih (c := ⟨w ++ k, left - 1, pos.step x⟩) ?_ rfl
    have hleft : left = (w ++ k).length + 1 := hc
    exact Nat.sub_eq_of_eq_add hleft

lemma take?_eq_some (hc : c.Sound)
    (h : c.take? p = some d) : d.Sound ∧ ∃ w, c.rest = w ++ d.rest ∧ p.Takes w d.rest := by
  obtain ⟨⟨n, k⟩, hp, rfl⟩ := Option.map_eq_some_iff.mp h
  obtain ⟨w, hw, rfl, htakes⟩ := Pattern.takes_of_take hp
  obtain ⟨hrest, hsound⟩ := advance_length hc hw
  exact ⟨hsound, w, by rw [hrest, hw], hrest ▸ htakes⟩

lemma exists_take? {k : List Char} (hc : c.Sound) (h : c.rest = w ++ k)
    (hp : p.Takes w k) : ∃ d, c.take? p = some d ∧ d.Sound ∧ d.rest = k := by
  obtain ⟨hrest, hsound⟩ := advance_length hc h
  refine ⟨c.advance w.length, ?_, hsound, hrest⟩
  rw [take?, h, hp]
  rfl

lemma take?_eq_none : c.take? p = none ↔ p.take c.rest = none := Option.map_eq_none_iff

lemma skip_sound (hc : c.Sound) (blank : Pattern) :
    (c.skip blank).Sound ∧ (c.skip blank).rest <:+ c.rest := by
  unfold skip
  cases h : c.take? blank with
  | none => exact ⟨hc, suffix_refl _⟩
  | some d =>
    obtain ⟨hd, w, hw, -⟩ := take?_eq_some hc h
    exact ⟨hd, w, hw.symm⟩

lemma textTo_eq (hc : c.Sound) (hd : d.Sound) (h : c.rest = w ++ d.rest) :
    c.textTo d = String.ofList w := by
  have hleft : c.left - d.left = w.length := by
    rw [hc, hd, h, length_append, Nat.add_sub_cancel]
  rw [textTo, hleft, h, take_left]

/-- Of two sound places the one with less text is the one with less left. -/
lemma left_le (hc : c.Sound) (hd : d.Sound) (h : d.rest <:+ c.rest) : d.left ≤ c.left := by
  rw [hc, hd]
  exact h.length_le

lemma left_lt (hc : c.Sound) (hd : d.Sound) (h : d.rest <:+ c.rest) (hne : d.rest ≠ c.rest) :
    d.left < c.left := by
  rw [hc, hd]
  exact lt_of_le_of_ne h.length_le fun hlength => hne (h.eq_of_length hlength)

end Cursor

/-! ## Outcomes -/

/-- An expression is parsed once, or as often as possible behind an occurrence. -/
inductive Phase (ρ : Type) where
  | one (e : Peg ρ)
  | more (e : Peg ρ)

/-- The expression that is parsed. -/
def Phase.peg {ρ : Type} : Phase ρ → Peg ρ
  | one e => e
  | more e => e

/-- The place that parsing reaches and the nodes that it leaves, if it does not fail. -/
abbrev Outcome : Type := Option (Cursor × List Tree)

namespace RuleSet

variable {ρ : Type} (g : RuleSet ρ)

/-- The place where the next part starts. -/
def gap (joined : Bool) (c : Cursor) : Cursor := if joined then c else c.skip g.blank

/-- The nodes that a rule leaves. -/
def leaves (r : ρ) (c d : Cursor) (nodes : List Tree) : List Tree :=
  match (g.rules r).form with
  | .node => [.node (g.kind r) (c.textTo d) c.pos nodes]
  | .mark => []
  | .silent => nodes

lemma close_some (r : ρ) (c d far : Cursor) (nodes : List Tree) :
    (g.close r c (some (d, nodes), far)).1 = some (d, g.leaves r c d nodes) := by
  unfold close leaves
  cases (g.rules r).form <;> rfl

lemma gap_sound {c : Cursor} (hc : c.Sound) (joined : Bool) :
    (g.gap joined c).Sound ∧ (g.gap joined c).rest <:+ c.rest := by
  unfold gap
  split
  · exact ⟨hc, suffix_refl _⟩
  · exact skip_sound hc g.blank

/-- Nothing is skipped where no blanks stand. -/
lemma gap_rest {c : Cursor} (hc : c.Sound) {joined : Bool} (h : g.blank.Takes [] c.rest) :
    (g.gap joined c).rest = c.rest := by
  unfold gap
  split
  · rfl
  · obtain ⟨d, hd, -, hrest⟩ := exists_take? hc (nil_append c.rest).symm h
    rw [skip, hd, Option.getD_some, hrest]

end RuleSet

/-- What parsing comes to. -/
inductive Parses {ρ : Type} (g : RuleSet ρ) : Bool → Phase ρ → Cursor → Outcome → Prop where
  | token {j p c d} (h : c.take? p = some d) : Parses g j (.one (.token p)) c (some (d, []))
  | token_none {j p c} (h : c.take? p = none) : Parses g j (.one (.token p)) c none
  | absent {j p c} (h : c.take? p = none) : Parses g j (.one (.absent p)) c (some (c, []))
  | absent_none {j p c d} (h : c.take? p = some d) : Parses g j (.one (.absent p)) c none
  | finish {j c} (h : c.rest = []) : Parses g j (.one .finish) c (some (c, []))
  | finish_none {j c} (h : c.rest ≠ []) : Parses g j (.one .finish) c none
  | rule {j r c d ns}
    (h : Parses g (j || (g.rules r).joined) (.one (g.rules r).body) c (some (d, ns))) :
      Parses g j (.one (.rule r)) c (some (d, g.leaves r c d ns))
  | rule_none {j r c} (h : Parses g (j || (g.rules r).joined) (.one (g.rules r).body) c none) :
      Parses g j (.one (.rule r)) c none
  | seq {j a b c d e xs ys} (ha : Parses g j (.one a) c (some (d, xs)))
      (hb : Parses g j (.one b) (g.gap j d) (some (e, ys))) :
      Parses g j (.one (.seq a b)) c (some (e, xs ++ ys))
  | seq_none_left {j a b c} (ha : Parses g j (.one a) c none) : Parses g j (.one (.seq a b)) c none
  | seq_none_right {j a b c d xs} (ha : Parses g j (.one a) c (some (d, xs)))
      (hb : Parses g j (.one b) (g.gap j d) none) : Parses g j (.one (.seq a b)) c none
  | alt_left {j a b c d xs} (ha : Parses g j (.one a) c (some (d, xs))) :
    Parses g j (.one (.alt a b)) c (some (d, xs))
  | alt_right {j a b c r} (ha : Parses g j (.one a) c none) (hb : Parses g j (.one b) c r) :
      Parses g j (.one (.alt a b)) c r
  | opt {j a c d xs} (ha : Parses g j (.one a) c (some (d, xs))) :
    Parses g j (.one (.opt a)) c (some (d, xs))
  | opt_none {j a c} (ha : Parses g j (.one a) c none) : Parses g j (.one (.opt a)) c (some (c, []))
  | star {j a c d e xs ys} (ha : Parses g j (.one a) c (some (d, xs)))
    (hm : Parses g j (.more a) d (some (e, ys))) :
      Parses g j (.one (.star a)) c (some (e, xs ++ ys))
  | star_none {j a c} (ha : Parses g j (.one a) c none) :
    Parses g j (.one (.star a)) c (some (c, []))
  | more {j a c d e xs ys} (ha : Parses g j (.one a) (g.gap j c) (some (d, xs)))
    (hd : d.left < c.left)
      (hm : Parses g j (.more a) d (some (e, ys))) : Parses g j (.more a) c (some (e, xs ++ ys))
  | more_stuck {j a c d xs} (ha : Parses g j (.one a) (g.gap j c) (some (d, xs)))
    (hd : ¬d.left < c.left) :
      Parses g j (.more a) c (some (d, xs))
  | more_none {j a c} (ha : Parses g j (.one a) (g.gap j c) none) :
    Parses g j (.more a) c (some (c, []))

namespace Parses

variable {ρ : Type} {g : RuleSet ρ} {j : Bool} {ph : Phase ρ} {c : Cursor} {r r' : Outcome}

lemma close {r : ρ} {parsed : Parsed}
    (h : Parses g (j || (g.rules r).joined) (.one (g.rules r).body) c parsed.1) :
    Parses g j (.one (.rule r)) c (g.close r c parsed).1 := by
  obtain ⟨_ | ⟨d, ns⟩, far⟩ := parsed
  · exact .rule_none h
  · rw [g.close_some]
    exact .rule h

/-- There is one outcome only. -/
theorem unique (h : Parses g j ph c r) (h' : Parses g j ph c r') : r = r' := by
  induction h generalizing r' with
  | token h => cases h' <;> simp_all
  | token_none h => cases h' <;> simp_all
  | absent h => cases h' <;> simp_all
  | absent_none h => cases h' <;> simp_all
  | finish h => cases h' <;> simp_all
  | finish_none h => cases h' <;> simp_all
  | rule h ih =>
    cases h' with
    | rule h' => cases ih h'; rfl
    | rule_none h' => cases ih h'
  | rule_none h ih =>
    cases h' with
    | rule h' => cases ih h'
    | rule_none h' => rfl
  | seq ha hb iha ihb =>
    cases h' with
    | seq ha' hb' => cases iha ha'; cases ihb hb'; rfl
    | seq_none_left ha' => cases iha ha'
    | seq_none_right ha' hb' => cases iha ha'; cases ihb hb'
  | seq_none_left ha iha =>
    cases h' with
    | seq ha' hb' => cases iha ha'
    | seq_none_left ha' => rfl
    | seq_none_right ha' hb' => rfl
  | seq_none_right ha hb iha ihb =>
    cases h' with
    | seq ha' hb' => cases iha ha'; cases ihb hb'
    | seq_none_left ha' => rfl
    | seq_none_right ha' hb' => rfl
  | alt_left ha iha =>
    cases h' with
    | alt_left ha' => exact iha ha'
    | alt_right ha' hb' => cases iha ha'
  | alt_right ha hb iha ihb =>
    cases h' with
    | alt_left ha' => cases iha ha'
    | alt_right ha' hb' => exact ihb hb'
  | opt ha iha =>
    cases h' with
    | opt ha' => exact iha ha'
    | opt_none ha' => cases iha ha'
  | opt_none ha iha =>
    cases h' with
    | opt ha' => cases iha ha'
    | opt_none ha' => rfl
  | star ha hm iha ihm =>
    cases h' with
    | star ha' hm' => cases iha ha'; cases ihm hm'; rfl
    | star_none ha' => cases iha ha'
  | star_none ha iha =>
    cases h' with
    | star ha' hm' => cases iha ha'
    | star_none ha' => rfl
  | more ha hd hm iha ihm =>
    cases h' with
    | more ha' hd' hm' => cases iha ha'; cases ihm hm'; rfl
    | more_stuck ha' hd' => cases iha ha'; exact absurd hd hd'
    | more_none ha' => cases iha ha'
  | more_stuck ha hd iha =>
    cases h' with
    | more ha' hd' hm' => cases iha ha'; exact absurd hd' hd
    | more_stuck ha' hd' => exact iha ha'
    | more_none ha' => cases iha ha'
  | more_none ha iha =>
    cases h' with
    | more ha' hd' hm' => cases iha ha'
    | more_stuck ha' hd' => cases iha ha'
    | more_none ha' => rfl

/-- What is taken stands in front of the rest. -/
lemma sound (h : Parses g j ph c r) (hc : c.Sound) :
    ∀ d ns, r = some (d, ns) → d.Sound ∧ d.rest <:+ c.rest := by
  induction h with
  | token h =>
    rintro d ns ⟨⟩
    obtain ⟨hd, w, hw, -⟩ := take?_eq_some hc h
    exact ⟨hd, w, hw.symm⟩
  | token_none | absent_none | finish_none | rule_none | seq_none_left | seq_none_right =>
    intro d ns hr
    nomatch hr
  | absent | finish | opt_none | star_none | more_none =>
    rintro d ns ⟨⟩
    exact ⟨hc, suffix_refl _⟩
  | rule h ih =>
    rintro d ns ⟨⟩
    exact ih hc _ _ rfl
  | seq ha hb iha ihb =>
    rintro d ns ⟨⟩
    obtain ⟨hd, hsuffix⟩ := iha hc _ _ rfl
    obtain ⟨hgap, hgapsuffix⟩ := g.gap_sound hd _
    obtain ⟨he, hesuffix⟩ := ihb hgap _ _ rfl
    exact ⟨he, hesuffix.trans (hgapsuffix.trans hsuffix)⟩
  | alt_left ha iha => exact iha hc
  | alt_right ha hb iha ihb => exact ihb hc
  | opt ha iha => exact iha hc
  | star ha hm iha ihm =>
    rintro d ns ⟨⟩
    obtain ⟨hd, hsuffix⟩ := iha hc _ _ rfl
    obtain ⟨he, hesuffix⟩ := ihm hd _ _ rfl
    exact ⟨he, hesuffix.trans hsuffix⟩
  | more ha hd hm iha ihm =>
    rintro d ns ⟨⟩
    obtain ⟨hgap, hgapsuffix⟩ := g.gap_sound hc _
    obtain ⟨hd, hsuffix⟩ := iha hgap _ _ rfl
    obtain ⟨he, hesuffix⟩ := ihm hd _ _ rfl
    exact ⟨he, hesuffix.trans (hsuffix.trans hgapsuffix)⟩
  | more_stuck ha hd iha =>
    rintro d ns ⟨⟩
    obtain ⟨hgap, hgapsuffix⟩ := g.gap_sound hc _
    obtain ⟨hd, hsuffix⟩ := iha hgap _ _ rfl
    exact ⟨hd, hsuffix.trans hgapsuffix⟩

end Parses

/-- The text between the places is what the pattern took. -/
lemma Parses.takes {ρ : Type} {g : RuleSet ρ} {j : Bool} {p : Pattern} {c d : Cursor}
    {ns : List Tree} (hc : c.Sound) (h : Parses g j (.one (.token p)) c (some (d, ns))) :
    p.Takes (c.textTo d).toList d.rest := by
  cases h with
  | token h =>
    obtain ⟨hd, w, hw, htakes⟩ := take?_eq_some hc h
    rw [textTo_eq hc hd hw, String.toList_ofList]
    exact htakes

/-! ## Nodes -/

/-- Nodes that an expression can leave, where the rules leave nodes of these kinds. -/
def Peg.Leaves {ρ : Type} (D : ρ → List Tree → Prop) : Peg ρ → List Tree → Prop
  | token _, ns => ns = []
  | absent _, ns => ns = []
  | finish, ns => ns = []
  | rule r, ns => D r ns
  | seq a b, ns => ∃ xs ys, ns = xs ++ ys ∧ a.Leaves D xs ∧ b.Leaves D ys
  | alt a b, ns => a.Leaves D ns ∨ b.Leaves D ns
  | opt a, ns => a.Leaves D ns ∨ ns = []
  | star a, ns => ∃ xss : List (List Tree), ns = xss.flatten ∧ ∀ xs ∈ xss, a.Leaves D xs

def Phase.Leaves {ρ : Type} (D : ρ → List Tree → Prop) : Phase ρ → List Tree → Prop
  | one e => e.Leaves D
  | more e => (Peg.star e).Leaves D

/-- What goes for the nodes of all rules goes for the nodes of an expression. -/
lemma Peg.Leaves.forall_mem {ρ : Type} {D : ρ → List Tree → Prop} {P : Tree → Prop}
    (hD : ∀ r ns, D r ns → ∀ t ∈ ns, P t) {e : Peg ρ} {ns : List Tree} (h : e.Leaves D ns) :
    ∀ t ∈ ns, P t := by
  induction e generalizing ns with
  | token | absent | finish =>
    obtain rfl : ns = [] := h
    exact forall_mem_nil _
  | rule r => exact hD r ns h
  | seq a b iha ihb =>
    obtain ⟨xs, ys, rfl, hxs, hys⟩ := h
    exact forall_mem_append.mpr ⟨iha hxs, ihb hys⟩
  | alt a b iha ihb => exact h.elim iha ihb
  | opt a iha =>
    rcases h with h | rfl
    · exact iha h
    · exact forall_mem_nil _
  | star a iha =>
    obtain ⟨xss, rfl, hxss⟩ := h
    intro t ht
    obtain ⟨xs, hxs, ht⟩ := mem_flatten.mp ht
    exact iha (hxss xs hxs) t ht

/-- What goes for a rule as soon as it goes for the rules in its body goes for all nodes of a
parse. -/
theorem Parses.leaves {ρ : Type} {g : RuleSet ρ} {D : ρ → List Tree → Prop}
    (hD : ∀ {j r c d ns}, c.Sound → Parses g j (.one (g.rules r).body) c (some (d, ns)) →
      (g.rules r).body.Leaves D ns → D r (g.leaves r c d ns))
    {j : Bool} {ph : Phase ρ} {c : Cursor} {r : Outcome} (h : Parses g j ph c r) (hc : c.Sound) :
    ∀ d ns, r = some (d, ns) → ph.Leaves D ns := by
  induction h with
  | token | absent | finish =>
    rintro d ns ⟨⟩
    rfl
  | token_none | absent_none | finish_none | rule_none | seq_none_left | seq_none_right =>
    intro d ns hr
    nomatch hr
  | rule h ih =>
    rintro d ns ⟨⟩
    exact hD hc h (ih hc _ _ rfl)
  | @seq j _ _ _ _ _ _ _ ha hb iha ihb =>
    rintro d ns ⟨⟩
    have hgap := (g.gap_sound (ha.sound hc _ _ rfl).1 j).1
    exact ⟨_, _, rfl, iha hc _ _ rfl, ihb hgap _ _ rfl⟩
  | alt_left ha iha => exact fun d ns hr => .inl (iha hc d ns hr)
  | alt_right ha hb iha ihb => exact fun d ns hr => .inr (ihb hc d ns hr)
  | opt ha iha => exact fun d ns hr => .inl (iha hc d ns hr)
  | opt_none =>
    rintro d ns ⟨⟩
    exact .inr rfl
  | star ha hm iha ihm =>
    rintro d ns ⟨⟩
    obtain ⟨xss, rfl, hxss⟩ := ihm (ha.sound hc _ _ rfl).1 _ _ rfl
    exact ⟨_ :: xss, flatten_cons.symm, forall_mem_cons.mpr ⟨iha hc _ _ rfl, hxss⟩⟩
  | star_none | more_none =>
    rintro d ns ⟨⟩
    exact ⟨[], rfl, forall_mem_nil _⟩
  | @more j _ _ _ _ _ _ ha hd hm iha ihm =>
    rintro d ns ⟨⟩
    have hgap := (g.gap_sound hc j).1
    obtain ⟨xss, rfl, hxss⟩ := ihm (ha.sound hgap _ _ rfl).1 _ _ rfl
    exact ⟨_ :: xss, flatten_cons.symm, forall_mem_cons.mpr ⟨iha hgap _ _ rfl, hxss⟩⟩
  | more_stuck ha hd iha =>
    rintro d ns ⟨⟩
    refine ⟨[_], flatten_singleton.symm,
      forall_mem_singleton.mpr (iha (g.gap_sound hc _).1 _ _ rfl)⟩

/-! ## Strict expressions -/

namespace Peg

variable {ρ : Type} (S : ρ → Bool)

/-- The expression takes a character wherever it matches, if these rules do. -/
def isStrict : Peg ρ → Bool
  | token p => p.isStrict
  | absent _ => false
  | finish => false
  | rule r => S r
  | seq a b => a.isStrict || b.isStrict
  | alt a b => a.isStrict && b.isStrict
  | opt _ => false
  | star _ => false

/-- The rules that can be reached without taking a character. -/
def heads : Peg ρ → List ρ
  | token _ => []
  | absent _ => []
  | finish => []
  | rule r => [r]
  | seq a b => a.heads ++ if a.isStrict S then [] else b.heads
  | alt a b => a.heads ++ b.heads
  | opt a => a.heads
  | star a => a.heads

/-- The expression can take a text that starts with a character, if these rules can. -/
def starts (F : ρ → Bool) (x : Char) : Peg ρ → Bool
  | token p => p.starts x
  | absent _ => false
  | finish => false
  | rule r => F r
  | seq a b => a.starts F x || !a.isStrict S && b.starts F x
  | alt a b => a.starts F x || b.starts F x
  | opt a => a.starts F x
  | star a => a.starts F x

end Peg

namespace RuleSet

variable {ρ : Type} (g : RuleSet ρ)

/-- Rules that are seen to be strict when references are followed to a depth. -/
def isStrict : Nat → ρ → Bool
  | 0, _ => false
  | n + 1, r => (g.rules r).body.isStrict (isStrict n)

/-- Rules that can take a text that starts with a character, as far as references are followed. -/
def starts (x : Char) : Nat → ρ → Bool
  | 0, _ => true
  | n + 1, r => (g.rules r).body.starts (g.isStrict n) (starts x n) x

/-- Ranks decrease along references that can be reached without taking a character. -/
def Ranked : Prop := ∃ n, ∀ r, ∀ r' ∈ (g.rules r).body.heads (g.isStrict n), g.rank r' < g.rank r

end RuleSet

namespace Parses

variable {ρ : Type} {g : RuleSet ρ} {j : Bool} {ph : Phase ρ} {c : Cursor} {r : Outcome}

/-- A strict expression takes a character. -/
lemma ne_of_isStrict (h : Parses g j ph c r) (hc : c.Sound) :
    ∀ n e d ns, ph = .one e → r = some (d, ns) → e.isStrict (g.isStrict n) → d.rest ≠ c.rest := by
  induction h with
  | token h =>
    rintro n e d ns ⟨⟩ ⟨⟩ hstrict heq
    obtain ⟨-, w, hw, htakes⟩ := take?_eq_some hc h
    rw [heq] at hw
    exact Pattern.ne_nil_of_isStrict hstrict htakes (self_eq_append_left.mp hw)
  | token_none | absent_none | finish_none | rule_none | seq_none_left | seq_none_right =>
    rintro n e d ns - hr
    nomatch hr
  | absent | finish | opt_none | star_none | opt | star =>
    rintro n e d ns ⟨⟩ - hstrict
    nomatch hstrict
  | rule h ih =>
    rintro n e d ns ⟨⟩ ⟨⟩ hstrict
    cases n with
    | zero => nomatch hstrict
    | succ n => exact ih hc n _ _ _ rfl rfl hstrict
  | seq ha hb iha ihb =>
    rintro n e d ns ⟨⟩ ⟨⟩ hstrict heq
    obtain ⟨hd, hsuffix⟩ := ha.sound hc _ _ rfl
    obtain ⟨hgap, hgapsuffix⟩ := g.gap_sound hd _
    obtain ⟨he, hesuffix⟩ := hb.sound hgap _ _ rfl
    -- between equal texts everything in between is equal
    rw [← heq] at hsuffix
    have hd' := (hesuffix.trans hgapsuffix).eq_of_length_le hsuffix.length_le
    rcases Bool.or_eq_true_iff.mp hstrict with hstrict | hstrict
    · exact iha hc n _ _ _ rfl rfl hstrict (hd'.symm.trans heq)
    · refine ihb hgap n _ _ _ rfl rfl hstrict ?_
      exact hesuffix.eq_of_length_le (hd' ▸ hgapsuffix.length_le)
  | alt_left ha iha =>
    rintro n e d ns ⟨⟩ hr hstrict
    exact iha hc n _ _ _ rfl hr (Bool.and_eq_true_iff.mp hstrict).1
  | alt_right ha hb iha ihb =>
    rintro n e d ns ⟨⟩ hr hstrict
    exact ihb hc n _ _ _ rfl hr (Bool.and_eq_true_iff.mp hstrict).2
  | more | more_stuck | more_none =>
    rintro n e d ns hph
    nomatch hph

/-- What is taken starts with a character that the expression can start with. Where nothing is
skipped at first, this goes for the parts behind those that take nothing, too. -/
lemma starts (h : Parses g j ph c r) (hc : c.Sound) {x : Char} {s : List Char}
    (hrest : c.rest = x :: s) (hclear : g.blank.Takes [] (x :: s)) :
    ∀ n d ns, r = some (d, ns) → d.rest ≠ c.rest →
      ph.peg.starts (g.isStrict n) (g.starts x n) x := by
  induction h with
  | token h =>
    rintro n d ns ⟨⟩ hne
    obtain ⟨-, w, hw, htakes⟩ := take?_eq_some hc h
    cases w with
    | nil => exact absurd hw.symm hne
    | cons y w =>
      rw [hrest] at hw
      cases hw
      exact Pattern.starts_of_takes htakes
  | token_none | absent_none | finish_none | rule_none | seq_none_left | seq_none_right =>
    intro n d ns hr
    nomatch hr
  | absent | finish | opt_none | star_none | more_none =>
    rintro n d ns ⟨⟩ hne
    exact absurd rfl hne
  | rule h ih =>
    rintro n d ns ⟨⟩ hne
    cases n with
    | zero => rfl
    | succ n => exact ih hc hrest n _ _ rfl hne
  | @seq j a b c d e xs ys ha hb iha ihb =>
    rintro n d' ns ⟨⟩ hne
    obtain ⟨hd, -⟩ := ha.sound hc _ _ rfl
    change (a.starts (g.isStrict n) (g.starts x n) x || !a.isStrict (g.isStrict n) &&
      b.starts (g.isStrict n) (g.starts x n) x) = true
    rw [Bool.or_eq_true_iff, Bool.and_eq_true_iff, Bool.not_eq_true']
    by_cases hdc : d.rest = c.rest
    · -- the first part took nothing, and nothing is skipped behind it
      have hgap : (g.gap j d).rest = d.rest := g.gap_rest hd (by rw [hdc, hrest]; exact hclear)
      refine .inr ⟨Bool.eq_false_iff.mpr fun hstrict => ?_, ?_⟩
      · exact ha.ne_of_isStrict hc n _ _ _ rfl rfl hstrict hdc
      · refine ihb (g.gap_sound hd j).1 ?_ n _ _ rfl ?_
        · rw [hgap, hdc, hrest]
        · rw [hgap, hdc]
          exact hne
    · exact .inl (iha hc hrest n _ _ rfl hdc)
  | alt_left ha iha =>
    rintro n d ns hr hne
    exact Bool.or_eq_true_iff.mpr (.inl (iha hc hrest n _ _ hr hne))
  | alt_right ha hb iha ihb =>
    rintro n d ns hr hne
    exact Bool.or_eq_true_iff.mpr (.inr (ihb hc hrest n _ _ hr hne))
  | opt ha iha => exact iha hc hrest
  | @star j a c d e xs ys ha hm iha ihm =>
    rintro n d' ns ⟨⟩ hne
    obtain ⟨hd, -⟩ := ha.sound hc _ _ rfl
    by_cases hdc : d.rest = c.rest
    · exact ihm hd (hdc.trans hrest) n _ _ rfl (hdc ▸ hne)
    · exact iha hc hrest n _ _ rfl hdc
  | @more j a c d e xs ys ha hlt hm iha ihm =>
    rintro n d' ns ⟨⟩ hne
    have hgap : (g.gap j c).rest = c.rest := g.gap_rest hc (by rw [hrest]; exact hclear)
    obtain ⟨hd, -⟩ := ha.sound (g.gap_sound hc j).1 _ _ rfl
    by_cases hdc : d.rest = c.rest
    · exact ihm hd (hdc.trans hrest) n _ _ rfl (hdc ▸ hne)
    · exact iha (g.gap_sound hc j).1 (hgap.trans hrest) n _ _ rfl (hgap ▸ hdc)
  | @more_stuck j a c d xs ha hd iha =>
    rintro n d' ns ⟨⟩ hne
    have hgap : (g.gap j c).rest = c.rest := g.gap_rest hc (by rw [hrest]; exact hclear)
    exact iha (g.gap_sound hc j).1 (hgap.trans hrest) n _ _ rfl (hgap ▸ hne)

end Parses

/-! ## Runs -/

namespace RuleSet

variable {ρ : Type} {g : RuleSet ρ}

/-- No rule that can be reached without taking a character is refused at a place. -/
def Fits (g : RuleSet ρ) (n limit rank : Nat) (e : Peg ρ) (c : Cursor) : Prop :=
  c.left < limit ∨ c.left = limit ∧ ∀ r ∈ e.heads (g.isStrict n), g.rank r < rank

variable {n limit rank : Nat} {c : Cursor}

lemma Fits.further {e f : Peg ρ} {d : Cursor} (h : g.Fits n limit rank e c) (hd : d.left ≤ c.left)
    (he : d.left = c.left → ∀ r ∈ f.heads (g.isStrict n), r ∈ e.heads (g.isStrict n)) :
    g.Fits n limit rank f d := by
  rcases h with h | ⟨h, hheads⟩
  · exact .inl (lt_of_le_of_lt hd h)
  · rcases Nat.lt_or_eq_of_le hd with hlt | heq
    · exact .inl (h ▸ hlt)
    · exact .inr ⟨heq.trans h, fun r hr => hheads r (he heq r hr)⟩

lemma Fits.seq_left {a b : Peg ρ} (h : g.Fits n limit rank (.seq a b) c) :
    g.Fits n limit rank a c :=
  h.further le_rfl fun _ _ hr => mem_append_left _ hr

/-- Behind a part that took nothing, and so is not strict, the next part can be reached without
taking anything. -/
lemma Fits.seq_right {joined : Bool} {a b : Peg ρ} {d : Cursor} {xs : List Tree}
    (h : g.Fits n limit rank (.seq a b) c) (hc : c.Sound)
    (ha : Parses g joined (.one a) c (some (d, xs))) : g.Fits n limit rank b (g.gap joined d) := by
  obtain ⟨hd, hsuffix⟩ := ha.sound hc _ _ rfl
  obtain ⟨hgap, hgapsuffix⟩ := g.gap_sound hd joined
  refine h.further (left_le hc hgap (hgapsuffix.trans hsuffix)) fun heq r hr => ?_
  refine mem_append_right _ ?_
  have hnot : a.isStrict (g.isStrict n) = false := by
    refine Bool.eq_false_iff.mpr fun hstrict => ?_
    have hlt := left_lt hc hd hsuffix (ha.ne_of_isStrict hc n _ _ _ rfl rfl hstrict)
    have hle := left_le hd hgap hgapsuffix
    omega
  rw [hnot]
  exact hr

section

variable {joined : Bool} {a b : Peg ρ} {far : Cursor}

/-- A sequence, from its first part and whatever comes behind it. -/
lemma parses_run_seq (ha : Parses g joined (.one a) c (g.run limit rank joined a c far).1)
    (hb : ∀ d xs far', g.run limit rank joined a c far = (some (d, xs), far') →
      Parses g joined (.one b) (g.gap joined d)
      (g.run limit rank joined b (g.gap joined d) far').1) :
    Parses g joined (.one (.seq a b)) c (g.run limit rank joined (.seq a b) c far).1 := by
  rw [run]
  rcases hrun : g.run limit rank joined a c far with ⟨_ | ⟨d, xs⟩, far'⟩
  · rw [hrun] at ha
    exact .seq_none_left ha
  · rw [hrun] at ha
    have hb := hb d xs far' hrun
    have hgap : (if joined then d else d.skip g.blank) = g.gap joined d := rfl
    dsimp only
    rw [hgap]
    rcases hrun' : g.run limit rank joined b (g.gap joined d) far' with ⟨_ | ⟨e, ys⟩, far''⟩
    · rw [hrun'] at hb
      exact .seq_none_right ha hb
    · rw [hrun'] at hb
      exact .seq ha hb

/-- A choice, from its first part and the second one wherever that fails. -/
lemma parses_run_alt (ha : Parses g joined (.one a) c (g.run limit rank joined a c far).1)
    (hb : ∀ far', Parses g joined (.one b) c (g.run limit rank joined b c far').1) :
    Parses g joined (.one (.alt a b)) c (g.run limit rank joined (.alt a b) c far).1 := by
  rw [run]
  rcases hrun : g.run limit rank joined a c far with ⟨_ | parsed, far'⟩
  · rw [hrun] at ha
    exact .alt_right ha (hb far')
  · rw [hrun] at ha
    exact .alt_left ha

lemma parses_run_opt (ha : Parses g joined (.one a) c (g.run limit rank joined a c far).1) :
    Parses g joined (.one (.opt a)) c (g.run limit rank joined (.opt a) c far).1 := by
  rw [run]
  rcases hrun : g.run limit rank joined a c far with ⟨_ | parsed, far'⟩
  · rw [hrun] at ha
    exact .opt_none ha
  · rw [hrun] at ha
    exact .opt ha

/-- A repetition, from its first occurrence and those behind it. -/
lemma parses_run_star (ha : Parses g joined (.one a) c (g.run limit rank joined a c far).1)
    (hm : ∀ d xs far', g.run limit rank joined a c far = (some (d, xs), far') →
      Parses g joined (.more a) d (some (g.more limit rank joined a d far').1)) :
    Parses g joined (.one (.star a)) c (g.run limit rank joined (.star a) c far).1 := by
  rw [run]
  rcases hrun : g.run limit rank joined a c far with ⟨_ | ⟨d, xs⟩, far'⟩
  · rw [hrun] at ha
    exact .star_none ha
  · rw [hrun] at ha
    exact .star ha (hm d xs far' hrun)

/-- Further occurrences, from the next one and, if it takes something, those behind it. -/
lemma parses_more_of_run
    (ha : Parses g joined (.one a) (g.gap joined c)
      (g.run limit rank joined a (g.gap joined c) far).1)
    (hm : ∀ d xs far', g.run limit rank joined a (g.gap joined c) far = (some (d, xs), far') →
      d.left < c.left → Parses g joined (.more a) d (some (g.more limit rank joined a d far').1)) :
    Parses g joined (.more a) c (some (g.more limit rank joined a c far).1) := by
  have hgap : (if joined then c else c.skip g.blank) = g.gap joined c := rfl
  rw [more, hgap]
  rcases hrun : g.run limit rank joined a (g.gap joined c) far with ⟨_ | ⟨d, xs⟩, far'⟩
  · rw [hrun] at ha
    exact .more_none ha
  · rw [hrun] at ha
    dsimp only
    split
    · rename_i hlt
      exact .more ha hlt (hm d xs far' hrun hlt)
    · rename_i hlt
      exact .more_stuck ha hlt

end

mutual

/-- Runs of a ranked grammar come to the one outcome, as long as no rule is refused. -/
theorem parses_run (hg : ∀ r, ∀ r' ∈ (g.rules r).body.heads (g.isStrict n), g.rank r' < g.rank r)
    (limit rank : Nat) (joined : Bool) (e : Peg ρ) (c far : Cursor) (hc : c.Sound)
    (hfits : g.Fits n limit rank e c) :
    Parses g joined (.one e) c (g.run limit rank joined e c far).1 := by
  match e with
  | .token p =>
    rw [run]
    cases h : c.take? p with
    | none => exact .token_none h
    | some d => exact .token h
  | .absent p =>
    rw [run]
    cases h : c.take? p with
    | none => exact .absent h
    | some d => exact .absent_none h
  | .finish =>
    rw [run]
    cases h : c.rest with
    | nil => exact .finish h
    | cons x s => exact .finish_none (by rw [h]; exact cons_ne_nil x s)
  | .rule r =>
    rw [run]
    split_ifs with hlt hrank
    · exact .close (parses_run hg c.left (g.rank r) _ _ c far hc (.inr ⟨rfl, hg r⟩))
    · obtain ⟨hfits, -⟩ := hfits.resolve_left hlt
      exact .close (parses_run hg limit (g.rank r) _ _ c far hc (.inr ⟨hfits, hg r⟩))
    · -- no rule is refused
      rcases hfits with hfits | ⟨-, hfits⟩
      · exact absurd hfits hlt
      · exact absurd (hfits r (mem_singleton_self r)) hrank
  | .seq a b =>
    have ha := parses_run hg limit rank joined a c far hc hfits.seq_left
    refine parses_run_seq ha fun d xs far' hrun => ?_
    rw [hrun] at ha
    have hgap := (g.gap_sound (ha.sound hc _ _ rfl).1 joined).1
    exact parses_run hg limit rank joined b _ far' hgap (hfits.seq_right hc ha)
  | .alt a b =>
    have hleft := hfits.further (f := a) le_rfl fun _ r hr => mem_append_left _ hr
    have hright := hfits.further (f := b) le_rfl fun _ r hr => mem_append_right _ hr
    refine parses_run_alt (parses_run hg limit rank joined a c far hc hleft) fun far' => ?_
    exact parses_run hg limit rank joined b c far' hc hright
  | .opt a =>
    have hpart := hfits.further (f := a) le_rfl fun _ r hr => hr
    exact parses_run_opt (parses_run hg limit rank joined a c far hc hpart)
  | .star a =>
    have hpart := hfits.further (f := a) le_rfl fun _ r hr => hr
    have ha := parses_run hg limit rank joined a c far hc hpart
    refine parses_run_star ha fun d xs far' hrun => ?_
    rw [hrun] at ha
    obtain ⟨hd, hsuffix⟩ := ha.sound hc _ _ rfl
    exact parses_more hg limit rank joined a d far' hd (hpart.further (left_le hc hd hsuffix)
      fun _ r hr => hr)
termination_by (limit, rank, 2 * e.size, c.left)
decreasing_by
  all_goals simp only [Prod.lex_def, Peg.size, true_and]
  all_goals omega

/-- So do runs behind an occurrence. -/
theorem parses_more (hg : ∀ r, ∀ r' ∈ (g.rules r).body.heads (g.isStrict n), g.rank r' < g.rank r)
    (limit rank : Nat) (joined : Bool) (a : Peg ρ) (c far : Cursor) (hc : c.Sound)
    (hfits : g.Fits n limit rank a c) :
    Parses g joined (.more a) c (some (g.more limit rank joined a c far).1) := by
  obtain ⟨hgap, hgapsuffix⟩ := g.gap_sound hc joined
  have hnext := hfits.further (left_le hc hgap hgapsuffix) fun _ r hr => hr
  have ha := parses_run hg limit rank joined a _ far hgap hnext
  refine parses_more_of_run ha fun d xs far' hrun hlt => ?_
  rw [hrun] at ha
  have hd := (ha.sound hgap _ _ rfl).1
  exact parses_more hg limit rank joined a d far' hd (hfits.further (Nat.le_of_lt hlt)
    fun _ r hr => hr)
termination_by (limit, rank, 2 * a.size + 1, c.left)
decreasing_by
  all_goals simp only [Prod.lex_def, true_and]
  all_goals omega

end

/-- Some outcome there always is. -/
theorem Ranked.exists_parses (hg : g.Ranked) (joined : Bool) (e : Peg ρ)
    (hc : c.Sound) : ∃ r, Parses g joined (.one e) c r := by
  obtain ⟨n, hn⟩ := hg
  exact ⟨_, parses_run hn (c.left + 1) 0 joined e c c hc (.inl (Nat.lt_succ_self _))⟩

/-- In a ranked grammar, the nodes of a text are those that its starting rule leaves. -/
theorem Ranked.parse_eq_ok (hg : g.Ranked) {r : ρ} {s : String} {ns : List Tree} :
    g.parse r s = .ok ns ↔
      ∃ d, Parses g false (.one (.rule r)) (.start s.toList) (some (d, ns)) := by
  obtain ⟨n, hn⟩ := hg
  have hstart : Sound (.start s.toList) := sound_start _
  have hparses := parses_run hn (start s.toList).left (g.rank r + 1) false (.rule r)
    (.start s.toList) (.start s.toList) hstart
    (.inr ⟨rfl, fun r' hr' => mem_singleton.mp hr' ▸ Nat.lt_succ_self _⟩)
  unfold parse
  dsimp only
  rcases hrun : g.run (start s.toList).left (g.rank r + 1) false (.rule r) (.start s.toList)
    (.start s.toList) with ⟨_ | ⟨d, ns'⟩, far⟩
  · rw [hrun] at hparses
    simp only [reduceCtorEq, false_iff, not_exists]
    exact fun d h => nomatch hparses.unique h
  · rw [hrun] at hparses
    constructor
    · rintro ⟨⟩
      exact ⟨d, hparses⟩
    · rintro ⟨d', h⟩
      cases hparses.unique h
      rfl

end RuleSet

end SolidScript.Grammar
