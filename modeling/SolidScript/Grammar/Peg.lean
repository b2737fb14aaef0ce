import SolidScript.Grammar.Pattern
import SolidScript.Grammar.Tree

/-!
# Parsing expressions with rules

Ordered-choice grammars in which rules refer to each other. Between the parts of a sequence and
between repetitions blanks are skipped, except inside a joined rule. A successful parse gives a
syntax tree; a failed one the furthest place at which a rule that is not silent was tried in vain.

`RuleSet.run` is total for every grammar: a rule is entered only with less text left than when the
current rule was entered, or with a lower rank. In a grammar whose ranks decrease along all
references that can be reached without taking a character, no rule is ever refused on that ground.
-/

namespace SolidScript.Grammar

inductive Peg (ρ : Type) where
  | token (p : Pattern)
  /-- Takes nothing, and fails where the pattern matches. -/
  | absent (p : Pattern)
  | finish
  | rule (r : ρ)
  | seq (a b : Peg ρ)
  | alt (a b : Peg ρ)
  | opt (a : Peg ρ)
  | star (a : Peg ρ)

inductive Form where
  | node
  /-- Nothing, though a failed attempt counts for the place of an error. -/
  | mark
  /-- The nodes of its parts; its attempts do not count. -/
  | silent
deriving DecidableEq

structure Rule (ρ : Type) where
  form : Form
  body : Peg ρ
  /-- No blanks may stand between the parts. -/
  joined : Bool := false

/-- A grammar: its rules, their names and ranks, and what is skipped between parts. -/
structure RuleSet (ρ : Type) where
  rules : ρ → Rule ρ
  kind : ρ → String
  rank : ρ → Nat
  blank : Pattern

/-- A place in the text being parsed, with the text from there on and its length. -/
structure Cursor where
  rest : List Char
  left : Nat
  pos : Position

namespace Cursor

def start (s : List Char) : Cursor := ⟨s, s.length, .start⟩

def advance : Nat → Cursor → Cursor
  | 0, c => c
  | _ + 1, ⟨[], left, pos⟩ => ⟨[], left, pos⟩
  | n + 1, ⟨d :: rest, left, pos⟩ => advance n ⟨rest, left - 1, pos.step d⟩

def take? (c : Cursor) (p : Pattern) : Option Cursor :=
  (p.take c.rest).map fun (n, _) => c.advance n

/-- The place behind whatever blanks stand here. -/
def skip (c : Cursor) (blank : Pattern) : Cursor := (c.take? blank).getD c

def textTo (c d : Cursor) : String := String.ofList (c.rest.take (c.left - d.left))

def further (c d : Cursor) : Cursor := if d.left < c.left then d else c

end Cursor

def Peg.size {ρ : Type} : Peg ρ → Nat
  | token _ => 0
  | absent _ => 0
  | finish => 0
  | rule _ => 0
  | seq a b => a.size + b.size + 1
  | alt a b => a.size + b.size + 1
  | opt a => a.size + 1
  | star a => a.size + 1

/-- The nodes of a successful parse with the place behind it, and the furthest failure so far. -/
abbrev Parsed : Type := Option (Cursor × List Tree) × Cursor

namespace RuleSet

variable {ρ : Type} (g : RuleSet ρ)

/-- What a rule makes of the outcome of its body. -/
def close (r : ρ) (c : Cursor) : Parsed → Parsed
  | (some (d, nodes), far) =>
    match (g.rules r).form with
    | .node => (some (d, [.node (g.kind r) (c.textTo d) c.pos nodes]), far)
    | .mark => (some (d, []), far)
    | .silent => (some (d, nodes), far)
  | (none, far) => (none, if (g.rules r).form = .silent then far else far.further c)

mutual

/-- Parse an expression at a place, inside a rule of rank `rank` that was entered with `limit`
characters left. -/
def run (limit rank : Nat) (joined : Bool) (e : Peg ρ) (c far : Cursor) : Parsed :=
  match e with
  | .token p => ((c.take? p).map (·, []), far)
  | .absent p => (if (c.take? p).isSome then none else some (c, []), far)
  | .finish => (if c.rest.isEmpty then some (c, []) else none, far)
  | .rule r =>
    if c.left < limit then
      g.close r c (run c.left (g.rank r) (joined || (g.rules r).joined) (g.rules r).body c far)
    else if g.rank r < rank then
      g.close r c (run limit (g.rank r) (joined || (g.rules r).joined) (g.rules r).body c far)
    else (none, far)
  | .seq a b =>
    match run limit rank joined a c far with
    | (some (d, xs), far) =>
      match run limit rank joined b (if joined then d else d.skip g.blank) far with
      | (some (d, ys), far) => (some (d, xs ++ ys), far)
      | (none, far) => (none, far)
    | (none, far) => (none, far)
  | .alt a b =>
    match run limit rank joined a c far with
    | (some parsed, far) => (some parsed, far)
    | (none, far) => run limit rank joined b c far
  | .opt a =>
    match run limit rank joined a c far with
    | (some parsed, far) => (some parsed, far)
    | (none, far) => (some (c, []), far)
  | .star a =>
    match run limit rank joined a c far with
    | (some (d, xs), far) =>
      let ((d, ys), far) := more limit rank joined a d far
      (some (d, xs ++ ys), far)
    | (none, far) => (some (c, []), far)
termination_by (limit, rank, 2 * e.size, c.left)
decreasing_by
  all_goals simp only [Prod.lex_def, Peg.size, true_and]
  all_goals omega

/-- Parse an expression as often as possible, blanks before each occurrence; those in front of a
failed attempt are not taken. -/
def more (limit rank : Nat) (joined : Bool) (a : Peg ρ) (c far : Cursor) :
    (Cursor × List Tree) × Cursor :=
  match run limit rank joined a (if joined then c else c.skip g.blank) far with
  | (some (d, xs), far) =>
    if d.left < c.left then
      let ((d, ys), far) := more limit rank joined a d far
      ((d, xs ++ ys), far)
    else ((d, xs), far)
  | (none, far) => ((c, []), far)
termination_by (limit, rank, 2 * a.size + 1, c.left)
decreasing_by
  all_goals simp only [Prod.lex_def, true_and]
  all_goals omega

end

/-- Parse a whole text by a rule: its nodes, or the furthest place of a failed attempt. -/
def parse (r : ρ) (s : String) : Except Position (List Tree) :=
  let c := Cursor.start s.toList
  match g.run c.left (g.rank r + 1) false (.rule r) c c with
  | (some (_, nodes), _) => .ok nodes
  | (none, far) => .error far.pos

end RuleSet

end SolidScript.Grammar
