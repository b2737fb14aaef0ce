/-!
# Patterns of characters

Ordered-choice patterns without rules, for words, literals and what may stand between them. A
pattern takes characters from the front of a text or fails; a repetition takes as much as it can and
never gives back.
-/

namespace SolidScript.Grammar

inductive Pattern where
  | literal (s : List Char)
  | char (p : Char → Bool)
  | seq (a b : Pattern)
  /-- The second pattern where the first one fails. -/
  | alt (a b : Pattern)
  | opt (a : Pattern)
  | star (a : Pattern)
  /-- Takes nothing, and fails where the pattern matches. -/
  | absent (a : Pattern)

abbrev Taken : Type := Nat × List Char

def takeLiteral : List Char → List Char → Nat → Option Taken
  | [], s, n => some (n, s)
  | _ :: _, [], _ => none
  | c :: cs, d :: s, n => if c = d then takeLiteral cs s (n + 1) else none

/-- Take by `f` as often as it takes something, at most `fuel` times. -/
def takeMany (f : List Char → Option Taken) : Nat → Nat → List Char → Taken
  | 0, n, s => (n, s)
  | fuel + 1, n, s =>
    match f s with
    | some (k + 1, s') => takeMany f fuel (n + (k + 1)) s'
    | _ => (n, s)

/-- Take a pattern from the front of a text. A repetition can take no more often than there are
characters. -/
def Pattern.take : Pattern → List Char → Option Taken
  | literal cs, s => takeLiteral cs s 0
  | char _, [] => none
  | char p, c :: s => if p c then some (1, s) else none
  | seq a b, s =>
    match a.take s with
    | some (n, s') => (b.take s').map fun (m, s'') => (n + m, s'')
    | none => none
  | alt a b, s =>
    match a.take s with
    | some t => some t
    | none => b.take s
  | opt a, s => some ((a.take s).getD (0, s))
  | star a, s => some (takeMany a.take s.length 0 s)
  | absent a, s => if (a.take s).isSome then none else some (0, s)

def Pattern.text (s : String) : Pattern := .literal s.toList

def Pattern.oneOf : List Pattern → Pattern
  | [] => .char fun _ => false
  | [p] => p
  | p :: ps => .alt p (oneOf ps)

def Pattern.inOrder : List Pattern → Pattern
  | [] => .literal []
  | [p] => p
  | p :: ps => .seq p (inOrder ps)

def Pattern.plus (p : Pattern) : Pattern := .seq p (.star p)

end SolidScript.Grammar
