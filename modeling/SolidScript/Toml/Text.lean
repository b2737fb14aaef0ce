/-!
# Text in TOML

The four forms of quoted text, read one character at a time, and the form that a text is written in.
-/

namespace SolidScript.Toml

structure Quoting where
  quote : Char
  /-- Over several lines, between three quotes. -/
  long : Bool
  escapes : Bool

/-- How far a quoted text has been read. -/
inductive Progress where
  | plain
  /-- Some quotes that may begin the end of a long text. -/
  | quotes (n : Nat)
  /-- The end, and further quotes that belong to the text. -/
  | closed (n : Nat)
  /-- A carriage return, which a line feed has to follow. -/
  | carriage (joining : Bool)
  | escape
  /-- A code point, with the number of digits to come and its value so far. -/
  | code (left value : Nat)
  /-- A backslash and blanks, which the end of the line has to follow. -/
  | joining
  /-- The blanks and empty lines after a joined line end. -/
  | indent

def isBlank (c : Char) : Bool := c = ' ' || c = '\t'

/-- Characters that stand for themselves. -/
def isText (c : Char) : Bool := c = '\t' || ('\x20' ≤ c && c ≠ '\x7f')

def digit? (base : Nat) (c : Char) : Option Nat :=
  let value :=
    if '0' ≤ c ∧ c ≤ '9' then c.toNat - '0'.toNat
    else if 'a' ≤ c ∧ c ≤ 'f' then c.toNat - 'a'.toNat + 10
    else if 'A' ≤ c ∧ c ≤ 'F' then c.toNat - 'A'.toNat + 10
    else base
  if value < base then some value else none

namespace Quoting

/-- One character of the text itself: the characters it adds, and the progress after it. -/
def plainStep (q : Quoting) (c : Char) : Option (List Char × Progress) :=
  if c = q.quote then some ([], if q.long then .quotes 1 else .closed 0)
  else if q.escapes ∧ c = '\\' then some ([], .escape)
  else if q.long ∧ c = '\n' then some (['\n'], .plain)
  else if q.long ∧ c = '\r' then some ([], .carriage false)
  else if isText c then some ([c], .plain)
  else none

def escapeStep (q : Quoting) (c : Char) : Option (List Char × Progress) :=
  match c with
  | 'b' => some (['\x08'], .plain)
  | 't' => some (['\t'], .plain)
  | 'n' => some (['\n'], .plain)
  | 'f' => some (['\x0c'], .plain)
  | 'r' => some (['\r'], .plain)
  | '"' => some (['"'], .plain)
  | '\\' => some (['\\'], .plain)
  | 'u' => some ([], .code 4 0)
  | 'U' => some ([], .code 8 0)
  | '\n' => if q.long then some ([], .indent) else none
  | '\r' => if q.long then some ([], .carriage true) else none
  | c => if q.long ∧ isBlank c then some ([], .joining) else none

def step (q : Quoting) (c : Char) : Progress → Option (List Char × Progress)
  | .plain => q.plainStep c
  | .quotes n =>
    if c = q.quote then some ([], if n = 2 then .closed 0 else .quotes (n + 1))
    else (q.plainStep c).map fun (cs, progress) => (List.replicate n q.quote ++ cs, progress)
  | .closed _ => none
  | .carriage joining =>
    if c ≠ '\n' then none else if joining then some ([], .indent) else some (['\n'], .plain)
  | .escape => q.escapeStep c
  | .code left value =>
    match digit? 16 c with
    | none => none
    | some d =>
      let value := value * 16 + d
      if left > 1 then some ([], .code (left - 1) value)
      else if value.isValidChar then some ([Char.ofNat value], .plain)
      else none
  | .joining =>
    if c = '\n' then some ([], .indent)
    else if c = '\r' then some ([], .carriage true)
    else if isBlank c then some ([], .joining)
    else none
  | .indent =>
    if c = '\n' ∨ isBlank c then some ([], .indent)
    else if c = '\r' then some ([], .carriage true)
    else q.plainStep c

/-- The rest of a quoted text, and what follows it. A long text may end in up to two quotes of its
own. -/
def scan (q : Quoting) : Progress → List Char → Option (List Char × List Char)
  | .closed n, [] => some (List.replicate n q.quote, [])
  | _, [] => none
  | .closed n, c :: rest =>
    if q.long ∧ c = q.quote ∧ n < 2 then q.scan (.closed (n + 1)) rest
    else some (List.replicate n q.quote, c :: rest)
  | progress, c :: rest => do
    let (added, progress) ← q.step c progress
    let (cs, rest) ← q.scan progress rest
    return (added ++ cs, rest)

end Quoting

/-- A line feed, alone or after a carriage return. -/
def newline? : List Char → Option (List Char)
  | '\n' :: rest => some rest
  | '\r' :: '\n' :: rest => some rest
  | _ => none

def shortText? : List Char → Option (List Char × List Char)
  | '"' :: rest => Quoting.scan ⟨'"', false, true⟩ .plain rest
  | '\'' :: rest => Quoting.scan ⟨'\'', false, false⟩ .plain rest
  | _ => none

/-- A text between one or three quotes. A line end right after three quotes does not count. -/
def text? : List Char → Option (List Char × List Char)
  | '"' :: '"' :: '"' :: rest => Quoting.scan ⟨'"', true, true⟩ .plain ((newline? rest).getD rest)
  | '\'' :: '\'' :: '\'' :: rest =>
    Quoting.scan ⟨'\'', true, false⟩ .plain ((newline? rest).getD rest)
  | cs => shortText? cs

/-! ## Writing -/

def longestRun (c : Char) (cs : List Char) : Nat :=
  (cs.foldl (fun (run, longest) d => if d = c then (run + 1, max longest (run + 1))
    else (0, longest)) (0, 0)).2

/-- Characters that can only be written as escapes. -/
def isControl (c : Char) : Bool := (c < '\x20' && c ≠ '\t' && c ≠ '\n') || c = '\x7f'

def fourDigits (n : Nat) : List Char :=
  let digits := (Nat.toDigits 16 n).map Char.toUpper
  List.replicate (4 - digits.length) '0' ++ digits

/-- A character with escapes, other than a quote. -/
def escaped (long : Bool) (c : Char) : List Char :=
  if c = '\x08' then ['\\', 'b']
  else if c = '\t' then ['\\', 't']
  else if c = '\n' then if long then ['\n'] else ['\\', 'n']
  else if c = '\x0c' then ['\\', 'f']
  else if c = '\r' then ['\\', 'r']
  else if c = '\\' then ['\\', '\\']
  else if isControl c then '\\' :: 'u' :: fourDigits c.toNat
  else [c]

/-- Characters with escapes. Quotes are escaped where more than `allowed` would stand in a row,
`seen` being those before. -/
def escapedText (long : Bool) (allowed seen : Nat) : List Char → List Char
  | [] => []
  | c :: rest =>
    if c ≠ '"' then escaped long c ++ escapedText long allowed 0 rest
    else if seen < allowed then '"' :: escapedText long allowed (seen + 1) rest
    else '\\' :: '"' :: escapedText long allowed 0 rest

/-- A text in the plainest form that holds it: between double quotes if nothing in it needs an
escape, else between single quotes, else between three quotes of either kind, else with escapes. -/
def writeText (s : String) : String :=
  let cs := s.toList
  let control := cs.any isControl
  let backslash := cs.contains '\\'
  let newline := cs.contains '\n'
  let doubles := longestRun '"' cs
  let singles := longestRun '\'' cs
  let lead := if newline then ['\n'] else []
  let three (c : Char) (body : List Char) : List Char := [c, c, c] ++ lead ++ body ++ [c, c, c]
  String.ofList <|
    if !control ∧ !backslash ∧ doubles = 0 ∧ !newline
      then '"' :: (escapedText false 0 0 cs ++ ['"'])
    else if !control ∧ singles = 0 ∧ !newline then '\'' :: (cs ++ ['\''])
    else if !control ∧ !backslash ∧ doubles ≤ 2 then three '"' (escapedText true 2 0 cs)
    else if !control ∧ singles ≤ 2 then three '\'' cs
    else if newline then three '"' (escapedText true 2 0 cs)
    else '"' :: (escapedText false 0 0 cs ++ ['"'])

end SolidScript.Toml
