import SolidScript.Decimal.Reading
import SolidScript.Toml.Text
import SolidScript.Toml.Value

/-!
# Reading TOML

A document is read line by line: pairs of a dotted key and a value, headers of tables and of
elements of arrays, comments. The lines then build up the table of the whole document. A text that
breaks any rule is refused as a whole.
-/

namespace SolidScript.Toml

/-- A reader takes a text and gives what it read and the rest. It may refuse the text. -/
abbrev Reader := StateT (List Char) Option

namespace Reader

/-- Use a function from a text to a result and a rest. -/
def of (f : List Char → Option (α × List Char)) : Reader α := f

def char (p : Char → Bool) : Reader Char := of fun
  | c :: rest => if p c then some (c, rest) else none
  | [] => none

def exactly (s : String) : Reader Unit := of fun cs =>
  if s.toList.isPrefixOf cs then some ((), cs.drop s.length) else none

def atEnd : Reader Unit := of fun cs => if cs.isEmpty then some ((), cs) else none

def peek : Reader Char := of fun
  | c :: rest => some (c, c :: rest)
  | [] => none

def takeWhile (p : Char → Bool) : Reader (List Char) :=
  of fun cs => some (cs.takeWhile p, cs.dropWhile p)

/-- At least one item, at most `n`, with separators between them. -/
def separated (item : Reader α) (separator : Reader Unit) : Nat → Reader (List α)
  | 0 => failure
  | n + 1 => do
    let first ← item
    let others ← (do separator; separated item separator n) <|> pure []
    return first :: others

def sepBy1 (item : Reader α) (separator : Reader Unit) : Reader (List α) := do
  separated item separator ((← get).length + 1)

end Reader

open Reader

/-! ## Blanks, comments and keys -/

def blanks : Reader Unit := do let _ ← takeWhile isBlank

def newline : Reader Unit := of fun cs => (newline? cs).map ((), ·)

def comment : Reader Unit := do
  exactly "#"
  let _ ← takeWhile isText

/-- What may stand after a value or a header on its line, with the end of the line. -/
def lineEnd : Reader Unit := do
  blanks
  let _ ← optional comment
  newline <|> atEnd

/-- Blanks, comments and line ends, at most `n` of them in turn. -/
def spaceUpTo : Nat → Reader Unit
  | 0 => pure ()
  | n + 1 => do
    blanks
    let more ← optional (do let _ ← optional comment; newline)
    if more.isSome then spaceUpTo n

def space : Reader Unit := do spaceUpTo ((← get).length + 1)

def isKeyChar (c : Char) : Bool := c.isAlphanum || c = '-' || c = '_'

def simpleKey : Reader String := do
  let c ← peek
  if c = '"' ∨ c = '\'' then return String.ofList (← of shortText?)
  let cs ← takeWhile isKeyChar
  if cs.isEmpty then failure
  return String.ofList cs

/-- How deep values nest, and of how many parts keys consist, at most. -/
def maxDepth : Nat := 79

def dottedKey : Reader (List String) := do
  let keys ← sepBy1 (do blanks; let key ← simpleKey; blanks; return key) (exactly ".")
  if keys.length > maxDepth then failure
  return keys

/-! ## Numbers -/

/-- Digits after the first one; an underscore may stand between two. -/
def moreDigits (isDigit : Char → Bool) : List Char → Option (List Char × List Char)
  | [] => some ([], [])
  | c :: rest =>
    if isDigit c then (moreDigits isDigit rest).map fun (cs, rest) => (c :: cs, rest)
    else if c = '_' then
      match rest with
      | [] => none
      | d :: rest =>
        if isDigit d then (moreDigits isDigit rest).map fun (cs, rest) => (d :: cs, rest) else none
    else some ([], c :: rest)

def digits (isDigit : Char → Bool) : Reader (List Char) := do
  let first ← char isDigit
  return first :: (← of (moreDigits isDigit))

def sign : Reader (List Char) := do
  match ← optional (char fun c => c = '+' || c = '-') with
  | some c => return [c]
  | none => return []

/-- A sign and decimal digits, without leading zeros. -/
def wholePart : Reader (List Char × List Char) := do
  let s ← sign
  if (← peek) = '0' then
    let zero ← char (· = '0')
    return (s, [zero])
  return (s, ← digits Char.isDigit)

/-- Integers have 64 bits with a sign. -/
def inRange (n : Int) : Bool := n.natAbs < Nat.pow 2 63 || n = -(Nat.pow 2 63 : Nat)

def integer : Reader Value := do
  let based (mark : String) (base : Nat) : Reader Int := do
    exactly mark
    let ds ← digits fun c => (digit? base c).isSome
    return (ds.foldl (fun n c => n * base + (digit? base c).getD 0) 0 : Nat)
  let decimal : Reader Int := do
    let (s, ds) ← wholePart
    let n : Int := Decimal.ofDigits ds
    return if s = ['-'] then -n else n
  let n ← based "0x" 16 <|> based "0o" 8 <|> based "0b" 2 <|> decimal
  if !inRange n then failure
  return .integer n

def exponent : Reader (List Char) := do
  let _ ← char fun c => c = 'e' || c = 'E'
  return 'e' :: ((← sign) ++ (← digits Char.isDigit))

/-- A number with a fraction or an exponent. One that exceeds all floating-point numbers is refused
if it is positive. -/
def decimalFloat : Reader Value := do
  let (s, whole) ← wholePart
  let withFraction : Reader (List Char) := do
    exactly "."
    let ds ← digits Char.isDigit
    return '.' :: (ds ++ ((← optional exponent).getD []))
  let rest ← exponent <|> withFraction
  match Decimal.read? (String.ofList (s ++ whole ++ rest)) with
  | none => failure
  | some x => if x == 1.0 / 0.0 then failure else return .float x

def namedFloat : Reader Value := do
  let s ← sign
  let infinity : Reader Float := do exactly "inf"; return 1.0 / 0.0
  let nan : Reader Float := do exactly "nan"; return 0.0 / 0.0
  let x ← infinity <|> nan
  return .float (if s = ['-'] then -x else x)

/-! ## Dates and times -/

def fixedDigits (n : Nat) : Reader Nat := of fun cs =>
  let ds := cs.take n
  if ds.length = n ∧ ds.all Char.isDigit then some (Decimal.ofDigits ds, cs.drop n) else none

def twoDigits (low high : Nat) : Reader Nat := do
  let n ← fixedDigits 2
  if n < low ∨ high < n then failure
  return n

def daysOf (year month : Nat) : Nat :=
  if month = 2 then if year % 4 = 0 ∧ (year % 100 ≠ 0 ∨ year % 400 = 0) then 29 else 28
  else if month = 4 ∨ month = 6 ∨ month = 9 ∨ month = 11 then 30
  else 31

def date : Reader Unit := do
  let year ← fixedDigits 4
  exactly "-"
  let month ← twoDigits 1 12
  exactly "-"
  let _ ← twoDigits 1 (daysOf year month)

def time : Reader Unit := do
  let _ ← twoDigits 0 23
  exactly ":"
  let _ ← twoDigits 0 59
  exactly ":"
  let _ ← twoDigits 0 60
  let _ ← optional (do exactly "."; let _ ← char Char.isDigit; takeWhile Char.isDigit)

def offset : Reader Unit := do
  if (← optional (char fun c => c = 'Z' || c = 'z')).isSome then return
  let _ ← char fun c => c = '+' || c = '-'
  let _ ← twoDigits 0 23
  exactly ":"
  let _ ← twoDigits 0 59

def moment : Reader Value := do
  let timeOfDay : Reader Unit := do
    let _ ← char fun c => c = 'T' || c = 't' || c = ' '
    time
    let _ ← optional offset
  let dated : Reader Unit := do
    date
    let _ ← optional timeOfDay
  dated <|> time
  return .moment

/-! ## Values -/

def boolean : Reader Value :=
  (do exactly "true"; return .boolean true) <|> (do exactly "false"; return .boolean false)

def scalar : Reader Value := do
  let c ← peek
  if c = '"' ∨ c = '\'' then return .string (String.ofList (← of text?))
  moment <|> decimalFloat <|> namedFloat <|> integer <|> boolean

def pairOf (value : Reader Value) : Reader (List String × Value) := do
  let key ← dottedKey
  exactly "="
  blanks
  return (key, ← value)

/-- A value with others nested in it, at most `depth` deep. -/
def value : Nat → Reader Value
  | 0 => scalar
  | depth + 1 => do
    let c ← peek
    if c = '[' then
      exactly "["
      let elements ← sepBy1 (do space; let v ← value depth; space; return v) (exactly ",") <|>
        pure []
      if !elements.isEmpty then
        let _ ← optional (exactly ",")
      space
      exactly "]"
      return .array elements
    else if c = '\x7b' then
      exactly "\x7b"
      let pairs ← sepBy1 (do let pair ← pairOf (value depth); blanks; return pair) (exactly ",") <|>
        pure []
      blanks
      exactly "\x7d"
      match Entries.insertAll [] pairs with
      | some entries => return .table .inline entries
      | none => failure
    else scalar

/-! ## Documents -/

inductive Line where
  | pair (key : List String) (v : Value)
  | table (path : List String)
  | element (path : List String)

def header : Reader Line := do
  if (← optional (exactly "[[")).isSome then
    let path ← dottedKey
    exactly "]]"
    return .element path
  else
    exactly "["
    let path ← dottedKey
    exactly "]"
    return .table path

/-- One line that is not blank, and its end. -/
def line : Reader Line := do
  let pair : Reader Line := do
    let (key, v) ← pairOf (value maxDepth)
    return .pair key v
  let l ← header <|> pair
  lineEnd
  return l

/-- Lines up to the end of the text, at most `n`. -/
def lines : Nat → Reader (List Line)
  | 0 => failure
  | n + 1 => do
    blanks
    if (← get).isEmpty then return []
    if (← optional lineEnd).isSome then lines n
    else
      let l ← line
      return l :: (← lines n)

def leadingPairs : List Line → List (List String × Value)
  | .pair key v :: rest => (key, v) :: leadingPairs rest
  | _ => []

/-- Add what stands under each header. -/
def addSections (entries : Entries) : List Line → Option Entries
  | [] => some entries
  | .pair _ _ :: rest => addSections entries rest
  | .table path :: rest => do
    addSections (← entries.modify (Entries.openTable (leadingPairs rest)) path) rest
  | .element path :: rest => do
    addSections (← entries.modify (Entries.openElement (leadingPairs rest)) path) rest

/-- The table that a document describes. A byte order mark at the front is skipped. -/
def read? (s : String) : Option Entries := do
  let cs := s.toList
  let cs := if cs.head? = some '\uFEFF' then cs.drop 1 else cs
  let (ls, _) ← (lines (cs.length + 1)).run cs
  addSections (← Entries.insertAll [] (leadingPairs ls)) ls

end SolidScript.Toml
