import SolidScript.Decimal.Text

/-!
# Data files

Values of the JSON format, and their text over several lines with two blanks per level.
-/

namespace SolidScript

inductive JsonValue where
  | null
  | bool (b : Bool)
  | count (n : Nat)
  | number (x : Float)
  | string (s : String)
  | array (items : List JsonValue)
  /-- Fields in the order in which they are written. -/
  | object (fields : List (String × JsonValue))

namespace JsonValue

/-- A character as it stands inside a string: control characters are escaped. -/
def escape (c : Char) : List Char :=
  if c = '"' then ['\\', '"']
  else if c = '\\' then ['\\', '\\']
  else if c = '\n' then ['\\', 'n']
  else if c = '\r' then ['\\', 'r']
  else if c = '\t' then ['\\', 't']
  else if c = '\x08' then ['\\', 'b']
  else if c = '\x0c' then ['\\', 'f']
  else if c.toNat < 32
    then ['\\', 'u', '0', '0', Nat.digitChar (c.toNat / 16), Nat.digitChar (c.toNat % 16)]
  else [c]

def quoted (s : String) : String := String.ofList ('"' :: (s.toList.flatMap escape ++ ['"']))

def newline (level : Nat) : String := String.ofList ('\n' :: List.replicate (2 * level) ' ')

/-- Items between brackets, each on a line of its own; nothing between the brackets if there are
none. -/
def bracketed (level : Nat) (opening closing : String) : List String → String
  | [] => opening ++ closing
  | items =>
    opening ++ newline (level + 1) ++ ("," ++ newline (level + 1)).intercalate items ++
      newline level ++ closing

mutual

/-- The text of a value at a level of indentation. A number that is not finite has no form and
becomes `null`. -/
def text (level : Nat) : JsonValue → String
  | null => "null"
  | bool b => if b then "true" else "false"
  | count n => toString n
  | number x => if x.isFinite then Decimal.interchange x else "null"
  | string s => quoted s
  | array items => bracketed level "[" "]" (texts (level + 1) items)
  | object fields => bracketed level "\x7b" "\x7d" (fieldTexts (level + 1) fields)

def texts (level : Nat) : List JsonValue → List String
  | [] => []
  | v :: vs => text level v :: texts level vs

def fieldTexts (level : Nat) : List (String × JsonValue) → List String
  | [] => []
  | (name, v) :: fields => (quoted name ++ ": " ++ text level v) :: fieldTexts level fields

end

def pretty (v : JsonValue) : String := v.text 0

end JsonValue

end SolidScript
