import SolidScript.Path
import SolidScript.Settings.Toml

/-!
# Invocations

What a list of command line arguments asks for. Switches with one letter may stand together behind
one dash, the value of a switch follows it directly, behind an equals sign or as the next argument,
and after a double dash nothing is a switch. The switches for all commands may stand before the
command or after it; the value given after it wins.
-/

namespace SolidScript.CommandLine

inductive Verb where
  | render
  | ir
  | check
  | version
deriving DecidableEq, Repr

def Verb.ofName? : String → Option Verb
  | "render" => some .render
  | "ir" => some .ir
  | "check" => some .check
  | "version" => some .version
  | _ => none

inductive Switch where
  | verbose
  | config
  | output
  | resolution
  | help
deriving DecidableEq, Repr

/-- Whether a switch may be given: before the command, or to a command. -/
def Switch.isKnown : Switch → Option Verb → Bool
  | output, verb? => verb? = some .render || verb? = some .ir
  | resolution, verb? => verb? = some .render
  | _, _ => true

def Switch.ofLetter? : Char → Option Switch
  | 'v' => some .verbose
  | 'c' => some .config
  | 'o' => some .output
  | 'r' => some .resolution
  | 'h' => some .help
  | _ => none

def Switch.ofName? : String → Option Switch
  | "verbose" => some .verbose
  | "config" => some .config
  | "output" => some .output
  | "resolution" => some .resolution
  | "help" => some .help
  | _ => none

inductive Command where
  | render (input output : Path) (resolution? : Option Nat)
  | ir (input : Path) (output? : Option Path)
  | check (input : Path)
  | version

structure Invocation where
  verbose : Bool
  config? : Option Path
  command : Command

inductive Refusal where
  | help
  | misuse
deriving DecidableEq, Repr

inductive Token where
  | plain (s : String)
  | doubleDash
  | name (s : String) (value? : Option String)
  | letters (cs : List Char)

def Token.ofArgument (s : String) : Token :=
  match s.toList with
  | ['-', '-'] => .doubleDash
  | '-' :: '-' :: cs =>
    match cs.dropWhile (· ≠ '=') with
    | _ :: value => .name (String.ofList (cs.takeWhile (· ≠ '='))) (some (String.ofList value))
    | [] => .name (String.ofList cs) none
  | '-' :: c :: cs => .letters (c :: cs)
  | _ => .plain s

structure Given where
  verbose : Bool := false
  config? : Option Path := none
  output? : Option Path := none
  resolution? : Option Nat := none
  inputs : List Path := []

namespace Given

/-- A path, which must not be empty. -/
def path (s : String) : Except Refusal Path := if s = "" then .error .misuse else .ok ⟨s⟩

/-- A number of cells: digits after an optional sign. -/
def cells (s : String) : Except Refusal Nat :=
  let (negative, digits) := Decimal.readSign s.toList
  let n := Decimal.ofDigits digits
  if digits.isEmpty ∨ !digits.all Char.isDigit ∨ n > MeshSettings.maxResolution ∨ (negative ∧ n ≠ 0)
    then .error .misuse
  else .ok n

/-- Set what is given only once. -/
def once (current? : Option α) (new : Except Refusal α) : Except Refusal (Option α) :=
  if current?.isSome then .error .misuse else new.map some

def raise (g : Given) : Switch → Except Refusal Given
  | .help => .error .help
  | .verbose => if g.verbose then .error .misuse else .ok { g with verbose := true }
  | _ => .error .misuse

def give (g : Given) (switch : Switch) (value : String) : Except Refusal Given :=
  match switch with
  | .config => (once g.config? (path value)).map fun p => { g with config? := p }
  | .output => (once g.output? (path value)).map fun p => { g with output? := p }
  | .resolution => (once g.resolution? (cells value)).map fun n => { g with resolution? := n }
  | .verbose | .help => .error .misuse

def addInput (g : Given) (verb : Verb) (value : String) : Except Refusal Given :=
  if verb = .version ∨ !g.inputs.isEmpty then .error .misuse
  else (path value).map fun p => { g with inputs := [p] }

end Given

def Switch.takesValue : Switch → Bool
  | verbose | help => false
  | _ => true

/-- Letters behind one dash. The rest after a switch that has a value is that value; if there is
none, it is still due. -/
def readLetters (verb? : Option Verb) (g : Given) :
    List Char → Except Refusal (Given × Option Switch)
  | [] => .ok (g, none)
  | c :: rest =>
    match Switch.ofLetter? c with
    | none => .error .misuse
    | some switch =>
      if !switch.isKnown verb? then .error .misuse
      else if !switch.takesValue then do readLetters verb? (← g.raise switch) rest
      else
        match rest with
        | [] => .ok (g, some switch)
        | '=' :: value | value => do return (← g.give switch (String.ofList value), none)

def readName (verb? : Option Verb) (g : Given) (name : String) (value? : Option String) :
    Except Refusal (Given × Option Switch) :=
  match Switch.ofName? name, value? with
  | none, _ => .error .misuse
  | some switch, value? =>
    if !switch.isKnown verb? then .error .misuse
    else
      match switch.takesValue, value? with
      | true, some value => do return (← g.give switch value, none)
      | true, none => .ok (g, some switch)
      | false, some _ => .error .misuse
      | false, none => do return (← g.raise switch, none)

/-- Read arguments: before a command up to the first one that is not a switch, after it all. `due?`
is a switch that waits for its value. -/
def readArguments (verb? : Option Verb) (g : Given) (due? : Option Switch) :
    List String → Except Refusal (Given × List String)
  | [] => if due?.isSome then .error .misuse else .ok (g, [])
  | s :: rest =>
    match due?, Token.ofArgument s with
    | some switch, .plain value => do readArguments verb? (← g.give switch value) none rest
    | some _, _ => .error .misuse
    | none, .name name value? => do
      let (g, due?) ← readName verb? g name value?
      readArguments verb? g due? rest
    | none, .letters cs => do
      let (g, due?) ← readLetters verb? g cs
      readArguments verb? g due? rest
    | none, .plain s =>
      match verb? with
      | none => .ok (g, s :: rest)
      | some verb => do readArguments verb? (← g.addInput verb s) none rest
    | none, .doubleDash =>
      match verb? with
      | none => .error .misuse
      | some verb => do return (← rest.foldlM (·.addInput verb) g, [])

def Command.ofGiven (verb : Verb) (g : Given) : Except Refusal Command :=
  match verb, g.inputs, g.output? with
  | .render, [input], some output => .ok (.render input output g.resolution?)
  | .ir, [input], output? => .ok (.ir input output?)
  | .check, [input], _ => .ok (.check input)
  | .version, [], _ => .ok .version
  | _, _, _ => .error .misuse

def Invocation.ofArguments (args : List String) : Except Refusal Invocation := do
  let (outer, rest) ← readArguments none {} none args
  match rest with
  | [] => .error .misuse
  | "help" :: topics =>
    match topics with
    | [] | ["help"] => .error .help
    | [topic] => .error (if (Verb.ofName? topic).isSome then .help else .misuse)
    | _ => .error .misuse
  | name :: rest =>
    match Verb.ofName? name with
    | none => .error .misuse
    | some verb =>
      let (inner, _) ← readArguments (some verb) {} none rest
      return {
        verbose := outer.verbose || inner.verbose
        config? := inner.config?.or outer.config?
        command := ← Command.ofGiven verb inner }

end SolidScript.CommandLine
