import SolidScript.Error
import SolidScript.Grammar.Peg

/-!
# The grammar of programs

A program is a list of statements. Expressions are parsed by level, from the conditional down to
literals, and every level leaves a node, also where it holds a single part. `parse` reads a source
text.
-/

namespace SolidScript.Grammar

inductive Name where
  | program | statement | emptyStatement | block | moduleDef | functionDef | params | param
  | ifStatement | forStatement | forBinding | assignment | operatorCall | modifier | callArgs
  | argument | namedArg | expr | ternary | logicOr | logicAnd | equality | comparison | additive
  | multiplicative | unary | power | postfixed | index | eqOp | cmpOp | addOp | mulOp | unaryOp
  | primary | functionCall | range | vector | reference | number | string | stringInner | boolean
  | undefined | identifier | wordModule | wordFunction | wordIf | wordElse | wordFor | finish
deriving DecidableEq, Repr

namespace Name

def kind : Name → String
  | program => "program"
  | statement => "statement"
  | emptyStatement => "empty_stmt"
  | block => "block"
  | moduleDef => "module_def"
  | functionDef => "function_def"
  | params => "params"
  | param => "param"
  | ifStatement => "if_stmt"
  | forStatement => "for_stmt"
  | forBinding => "for_binding"
  | assignment => "assignment"
  | operatorCall => "operator_call"
  | modifier => "modifier"
  | callArgs => "call_args"
  | argument => "argument"
  | namedArg => "named_arg"
  | expr => "expr"
  | ternary => "ternary"
  | logicOr => "logic_or"
  | logicAnd => "logic_and"
  | equality => "equality"
  | comparison => "comparison"
  | additive => "additive"
  | multiplicative => "multiplicative"
  | unary => "unary"
  | power => "power"
  | postfixed => "postfix"
  | index => "index"
  | eqOp => "eq_op"
  | cmpOp => "cmp_op"
  | addOp => "add_op"
  | mulOp => "mul_op"
  | unaryOp => "unary_op"
  | primary => "primary"
  | functionCall => "function_call"
  | range => "range"
  | vector => "vector"
  | reference => "variable"
  | number => "number"
  | string => "string"
  | stringInner => "string_inner"
  | boolean => "boolean"
  | undefined => "undef"
  | identifier => "ident"
  | wordModule => "kw_module"
  | wordFunction => "kw_function"
  | wordIf => "kw_if"
  | wordElse => "kw_else"
  | wordFor => "kw_for"
  | finish => "EOI"

/-- Ranks decrease along references that can be reached without taking a character. -/
def rank : Name → Nat
  | program => 19
  | statement => 18
  | block | moduleDef | functionDef | ifStatement | forStatement | assignment | operatorCall => 17
  | callArgs => 16
  | argument => 15
  | namedArg | expr => 14
  | ternary => 13
  | logicOr => 12
  | logicAnd => 11
  | equality => 10
  | comparison => 9
  | additive => 8
  | multiplicative => 7
  | unary => 6
  | power => 5
  | postfixed => 4
  | primary => 3
  | params => 2
  | functionCall | range | vector | reference | string | param | forBinding | index => 1
  | _ => 0

end Name

/-! ## Words -/

namespace Words

open Pattern

def digit : Pattern := .char Char.isDigit

def wordChar : Pattern := .char fun c => c.isAlphanum || c = '_'

/-- A word that is not the beginning of a longer one. -/
def word (s : String) : Pattern := .seq (.text s) (.absent wordChar)

def reserved : Pattern :=
  .seq
    (oneOf [.text "module", .text "function", .text "if", .text "else", .text "for", .text "true",
      .text "false", .text "undef"])
    (.absent wordChar)

def identifier : Pattern :=
  inOrder [.absent reserved, .char (fun c => c = '$' || c = '_' || c.isAlpha), .star wordChar]

/-- Digits with an optional point, or a point with digits behind it, and then an optional
exponent. -/
def number : Pattern :=
  .seq
    (.alt
      (.seq digit.plus (.opt (.seq (.text ".") (.star digit))))
      (.seq (.text ".") digit.plus))
    (.opt (inOrder [
      .char (fun c => c = 'e' || c = 'E'), .opt (.alt (.text "+") (.text "-")), digit.plus]))

/-- The inside of a string: a backslash takes the character behind it along. -/
def stringInner : Pattern :=
  .star (.alt
    (.seq (.text "\\") (.char fun _ => true))
    (.char fun c => c ≠ '"' && c ≠ '\\'))

def blankChar : Pattern := .char fun c => c = ' ' || c = '\t' || c = '\r' || c = '\n'

/-- A comment to the end of the line, or one between its delimiters. -/
def comment : Pattern :=
  .alt
    (.seq (.text "//") (.star (.char fun c => c ≠ '\n')))
    (inOrder [.text "/*", .star (.seq (.absent (.text "*/")) (.char fun _ => true)), .text "*/"])

/-- What may stand between the parts of a rule. -/
def blank : Pattern := .seq (.star blankChar) (.star (.seq comment (.star blankChar)))

end Words

/-! ## Rules -/

def Peg.inOrder {ρ : Type} : List (Peg ρ) → Peg ρ
  | [] => .token (.literal [])
  | [e] => e
  | e :: es => .seq e (inOrder es)

def Peg.oneOf {ρ : Type} : List (Peg ρ) → Peg ρ
  | [] => .token (.char fun _ => false)
  | [e] => e
  | e :: es => .alt e (oneOf es)

namespace Rules

open Peg

def sym (s : String) : Peg Name := .token (.text s)

def node (parts : List (Peg Name)) : Rule Name := { form := .node, body := inOrder parts }

def symbolOf (symbols : List String) : Rule Name :=
  { form := .node, body := oneOf (symbols.map sym) }

def wordNode (p : Pattern) : Rule Name := { form := .node, body := .token p }

def keyword (s : String) : Rule Name := { form := .mark, body := .token (Words.word s) }

/-- Items between commas, with an optional comma at the end, or nothing. -/
def commaList (item : Name) : Peg Name :=
  .opt (inOrder [.rule item, .star (.seq (sym ",") (.rule item)), .opt (sym ",")])

/-- One operand, and further ones behind operators. -/
def leftChain (operand : Name) (operator : Peg Name) : Rule Name :=
  node [.rule operand, .star (.seq operator (.rule operand))]

def body : Name → Rule Name
  | .program => node [sym "", .star (.rule .statement), .rule .finish]
  | .statement =>
    { form := .silent
      body := oneOf [
        .rule .emptyStatement, .rule .block, .rule .moduleDef, .rule .functionDef,
        .rule .ifStatement, .rule .forStatement, .rule .assignment, .rule .operatorCall] }
  | .emptyStatement => node [sym ";"]
  | .block => node [sym "\x7b", .star (.rule .statement), sym "\x7d"]
  | .moduleDef =>
    node [.rule .wordModule, .rule .identifier, sym "(", .rule .params, sym ")", .rule .statement]
  | .functionDef =>
    node [.rule .wordFunction, .rule .identifier, sym "(", .rule .params, sym ")", sym "=",
      .rule .expr, sym ";"]
  | .params => node [commaList .param]
  | .param => node [.rule .identifier, .opt (.seq (sym "=") (.rule .expr))]
  | .ifStatement =>
    node [
      .rule .wordIf, sym "(", .rule .expr, sym ")", .rule .statement,
      .opt (.seq (.rule .wordElse) (.rule .statement))]
  | .forStatement =>
    node [
      .rule .wordFor, sym "(", .rule .forBinding, .star (.seq (sym ",") (.rule .forBinding)),
      sym ")", .rule .statement]
  | .forBinding => node [.rule .identifier, sym "=", .rule .expr]
  | .assignment => node [.rule .identifier, sym "=", .absent (.text "="), .rule .expr, sym ";"]
  | .operatorCall =>
    node [.opt (.rule .modifier), .rule .identifier, sym "(", .rule .callArgs, sym ")",
      .rule .statement]
  | .modifier => symbolOf ["!", "#", "%", "*"]
  | .callArgs => node [commaList .argument]
  | .argument => { form := .node, body := .alt (.rule .namedArg) (.rule .expr) }
  | .namedArg => node [.rule .identifier, sym "=", .absent (.text "="), .rule .expr]
  | .expr => node [.rule .ternary]
  | .ternary =>
    node [.rule .logicOr, .opt (inOrder [sym "?", .rule .expr, sym ":", .rule .expr])]
  | .logicOr => leftChain .logicAnd (sym "||")
  | .logicAnd => leftChain .equality (sym "&&")
  | .equality => leftChain .comparison (.rule .eqOp)
  | .comparison => leftChain .additive (.rule .cmpOp)
  | .additive => leftChain .multiplicative (.rule .addOp)
  | .multiplicative => leftChain .unary (.rule .mulOp)
  | .unary => node [.star (.rule .unaryOp), .rule .power]
  | .power => node [.rule .postfixed, .opt (.seq (sym "^") (.rule .unary))]
  | .postfixed => node [.rule .primary, .star (.rule .index)]
  | .index => node [sym "[", .rule .expr, sym "]"]
  | .eqOp => symbolOf ["==", "!="]
  | .cmpOp => symbolOf ["<=", ">=", "<", ">"]
  | .addOp => symbolOf ["+", "-"]
  | .mulOp => symbolOf ["*", "/", "%"]
  | .unaryOp => symbolOf ["-", "!", "+"]
  | .primary =>
    { form := .silent
      body := oneOf [
        .rule .number, .rule .string, .rule .boolean, .rule .undefined, .rule .functionCall,
        .rule .range, .rule .vector, .rule .reference, inOrder [sym "(", .rule .expr, sym ")"]] }
  | .functionCall => node [.rule .identifier, sym "(", .rule .callArgs, sym ")"]
  | .range =>
    node [sym "[", .rule .expr, sym ":", .rule .expr, .opt (.seq (sym ":") (.rule .expr)), sym "]"]
  | .vector => node [sym "[", commaList .expr, sym "]"]
  | .reference => node [.rule .identifier]
  | .number => wordNode Words.number
  | .string =>
    { form := .node, joined := true, body := inOrder [sym "\"", .rule .stringInner, sym "\""] }
  | .stringInner => wordNode Words.stringInner
  | .boolean => wordNode (.seq (.alt (.text "true") (.text "false")) (.absent Words.wordChar))
  | .undefined => wordNode (Words.word "undef")
  | .identifier => wordNode Words.identifier
  | .wordModule => keyword "module"
  | .wordFunction => keyword "function"
  | .wordIf => keyword "if"
  | .wordElse => keyword "else"
  | .wordFor => keyword "for"
  | .finish => { form := .mark, body := .finish }

end Rules

def programs : RuleSet Name where
  rules := Rules.body
  kind := Name.kind
  rank := Name.rank
  blank := Words.blank

def parse (source : String) : Except SyntaxError Tree :=
  match programs.parse .program source with
  | .ok (tree :: _) => .ok tree
  | .ok [] => .error ⟨.start, "empty parse"⟩
  | .error pos => .error ⟨pos, "unexpected input"⟩

end SolidScript.Grammar
