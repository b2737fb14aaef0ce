import SolidScript.Position

/-!
# Syntax trees

A node has the kind of the rule it came from, the text it covers, the place where that text starts,
and children. Kinds are names, so that a tree with nodes of unknown kinds can be written down too.
-/

namespace SolidScript

inductive Tree where
  | node (kind : String) (text : String) (pos : Position) (children : List Tree)
deriving Repr, Inhabited

namespace Tree

def kind : Tree → String
  | node kind _ _ _ => kind

def text : Tree → String
  | node _ text _ _ => text

def pos : Tree → Position
  | node _ _ pos _ => pos

def children : Tree → List Tree
  | node _ _ _ children => children

def child? (t : Tree) (kind : String) : Option Tree := t.children.find? (·.kind = kind)

end Tree

end SolidScript
