import SqlFootprint.Text.Ascii

/-!
# Nodes of a statement

A statement is a list of nodes. A leaf carries the text of its tokens; a group carries its children
and, as its text, theirs in a row. What a node is says its `Kind`, whose operands of a comparison
are nodes here and places in a table in the stored form of a tree.
-/

namespace SqlFootprint

/-- A name without its delimiters. -/
structure Identifier where
  /-- The last part of a dotted name. -/
  name : String
  /-- The parts before it, with the points between them. -/
  qualifier : Option String := none
  /-- The name that stands for it in the rest of the statement. -/
  aliasName : Option String := none
  deriving DecidableEq, Repr

/-- The dotted name as a whole, without the alias. -/
def Identifier.fullName (identifier : Identifier) : String :=
  match identifier.qualifier with
  | some qualifier => qualifier ++ "." ++ identifier.name
  | none => identifier.name

/-- What a node is; `α` is the type of the operands of a comparison. -/
inductive Kind (α : Type) where
  | keyword
  | identifier (identifier : Identifier)
  | identifierList
  | function (name : String) (aliasName : Option String)
  | comparison (left : α) (operator : String) (right : α)
  | punctuation
  | wildcard
  | literal
  | blank
  deriving DecidableEq, Repr

/-- The kind with its operands replaced; a comparison without an operand is a literal. -/
def Kind.resolve {α β : Type} (operand? : α → Option β) : Kind α → Kind β
  | keyword => .keyword
  | identifier i => .identifier i
  | identifierList => .identifierList
  | function name aliasName => .function name aliasName
  | comparison left operator right =>
    match operand? left, operand? right with
    | some left, some right => .comparison left operator right
    | _, _ => .literal
  | punctuation => .punctuation
  | wildcard => .wildcard
  | literal => .literal
  | blank => .blank

/-- The word for a kind in an outline. -/
def Kind.label {α : Type} : Kind α → String
  | keyword => "Keyword"
  | identifier _ => "Identifier"
  | identifierList => "IdentifierList"
  | function _ _ => "Function"
  | comparison _ _ _ => "Comparison"
  | punctuation => "Punctuation"
  | wildcard => "Wildcard"
  | literal => "Literal"
  | blank => "Whitespace"

/-- A node with its text and its children. -/
inductive Node where
  | mk (kind : Kind Node) (text : String) (children : List Node)

namespace Node

/-- What the node is. -/
def kind : Node → Kind Node
  | mk kind _ _ => kind

/-- The text of the node. -/
def text : Node → String
  | mk _ text _ => text

/-- The children of the node. -/
def children : Node → List Node
  | mk _ _ children => children

/-- The texts of nodes in a row. -/
def textOf (nodes : List Node) : String := String.join (nodes.map text)

/-- A node without children. -/
def leaf (kind : Kind Node) (text : String) : Node := mk kind text []

/-- A node over children, with their texts in a row as its own. -/
def group (kind : Kind Node) (children : List Node) : Node := mk kind (textOf children) children

/-- A mark or an operator. -/
def punctuation (text : String) : Node := leaf .punctuation text

/-- The node is white space or a comment. -/
def isBlank (node : Node) : Bool :=
  match node.kind with
  | .blank => true
  | _ => false

/-- The node is a keyword. -/
def isAnyKeyword (node : Node) : Bool :=
  match node.kind with
  | .keyword => true
  | _ => false

/-- The node is the given keyword, in any case. -/
def isKeyword (node : Node) (word : String) : Bool :=
  node.isAnyKeyword && Text.sameWord node.text word

/-- The node is a mark or an operator. -/
def isAnyPunctuation (node : Node) : Bool :=
  match node.kind with
  | .punctuation => true
  | _ => false

/-- The node is the given mark or operator. -/
def isPunctuation (node : Node) (text : String) : Bool :=
  node.isAnyPunctuation && node.text == text

/-- The name that the node is. -/
def identifier? (node : Node) : Option Identifier :=
  match node.kind with
  | .identifier identifier => some identifier
  | _ => none

/-- The node is a list of items between commas. -/
def isList (node : Node) : Bool :=
  match node.kind with
  | .identifierList => true
  | _ => false

/-- The node is a name or a list of items. -/
def isName (node : Node) : Bool := node.identifier?.isSome || node.isList

/-- The items of a list, without marks and blanks; any other node is its own item. -/
def items (node : Node) : List Node :=
  if node.isList then node.children.filter fun child ↦ !child.isBlank && !child.isAnyPunctuation
  else [node]

/-- The last parts of the names among the items of a node. -/
def realNames (node : Node) : List String :=
  node.items.filterMap fun item ↦ item.identifier?.map Identifier.name

/-- The text of a group is the texts of its children in a row. -/
theorem text_group (kind : Kind Node) (children : List Node) :
    (group kind children).text = textOf children := rfl

@[simp] theorem kind_leaf (kind : Kind Node) (text : String) : (leaf kind text).kind = kind := rfl

@[simp] theorem text_leaf (kind : Kind Node) (text : String) : (leaf kind text).text = text := rfl

@[simp] theorem kind_group (kind : Kind Node) (children : List Node) :
    (group kind children).kind = kind := rfl

@[simp] theorem children_group (kind : Kind Node) (children : List Node) :
    (group kind children).children = children := rfl

mutual

/-- How many nodes there are at the node and below. -/
def size : Node → Nat
  | mk _ _ children => 1 + sizeOfAll children

/-- How many nodes there are in a list and below. -/
def sizeOfAll : List Node → Nat
  | [] => 0
  | node :: rest => node.size + sizeOfAll rest

end

mutual

/-- The node and all below it with their depths, a group before its children. -/
def preorder (depth : Nat) : Node → List (Nat × Node)
  | mk kind text children => (depth, mk kind text children) :: preorderOfAll (depth + 1) children

/-- The nodes of a list and all below them with their depths. -/
def preorderOfAll (depth : Nat) : List Node → List (Nat × Node)
  | [] => []
  | node :: rest => node.preorder depth ++ preorderOfAll depth rest

end

end Node

end SqlFootprint
