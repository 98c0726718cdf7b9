import SqlFootprint.Tree.Node

/-!
# Kinds of statement

A statement is classified by its first keyword. A leading `WITH` clause is passed over: the
statement has the kind of the first keyword outside parentheses that names one. Whatever starts
otherwise is of unknown kind.
-/

namespace SqlFootprint

/-- The kinds of statement. -/
inductive StatementKind where
  | select
  | insert
  | update
  | delete
  | unknown
  deriving DecidableEq, Repr, Inhabited

namespace StatementKind

/-- The word for a kind. -/
def word : StatementKind → String
  | select => "SELECT"
  | insert => "INSERT"
  | update => "UPDATE"
  | delete => "DELETE"
  | unknown => "UNKNOWN"

/-- The kinds that a keyword names. -/
def named : List StatementKind := [select, insert, update, delete]

/-- The kind that a keyword names, in any case. -/
def ofKeyword? (keyword : String) : Option StatementKind :=
  named.find? fun kind ↦ Text.sameWord kind.word keyword

/-- The kind that a node names, if it is a keyword. -/
def ofNode? (node : Node) : Option StatementKind :=
  if node.isAnyKeyword then ofKeyword? node.text else none

/-- The first kind named outside parentheses. -/
def firstOutside (depth : Nat) : List Node → StatementKind
  | [] => unknown
  | node :: rest =>
    if node.isPunctuation "(" then firstOutside (depth + 1) rest
    else if node.isPunctuation ")" then firstOutside (depth - 1) rest
    else
      match if depth = 0 then ofNode? node else none with
      | some kind => kind
      | none => firstOutside depth rest

/-- The kind of a statement. -/
def ofNodes (nodes : List Node) : StatementKind :=
  match nodes.dropWhile Node.isBlank with
  | [] => unknown
  | first :: rest =>
    match ofNode? first with
    | some kind => kind
    | none => if first.isKeyword "WITH" then firstOutside 0 rest else unknown

end StatementKind

end SqlFootprint
