import SqlFootprint.Analysis.Clause
import SqlFootprint.Analysis.StatementKind
import SqlFootprint.Keyword

/-!
# Tables of a statement

`INSERT`, `UPDATE` and `DELETE` name their table at a fixed place. The tables of a `SELECT`, alone
or within an `INSERT`, are the names after `FROM` and `JOIN`; a few keywords keep such a list of
tables going and every other one ends it. Names are given in their order, with repetitions.
-/

namespace SqlFootprint.Tables

/-- Where a scan for tables stands. -/
inductive Scan where
  /-- Outside any list of tables. -/
  | outside
  /-- After `FROM` or `JOIN`. -/
  | inList
  deriving DecidableEq, Repr

/-- Where a scan stands after a keyword. -/
def Scan.onKeyword (scan : Scan) (keyword : String) : Scan :=
  if Text.listed ["FROM", "JOIN"] keyword then inList
  else if scan = inList ∧ (Text.listed ["AS", "ON"] keyword || Keyword.isJoinModifier keyword)
  then inList
  else outside

/-- A name after the node `last` is an alias: it follows a name or what introduces an alias. -/
def isAliasPlace (last : Option Node) : Bool :=
  Node.introducesAlias last || last.any (·.identifier?.isSome)

/-- The tables that a name or list contributes. The first is left out where it is an alias. -/
def namesAt (last : Option Node) (node : Node) : List String :=
  if isAliasPlace last then (node.items.drop 1).flatMap Node.realNames else node.realNames

/-- The tables after every `FROM` and `JOIN`. -/
def scanLists (scan : Scan) (last : Option Node) : List Node → List String
  | [] => []
  | node :: rest =>
    if node.isAnyKeyword then scanLists (scan.onKeyword node.text) (some node) rest
    else if node.isName ∧ scan = .inList then
      namesAt last node ++ scanLists scan (some node) rest
    else scanLists scan (Node.lastSignificant last node) rest

/-- The name or list right after `INTO`. -/
def insertTarget (nodes : List Node) : List String :=
  match (Node.afterKeyword? "INTO" nodes).bind Node.significant? with
  | some (node, _) => if node.isName then node.realNames else []
  | none => []

/-- The first name or list after `FROM`. -/
def deleteTarget (nodes : List Node) : List String :=
  match (Node.afterKeyword? "FROM" nodes).bind (·.find? Node.isName) with
  | some node => node.realNames
  | none => []

/-- The first name of the statement. -/
def updateTarget (nodes : List Node) : List String :=
  (nodes.findSome? Node.identifier?).toList.map Identifier.name

/-- The tables that a statement may refer to. -/
def candidates (kind : StatementKind) (nodes : List Node) : List String :=
  match kind with
  | .select => scanLists .outside none nodes
  | .insert =>
    insertTarget nodes ++
      match Node.afterKeyword? "SELECT" nodes with
      | some rest => scanLists .outside none rest
      | none => []
  | .update => updateTarget nodes
  | .delete => deleteTarget nodes
  | .unknown => []

end SqlFootprint.Tables
