import SqlFootprint.Analysis.Clause
import SqlFootprint.Analysis.StatementKind
import SqlFootprint.Text.Blank

/-!
# Columns of a statement

Each kind of statement has its columns in one clause: the projection of a `SELECT`, the list after
the table of an `INSERT`, the assignments of an `UPDATE`. No condition is read, and the arguments
of a call are not looked into: a call, like a `CASE`, is one column that shows its text. Names are
given in their order, with repetitions.
-/

namespace SqlFootprint.Columns

/-- A text without double quotes and backticks. -/
def stripQuotes (text : String) : String :=
  String.ofList (text.toList.filter fun c ↦ c != '"' && c != '\x60')

/-- The text by which a derived column is shown. -/
def derived (text : String) : String := stripQuotes (Text.trim text)

/-! ### Projection -/

/-- The column that a call is, without its alias: an aliased call is a group whose first child is
the call. -/
def callColumn (node : Node) (aliasName : Option String) : String :=
  match aliasName, node.children with
  | some _, call :: _ => derived call.text
  | _, _ => derived node.text

mutual

/-- The columns that a node of the projection stands for. -/
def columnsOf : Node → List String
  | .mk (.identifier identifier) _ _ => [identifier.fullName]
  | .mk (.function name aliasName) text children =>
    [callColumn (.mk (.function name aliasName) text children) aliasName]
  | .mk .wildcard text _ => [text]
  | .mk .identifierList _ children => columnsOfAll children
  | _ => []

/-- The columns that nodes of the projection stand for. -/
def columnsOfAll : List Node → List String
  | [] => []
  | node :: rest => columnsOf node ++ columnsOfAll rest

end

/-- Where a scan of the projection stands. -/
inductive Scan where
  /-- Outside any `CASE`. -/
  | items
  /-- Inside a `CASE`: its nodes so far, last one first, and how many more are open around it. -/
  | case (block : List Node) (around : Nat)

/-- The columns of the items up to the first `FROM` outside any `CASE`. -/
def scanItems (scan : Scan) (last : Option Node) : List Node → List String
  | [] => []
  | node :: rest =>
    let last' := Node.lastSignificant last node
    match scan with
    | .case block around =>
      if node.isKeyword "CASE" then scanItems (.case (node :: block) (around + 1)) last' rest
      else if node.isKeyword "END" then
        match around with
        | 0 => derived (Node.textOf (node :: block).reverse) :: scanItems .items last' rest
        | around + 1 => scanItems (.case (node :: block) around) last' rest
      else scanItems (.case (node :: block) around) last' rest
    | .items =>
      if node.isKeyword "FROM" then []
      else if node.isKeyword "CASE" then scanItems (.case [node] 0) last' rest
      else columnsOfAll (Node.itemsAfterAlias last node) ++ scanItems .items last' rest

/-- The columns of the first projection. -/
def projection (nodes : List Node) : List String :=
  match Node.afterKeyword? "SELECT" nodes with
  | some rest => scanItems .items none rest
  | none => []

/-! ### Column list of an insertion -/

/-- The columns of a list in parentheses, and whether the list was closed. -/
structure ColumnList where
  columns : List String := []
  closed : Bool := false
  deriving DecidableEq, Repr

/-- The column list after its opening parenthesis, among nodes that are no blanks. -/
def listAfterParen : List Node → ColumnList
  | [] => {}
  | node :: rest =>
    if node.isName then
      let more := listAfterParen rest
      { more with columns := node.realNames ++ more.columns }
    else if node.isPunctuation ")" then { closed := true }
    else if node.isAnyPunctuation then listAfterParen rest
    else {}

/-- The column list after the table of an insertion. -/
def insertList (nodes : List Node) : ColumnList :=
  match Node.afterKeyword? "INTO" nodes with
  | none => {}
  | some rest =>
    match rest.filter (!·.isBlank) with
    | table :: paren :: more =>
      if table.isName && paren.isPunctuation "(" then listAfterParen more else {}
    | _ => {}

/-! ### Assignments of an update -/

mutual

/-- The columns assigned by a node that stands between `last` and `rest`. -/
def targetsOf (last : Option Node) (rest : List Node) : Node → List String
  | .mk (.comparison left _ _) _ _ => left.identifier?.toList.map Identifier.name
  | .mk .identifierList _ children => targetsOfAll none children
  | .mk (.identifier identifier) _ _ =>
    if !last.any (·.isKeyword "AS") &&
        (Node.significant? rest).any fun next ↦ next.1.isPunctuation "=" then [identifier.name]
    else []
  | _ => []

/-- The columns assigned by nodes that stand after `last`. -/
def targetsOfAll (last : Option Node) : List Node → List String
  | [] => []
  | node :: rest =>
    targetsOf last rest node ++ targetsOfAll (Node.lastSignificant last node) rest

end

/-- The columns assigned between `SET` and `WHERE`. -/
def assigned (nodes : List Node) : List String :=
  match Node.afterKeyword? "SET" nodes with
  | some rest => targetsOfAll none (rest.takeWhile fun node ↦ !node.isKeyword "WHERE")
  | none => []

/-! ### All kinds -/

/-- The columns that a statement may refer to. -/
def candidates (kind : StatementKind) (nodes : List Node) : List String :=
  match kind with
  | .select => projection nodes
  | .insert =>
    let list := insertList nodes
    if list.closed then list.columns else list.columns ++ projection nodes
  | .update => assigned nodes
  | .delete | .unknown => []

end SqlFootprint.Columns
