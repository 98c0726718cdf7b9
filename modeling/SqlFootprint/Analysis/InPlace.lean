import SqlFootprint.Analysis
import SqlFootprint.Tree.InPlace

/-!
# Analysing a stored tree in place

The kind, the tables and the columns of a statement, read by position from its stored tree. Scans
go from place to place, and look back and ahead in the sequence from where they stand.
-/

namespace SqlFootprint.InPlace

variable (tree : TokenTree)

/-! ### Kind -/

/-- The first kind named outside parentheses. -/
def firstOutside (depth : Nat) : List Nat → Access StatementKind
  | [] => return .unknown
  | position :: rest => do
    let node := (← entryAt tree position).alone
    if node.isPunctuation "(" then firstOutside (depth + 1) rest
    else if node.isPunctuation ")" then firstOutside (depth - 1) rest
    else
      match if depth = 0 then StatementKind.ofNode? node else none with
      | some kind => return kind
      | none => firstOutside depth rest

/-- The kind of the statement. -/
def statementKind : Access StatementKind := do
  match ← firstPlace tree (!·.isBlank) tree.roots with
  | none => return .unknown
  | some first =>
    let leading := (← entryAt tree (← placeAt tree.roots first)).alone
    if !leading.isAnyKeyword then return .unknown
    else
      match StatementKind.ofKeyword? leading.text with
      | some kind => return kind
      | none =>
        if !leading.isKeyword "WITH" then return .unknown
        else firstOutside tree 0 (← part tree.roots (first + 1) tree.roots.length)

/-! ### Clauses -/

/-- The first place of a keyword. -/
def keywordPlace (word : String) (sequence : List Nat) : Access (Option Nat) :=
  firstPlace tree (·.isKeyword word) sequence

/-- What stands at a place is an alias of what stands before it. -/
def introducesAlias (sequence : List Nat) (place : Nat) : Access Bool :=
  testBefore tree (fun node ↦
    node.isKeyword "AS" || node.isKeyword "END" || node.isPunctuation ")") sequence place

/-- The items at a place without the first where it is an alias. -/
def itemsAfterAlias (sequence : List Nat) (place : Nat) : Access (List Nat) := do
  let found := items tree (← placeAt sequence place)
  if ← introducesAlias tree sequence place then return found.drop 1 else return found

/-! ### Tables -/

/-- A name at a place is an alias. -/
def isAliasPlace (sequence : List Nat) (place : Nat) : Access Bool := do
  if ← introducesAlias tree sequence place then return true
  else testBefore tree (·.identifier?.isSome) sequence place

/-- The tables that a name or list contributes. The first is left out where it is an alias. -/
def namesAt (sequence : List Nat) (place position : Nat) : Access (List String) := do
  if ← isAliasPlace tree sequence place then
    return (← ((items tree position).drop 1).mapM (realNames tree)).flatten
  else realNames tree position

/-- The tables after every `FROM` and `JOIN`, from a place of a sequence on. -/
def scanLists (sequence : List Nat) (scan : Tables.Scan) (place : Nat) :
    List Nat → Access (List String)
  | [] => return []
  | position :: rest => do
    let node := (← entryAt tree position).alone
    if node.isAnyKeyword then scanLists sequence (scan.onKeyword node.text) (place + 1) rest
    else if node.isName ∧ scan = .inList then
      let names ← namesAt tree sequence place position
      return names ++ (← scanLists sequence scan (place + 1) rest)
    else scanLists sequence scan (place + 1) rest

/-- The name or list right after `INTO`. -/
def insertTarget : Access (List String) := do
  match ← keywordPlace tree "INTO" tree.roots with
  | none => return []
  | some into =>
    match ← nextSignificant tree tree.roots into with
    | none => return []
    | some next =>
      let position ← placeAt tree.roots next
      if ← testAt tree Node.isName position then realNames tree position else return []

/-- The first name or list after `FROM`. -/
def deleteTarget : Access (List String) := do
  match ← keywordPlace tree "FROM" tree.roots with
  | none => return []
  | some start =>
    match ← (← part tree.roots (start + 1) tree.roots.length).findM?
      (testAt tree Node.isName) with
    | none => return []
    | some position => realNames tree position

/-- The first name of the statement. -/
def updateTarget : Access (List String) := do
  let found ← tree.roots.findSomeM? fun position ↦
    return (← entryAt tree position).alone.identifier?
  return found.toList.map Identifier.name

/-- The tables that a statement may refer to. -/
def tableCandidates (kind : StatementKind) : Access (List String) := do
  match kind with
  | .select => scanLists tree tree.roots .outside 0 tree.roots
  | .insert =>
    let target ← insertTarget tree
    match ← keywordPlace tree "SELECT" tree.roots with
    | none => return target
    | some start =>
      let rest ← part tree.roots (start + 1) tree.roots.length
      return target ++ (← scanLists tree rest .outside 0 rest)
  | .update => updateTarget tree
  | .delete => deleteTarget tree
  | .unknown => return []

/-! ### Projection -/

/-- The column that a call is, without its alias. -/
def callColumn (entry : Entry) : Access String := do
  match entry.kind, entry.children with
  | .function _ (some _), call :: _ => return Columns.derived (← entryAt tree call).text
  | _, _ => return Columns.derived entry.text

/-- The columns that positions of the projection stand for, down to so many levels. -/
def columnsOfAll (levels : Nat) : List Nat → Access (List String)
  | [] => return []
  | position :: rest => do
    let entry ← entryAt tree position
    let columns ← match entry.kind with
      | .identifier identifier => pure [identifier.fullName]
      | .function _ _ => do pure [← callColumn tree entry]
      | .wildcard => pure [entry.text]
      | .identifierList =>
        match levels with
        | 0 => unending
        | levels + 1 => columnsOfAll levels (items tree position)
      | _ => pure []
    return columns ++ (← columnsOfAll levels rest)
termination_by positions => (levels, positions)

/-- The column that the entries at positions are, as one text. -/
def render (positions : List Nat) : Access String := do
  let entries ← positions.mapM (entryAt tree)
  return Columns.derived (String.join (entries.map Entry.text))

/-- Where a scan of the projection stands. -/
inductive Scan where
  /-- Outside any `CASE`. -/
  | items
  /-- Inside a `CASE` that starts at a place, with how many are open. -/
  | case (start depth : Nat)

/-- One `CASE` less is open. -/
def lower : Nat → Access Nat
  | 0 => throw .noCase
  | depth + 1 => return depth

/-- How many are open after a node within a `CASE`. -/
def caseDepth (depth : Nat) (node : Node) : Access Nat :=
  if node.isKeyword "CASE" then return depth + 1
  else if node.isKeyword "END" then lower depth
  else return depth

/-- The columns of the items at the places up to the first `FROM` outside any `CASE`. -/
def scanItems (sequence : List Nat) : Scan → List Nat → Access (List String)
  | _, [] => return []
  | .case start depth, place :: rest => do
    let node := (← entryAt tree (← placeAt sequence place)).alone
    let depth ← caseDepth depth node
    if depth = 0 then
      let column ← render tree (← part sequence start (place + 1))
      return column :: (← scanItems sequence .items rest)
    else scanItems sequence (.case start depth) rest
  | .items, place :: rest => do
    let node := (← entryAt tree (← placeAt sequence place)).alone
    if node.isKeyword "FROM" then return []
    else if node.isKeyword "CASE" then scanItems sequence (.case place 1) rest
    else
      let columns ← columnsOfAll tree tree.entries.size (← itemsAfterAlias tree sequence place)
      return columns ++ (← scanItems sequence .items rest)

/-- The columns of the first projection. -/
def projection : Access (List String) := do
  match ← keywordPlace tree "SELECT" tree.roots with
  | none => return []
  | some start =>
    scanItems tree tree.roots .items
      (List.range' (start + 1) (tree.roots.length - (start + 1)))

/-! ### Column list of an insertion -/

/-- Where a scan for the column list stands. -/
inductive ListScan where
  /-- Before `INTO`. -/
  | beforeInto
  /-- After `INTO`, before the table. -/
  | beforeTable
  /-- After the table, before the parenthesis. -/
  | afterTable
  /-- Within the parentheses. -/
  | within

/-- The column list after the table of an insertion. -/
def insertList : ListScan → List Nat → Access Columns.ColumnList
  | _, [] => return {}
  | scan, position :: rest => do
    let node := (← entryAt tree position).alone
    if node.isBlank then insertList scan rest
    else
      match scan with
      | .beforeInto =>
        if node.isKeyword "INTO" then insertList .beforeTable rest
        else insertList .beforeInto rest
      | .beforeTable => if node.isName then insertList .afterTable rest else return {}
      | .afterTable => if node.isPunctuation "(" then insertList .within rest else return {}
      | .within =>
        if node.isName then
          let names ← realNames tree position
          let more ← insertList .within rest
          return { more with columns := names ++ more.columns }
        else if node.isPunctuation ")" then return { closed := true }
        else if node.isAnyPunctuation then insertList .within rest
        else return {}

/-! ### Assignments of an update -/

/-- The columns assigned in a sequence, from a place on, down to so many levels. -/
def targetsFrom (levels : Nat) (sequence : List Nat) (place : Nat) :
    List Nat → Access (List String)
  | [] => return []
  | position :: rest => do
    let entry ← entryAt tree position
    let targets ← match entry.kind with
      | .comparison left _ _ => do
        pure ((← entryAt tree left).alone.identifier?.toList.map Identifier.name)
      | .identifierList =>
        match levels with
        | 0 => unending
        | levels + 1 => targetsFrom levels entry.children 0 entry.children
      | .identifier identifier => do
        if ← testBefore tree (·.isKeyword "AS") sequence place then pure []
        else if ← testAfter tree (·.isPunctuation "=") sequence place then pure [identifier.name]
        else pure []
      | _ => pure []
    return targets ++ (← targetsFrom levels sequence (place + 1) rest)
termination_by positions => (levels, positions)

/-- Where the assignments start, once `SET` is found, and where they stop: at `WHERE`, or at the
end of the sequence. -/
def setBounds (start? : Option Nat) (place : Nat) : List Nat → Access (Option Nat × Nat)
  | [] => return (start?, place)
  | position :: rest => do
    let node := (← entryAt tree position).alone
    match start? with
    | none =>
      if node.isKeyword "SET" then setBounds (some (place + 1)) (place + 1) rest
      else setBounds none (place + 1) rest
    | some start =>
      if node.isKeyword "WHERE" then return (some start, place)
      else setBounds (some start) (place + 1) rest

/-- The columns assigned between `SET` and `WHERE`. -/
def assigned : Access (List String) := do
  match ← setBounds tree none 0 tree.roots with
  | (none, _) => return []
  | (some start, stop) =>
    let assignments ← part tree.roots start stop
    targetsFrom tree tree.entries.size assignments 0 assignments

/-! ### All kinds -/

/-- The columns that a statement may refer to. -/
def columnCandidates (kind : StatementKind) : Access (List String) := do
  match kind with
  | .select => projection tree
  | .insert =>
    let list ← insertList tree .beforeInto tree.roots
    let query ← keywordPlace tree "SELECT" tree.roots
    if list.closed || query.isNone then return list.columns
    else return list.columns ++ (← projection tree)
  | .update => assigned tree
  | .delete | .unknown => return []

/-- What the statement refers to. -/
def analysis : Access Analysis := do
  let kind ← statementKind tree
  if kind = .unknown then return {}
  else
    return .consolidate kind (← tableCandidates tree kind) (← columnCandidates tree kind)

end SqlFootprint.InPlace
