import SqlFootprint.Tree.Node

/-!
# Stored trees

A tree is stored as a table of entries that name each other by position. A `Builder` takes one
entry after the other: a leaf with its text, or a group over positions, whose text is that of the
entries already there. `Builder.finish` makes a `TokenTree` of it, in which every position that
was not there in time is dropped. `TokenTree.nodes` reads the tree as nodes, and
`TokenTree.ofNodes` stores nodes through a builder.
-/

namespace SqlFootprint

/-- An entry of a stored tree; parent, children and operands are positions. -/
structure Entry where
  kind : Kind Nat
  text : String
  parent : Option Nat := none
  children : List Nat := []
  deriving DecidableEq, Repr

/-- A table of entries to which more can be added. -/
structure Builder where
  entries : Array Entry := #[]
  deriving DecidableEq, Repr

/-- A finished tree: its entries and the positions of its statement-level nodes. -/
structure TokenTree where
  entries : Array Entry := #[]
  roots : List Nat := []
  deriving DecidableEq, Repr

namespace Builder

/-- The position of the entry that is added next. -/
def next (builder : Builder) : Nat := builder.entries.size

/-- Add a leaf. -/
def leaf (builder : Builder) (kind : Kind Nat) (text : String) : Builder :=
  ⟨builder.entries.push { kind, text }⟩

/-- Add a name whose text is its full name, and its alias if it has one. -/
def identifier (builder : Builder) (identifier : Identifier) : Builder :=
  builder.leaf (.identifier identifier) (identifier.fullName ++
    match identifier.aliasName with
    | some aliasName => " AS " ++ aliasName
    | none => "")

/-- The texts of the entries that are there, in a row. -/
def textOf (builder : Builder) (positions : List Nat) : String :=
  String.join (positions.filterMap fun position ↦ builder.entries[position]?.map Entry.text)

/-- Make an entry the parent of those that are there. -/
def adopt (entries : Array Entry) (parent : Nat) (children : List Nat) : Array Entry :=
  children.foldl (fun entries child ↦ entries.modify child fun entry ↦
    { entry with parent := some parent }) entries

/-- Add a group over positions and make it their parent. -/
def group (builder : Builder) (kind : Kind Nat) (children : List Nat) : Builder :=
  let entry : Entry := { kind, text := builder.textOf children, children }
  let position := builder.next
  ⟨(adopt builder.entries position children).push entry⟩

/-- The operand of a comparison at a position, if it stands before. -/
def earlier? (position operand : Nat) : Option Nat :=
  if operand < position then some operand else none

/-- An entry without the positions that were not there when it was made. -/
def settle (size position : Nat) (entry : Entry) : Entry where
  kind := entry.kind.resolve (earlier? position)
  text := entry.text
  parent := entry.parent.filter fun parent ↦ position < parent && parent < size
  children := entry.children.filter (· < position)

/-- The finished tree with the given statement-level positions. -/
def finish (builder : Builder) (roots : List Nat) : TokenTree where
  entries := builder.entries.mapIdx (settle builder.next)
  roots := roots.filter (· < builder.next)

end Builder

namespace TokenTree

/-- The tree has no statement-level nodes. -/
def isEmpty (tree : TokenTree) : Bool := tree.roots.isEmpty

/-- The node of an entry, from the nodes of the entries before it. -/
def nodeOf (earlier : Array Node) (entry : Entry) : Node :=
  .mk (entry.kind.resolve fun operand ↦ earlier[operand]?) entry.text
    (entry.children.filterMap fun child ↦ earlier[child]?)

/-- The nodes of all entries. -/
def allNodes (tree : TokenTree) : Array Node :=
  tree.entries.foldl (fun earlier entry ↦ earlier.push (nodeOf earlier entry)) #[]

/-- The statement as nodes. -/
def nodes (tree : TokenTree) : List Node :=
  let all := tree.allNodes
  tree.roots.filterMap fun root ↦ all[root]?

/-- The text of the statement. -/
def text (tree : TokenTree) : String := Node.textOf tree.nodes

end TokenTree

/-! ### Adding nodes -/

namespace Builder

/-- The kind of a stored group; the operands of a comparison are its first and last child. -/
def groupKind (positions : List Nat) : Kind Node → Kind Nat
  | .comparison _ operator _ => .comparison (positions.headD 0) operator (positions.getLastD 0)
  | kind => kind.resolve fun _ ↦ none

/-- Add a node without children. -/
def addLeaf (builder : Builder) (node : Node) : Builder :=
  builder.leaf (node.kind.resolve fun _ ↦ none) node.text

/-- Add a group of a kind over positions. -/
def addGroup (builder : Builder) (kind : Kind Node) (positions : List Nat) : Builder :=
  builder.group (groupKind positions kind) positions

end Builder

end SqlFootprint
