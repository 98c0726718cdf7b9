import SqlFootprint.Tree.Significant

/-!
# Finding clauses

What stands after a keyword of a statement, and names that are aliases of what stands before them.
-/

namespace SqlFootprint.Node

/-- The nodes after the first occurrence of a keyword. -/
def afterKeyword? (word : String) : List Node → Option (List Node)
  | [] => none
  | node :: rest => if node.isKeyword word then some rest else afterKeyword? word rest

/-- What follows the node `last` is an alias: `last` is `AS`, the end of a case or a closing
parenthesis. -/
def introducesAlias (last : Option Node) : Bool :=
  last.any fun node ↦ node.isKeyword "AS" || node.isKeyword "END" || node.isPunctuation ")"

/-- The items of a node without the first where it is an alias. -/
def itemsAfterAlias (last : Option Node) (node : Node) : List Node :=
  if introducesAlias last then node.items.drop 1 else node.items

/-- A keyword occurs exactly when something, if only nothing more, stands after it. -/
theorem isSome_afterKeyword?_iff {word : String} {nodes : List Node} :
    (afterKeyword? word nodes).isSome = true ↔ ∃ node ∈ nodes, node.isKeyword word = true := by
  induction nodes with
  | nil => simp [afterKeyword?]
  | cons node rest ih =>
    unfold afterKeyword?
    split
    · next h => simp [h]
    · next h => simp [h, ih]

end SqlFootprint.Node
