import SqlFootprint.Tree.Significant

/-!
# Lists of items

Items with commas between them make a list. A comma that no item follows stays outside.
-/

namespace SqlFootprint.Grouping

/-- The node can be an item of a list. -/
def isListItem (node : Node) : Bool :=
  match node.kind with
  | .identifier _ | .function _ _ | .literal | .comparison _ _ _ | .wildcard => true
  | _ => false

/-- One more node, if any are counted. -/
def countOn : Nat → Nat
  | 0 => 0
  | count + 1 => count + 2

/-- How many nodes after an item belong to its list; `expectItem` after a comma. -/
def listSpan (expectItem : Bool) : List Node → Nat
  | [] => 0
  | node :: rest =>
    if node.isBlank then countOn (listSpan expectItem rest)
    else if expectItem then if isListItem node then 1 + listSpan false rest else 0
    else if node.isPunctuation "," then countOn (listSpan true rest)
    else 0

/-- Group items with commas between them, from left to right. -/
def groupLists : List Node → List Node
  | [] => []
  | node :: rest =>
    if isListItem node ∧ 0 < listSpan false rest then
      let count := listSpan false rest
      .group .identifierList (node :: rest.take count) :: groupLists (rest.drop count)
    else node :: groupLists rest
termination_by nodes => nodes.length
decreasing_by all_goals simp only [List.length_cons, List.length_drop]; omega

end SqlFootprint.Grouping
