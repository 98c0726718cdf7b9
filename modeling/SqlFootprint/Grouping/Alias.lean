import SqlFootprint.Tree.Significant

/-!
# Aliases

A name, a call or a value takes the plain name that follows it, with or without `AS` between, as
its alias. The group has the kind of its first child; a value stays a value.
-/

namespace SqlFootprint.Grouping

/-- The name that a node offers as an alias. -/
def bareName? (node : Node) : Option String :=
  match node.identifier? with
  | some ⟨name, none, none⟩ => if name = "*" then none else some name
  | _ => none

/-- The alias at the front of a sequence, and how many nodes there are up to it and with it. -/
def aliasAfter? (nodes : List Node) : Option (String × Nat) :=
  match Node.significant? nodes with
  | none => none
  | some (node, count) =>
    if node.isKeyword "AS" then
      (Node.significant? (nodes.drop count)).bind fun (node, more) ↦
        (bareName? node).map fun name ↦ (name, count + more)
    else (bareName? node).map fun name ↦ (name, count)

/-- The kind of a node once it has an alias; `none` for a node that takes no alias. -/
def aliasedKind? (node : Node) : Option (String → Kind Node) :=
  match node.kind with
  | .identifier ⟨name, qualifier, none⟩ =>
    if name = "*" then none
    else some fun aliasName ↦ .identifier ⟨name, qualifier, some aliasName⟩
  | .function name none => some fun aliasName ↦ .function name (some aliasName)
  | .literal => some fun _ ↦ .literal
  | _ => none

/-- Fold aliases into what they name, from left to right. -/
def groupAliases : List Node → List Node
  | [] => []
  | node :: rest =>
    match aliasedKind? node with
    | none => node :: groupAliases rest
    | some kind =>
      match aliasAfter? rest with
      | none => node :: groupAliases rest
      | some (aliasName, count) =>
        .group (kind aliasName) (node :: rest.take count) :: groupAliases (rest.drop count)
termination_by nodes => nodes.length
decreasing_by all_goals simp only [List.length_cons, List.length_drop]; omega

end SqlFootprint.Grouping
