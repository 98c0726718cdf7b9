import SqlFootprint.Text.Blank
import SqlFootprint.Tree.Node

/-!
# Outlines

A statement as indented lines, one for each node that is no blank. Lists, calls and comparisons
show their children, two columns further in; other groups do not.
-/

namespace SqlFootprint.Node

/-- The node shows its children in an outline. -/
def opensOutline {α : Type} : Kind α → Bool
  | .identifierList | .function _ _ | .comparison _ _ _ => true
  | _ => false

/-- The line of a node at a depth. -/
def outlineLine (depth : Nat) (label text : String) : String :=
  String.ofList (List.replicate (2 * depth) ' ') ++ label ++ " '" ++ Text.trim text ++ "'\n"

mutual

/-- The lines of a node and of what it shows. -/
def outlineAt (depth : Nat) : Node → String
  | .mk kind text children =>
    if (mk kind text children).isBlank then ""
    else
      outlineLine depth kind.label text ++
        if opensOutline kind then outlineOfAll (depth + 1) children else ""

/-- The lines of nodes at a depth. -/
def outlineOfAll (depth : Nat) : List Node → String
  | [] => ""
  | node :: rest => node.outlineAt depth ++ outlineOfAll depth rest

end

/-- The outline of a statement. -/
def outline (nodes : List Node) : String := outlineOfAll 0 nodes

end SqlFootprint.Node
