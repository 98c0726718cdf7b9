import SqlFootprint.Grouping.Level
import SqlFootprint.Grouping.Step
import SqlFootprint.Tree.TokenTree

/-!
# Storing a statement while it is read

The nodes of a statement are entries of one table, in the order in which they come up: each leaf as
its token is read, the groups of a level once the level is read, and a call once its parenthesis is
closed. What is read of a level is kept as nodes and as their positions in the table.
-/

namespace SqlFootprint.Grouping

/-- A table, and nodes with their positions in it. -/
structure Stored where
  builder : Builder
  nodes : List Node := []
  positions : List Nat := []

/-- Put a node and its position before the others. -/
def Stored.cons (node : Node) (position : Nat) (stored : Stored) : Stored where
  builder := stored.builder
  nodes := node :: stored.nodes
  positions := position :: stored.positions

/-- Store nodes without children. -/
def storeLeaves (builder : Builder) : List Node → Stored
  | [] => ⟨builder, [], []⟩
  | node :: rest =>
    let position := builder.next
    (storeLeaves (builder.addLeaf node) rest).cons node position

/-- Store the groups that a step makes of nodes from left to right. -/
def storeGroups (step : Step) (builder : Builder) : List Node → List Nat → Stored
  | node :: rest, position :: positions =>
    match step node rest with
    | none => (storeGroups step builder rest positions).cons node position
    | some (kind, count) =>
      let group := builder.next
      let after := builder.addGroup kind (position :: positions.take count)
      (storeGroups step after (rest.drop count) (positions.drop count)).cons
        (.group kind (node :: rest.take count)) group
  | _, _ => ⟨builder, [], []⟩
termination_by nodes => nodes.length
decreasing_by all_goals simp only [List.length_cons, List.length_drop]; omega

/-- Store the groups of one level: aliases first, then comparisons, then lists. -/
def Stored.regroup (level : Stored) : Stored :=
  let aliases := storeGroups aliasStep level.builder level.nodes level.positions
  let comparisons := storeGroups comparisonStep aliases.builder aliases.nodes aliases.positions
  storeGroups listStep comparisons.builder comparisons.nodes comparisons.positions

/-- Store what stands before the arguments of a call: its name, blanks, and the parenthesis. -/
def storeHead (builder : Builder) (name : DottedName) (blanks : List Token) : Stored :=
  storeLeaves builder (name.node :: blanks.map plainNode ++ [.punctuation "("])

/-- Store a call over its head, its arguments and the parenthesis that closes it, if there is one;
also the position of the call. -/
def storeCall (kind : Kind Node) (head arguments : Stored) (closed : Bool) : Builder × Nat :=
  let mark := storeLeaves arguments.builder (if closed then [.punctuation ")"] else [])
  let position := mark.builder.next
  (mark.builder.addGroup kind (head.positions ++ arguments.positions ++ mark.positions), position)

/-- Read a level and store its nodes before they are grouped; also how many tokens they took. -/
def storeLevel (builder : Builder) (last : Option Node) (depth : Nat) :
    List Token → Stored × Nat
  | [] => (⟨builder, [], []⟩, 0)
  | token :: rest =>
    let position := builder.next
    match tokenNode? last rest token with
    | some node =>
      match token.nestAfter? depth with
      | none => (⟨builder, [], []⟩, 0)
      | some inner =>
        let more :=
          storeLevel (builder.addLeaf node) (Node.lastSignificant last node) inner rest
        (more.1.cons node position, more.2 + 1)
    | none =>
      match token with
      | .word word =>
        let name := DottedName.read word rest
        let after := rest.drop name.furtherTokens
        match callGap? last name after with
        | none =>
          let more := storeLevel (builder.addLeaf name.node) (some name.node) depth after
          (more.1.cons name.node position, more.2 + 1 + name.furtherTokens)
        | some gap =>
          let inside := after.drop (gap + 1)
          let head := storeHead builder name (after.take gap)
          let level := storeLevel head.builder none 0 inside
          let arguments := level.1.regroup
          let closed := (inside.drop level.2).head? == some .closeParen
          let read := level.2 + if closed then 1 else 0
          let node := callNode name (after.take gap) arguments.nodes closed
          let call := storeCall node.kind head arguments closed
          let more := storeLevel call.1 (some node) depth (inside.drop read)
          (more.1.cons node call.2, more.2 + 1 + name.furtherTokens + (gap + 1) + read)
      | _ =>
        let more := storeLevel builder last depth rest
        (more.1, more.2 + 1)
termination_by tokens => tokens.length
decreasing_by all_goals simp only [List.length_cons, List.length_drop]; omega

/-- What follows a token of a list is shorter than the list. -/
theorem length_lt_of_drop {tokens rest : List Token} {token : Token} {count : Nat}
    (h : tokens.drop count = token :: rest) : rest.length < tokens.length := by
  have hlength := congrArg List.length h
  rw [List.length_drop, List.length_cons] at hlength
  omega

/-- Store the nodes of a statement; the positions are those of the nodes outside all groups. -/
def storeStatement (builder : Builder) (tokens : List Token) : Builder × List Nat :=
  let level := storeLevel builder none 0 tokens
  let stored := level.1.regroup
  match h : tokens.drop level.2 with
  | [] => (stored.builder, stored.positions)
  | _ :: rest =>
    have : rest.length < tokens.length := length_lt_of_drop h
    let stray := stored.builder.next
    let more := storeStatement (stored.builder.addLeaf (.punctuation ")")) rest
    (more.1, stored.positions ++ stray :: more.2)
termination_by tokens.length

end SqlFootprint.Grouping
