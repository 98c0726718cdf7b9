import SqlFootprint.Grouping.Alias
import SqlFootprint.Grouping.Comparison
import SqlFootprint.Grouping.ItemList
import SqlFootprint.Grouping.Name

/-!
# Levels of a statement

One level of a statement is what stands between the parentheses of a call, or outside all calls.
Parentheses that belong to no call stay flat at their level. A level ends before the parenthesis
that closes more than it opened. Reading a level gives its nodes and how many tokens they took;
aliases, comparisons and lists are then grouped within the level.
-/

namespace SqlFootprint.Grouping

/-- The grouping of one level: aliases first, then comparisons, then lists. -/
def regroup (nodes : List Node) : List Node :=
  groupLists (groupComparisons (groupAliases nodes))

/-- Nodes, and how many tokens they took. -/
abbrev Reading := List Node × Nat

/-- Put a node that took some tokens before what follows it. -/
def Reading.cons (node : Node) (tokens : Nat) (rest : Reading) : Reading :=
  (node :: rest.1, tokens + rest.2)

/-- The node before, blanks aside, is the given keyword. -/
def follows (last : Option Node) (word : String) : Bool := last.any (·.isKeyword word)

/-- The node before ends an operand, so a star multiplies. -/
def endsOperand (last : Option Node) : Bool :=
  last.any fun node ↦ isOperand node || node.isPunctuation ")"

/-- A star that multiplies is a mark; any other stands for all columns. -/
def starNode (last : Option Node) : Node :=
  if endsOperand last then .punctuation "*" else .leaf .wildcard "*"

/-- The node of a token that is no word, star, parenthesis or end of input. -/
def plainNode (token : Token) : Node :=
  if token.isBlank then .leaf .blank token.render
  else if token.isLiteral then .leaf .literal token.render
  else .punctuation token.render

/-- The node that a token makes on its own, after the node `last` and before `rest`. -/
def tokenNode? (last : Option Node) (rest : List Token) : Token → Option Node
  | .endOfInput => none
  | .star => some (starNode last)
  | .word word =>
    match wordRole word rest with
    | .value => some (.leaf .literal word.value)
    | .keyword => some (.leaf .keyword word.value)
    | .name => none
  | token => some (plainNode token)

/-- How many blanks stand at the front of the tokens. -/
def gapBefore (tokens : List Token) : Nat := (tokens.takeWhile Token.isBlank).length

/-- How many blanks stand between a name and the parenthesis of its arguments; `none` where the
name is no call. The name after `INTO` is a table, and blanks may stand only after a name that has
no delimiters and is no table or view with a list of columns. -/
def callGap? (last : Option Node) (name : DottedName) (rest : List Token) : Option Nat :=
  let gap := gapBefore rest
  let spaced := !name.last.quoted &&
    !(follows last "TABLE" || follows last "ON" || follows last "WITH")
  if follows last "INTO" then none
  else if name.identifier.fullName.toList.getLast? = some '*' then none
  else if (rest.drop gap).head? = some .openParen ∧ (gap = 0 ∨ spaced = true) then some gap
  else none

/-- The node of a call: the name, the blanks after it, and the arguments between parentheses. -/
def callNode (name : DottedName) (blanks : List Token) (arguments : List Node) (closed : Bool) :
    Node :=
  .group (.function name.identifier.fullName none)
    (name.node :: blanks.map plainNode ++ .punctuation "(" :: arguments ++
      if closed then [.punctuation ")"] else [])

/-- Read a level after the node `last`, with `depth` parentheses open that belong to no call. -/
def level (last : Option Node) (depth : Nat) : List Token → Reading
  | [] => ([], 0)
  | .endOfInput :: rest =>
    let reading := level last depth rest
    (reading.1, reading.2 + 1)
  | .openParen :: rest =>
    let node := .punctuation "("
    .cons node 1 (level (some node) (depth + 1) rest)
  | .closeParen :: rest =>
    match depth with
    | 0 => ([], 0)
    | depth + 1 =>
      let node := .punctuation ")"
      .cons node 1 (level (some node) depth rest)
  | .star :: rest => .cons (starNode last) 1 (level (some (starNode last)) depth rest)
  | .word word :: rest =>
    match wordRole word rest with
    | .value =>
      let node := .leaf .literal word.value
      .cons node 1 (level (some node) depth rest)
    | .keyword =>
      let node := .leaf .keyword word.value
      .cons node 1 (level (some node) depth rest)
    | .name =>
      let name := DottedName.read word rest
      let after := rest.drop name.furtherTokens
      match callGap? last name after with
      | none =>
        .cons name.node (1 + name.furtherTokens) (level (some name.node) depth after)
      | some gap =>
        let inside := after.drop (gap + 1)
        let arguments := level none 0 inside
        let closed := (inside.drop arguments.2).head? == some .closeParen
        let read := arguments.2 + if closed then 1 else 0
        let node := callNode name (after.take gap) (regroup arguments.1) closed
        .cons node (1 + name.furtherTokens + (gap + 1) + read)
          (level (some node) depth (inside.drop read))
  | token :: rest =>
    let node := plainNode token
    .cons node 1 (level (Node.lastSignificant last node) depth rest)
termination_by tokens => tokens.length
decreasing_by all_goals simp only [List.length_cons, List.length_drop]; omega

/-- The nodes of a statement. A parenthesis that closes more than was opened stands between two
levels. -/
def statementNodes (tokens : List Token) : List Node :=
  let reading := level none 0 tokens
  match h : tokens.drop reading.2 with
  | [] => regroup reading.1
  | _ :: rest =>
    have : rest.length < tokens.length := by
      have := congrArg List.length h
      simp at this
      omega
    regroup reading.1 ++ .punctuation ")" :: statementNodes rest
termination_by tokens.length

end SqlFootprint.Grouping
