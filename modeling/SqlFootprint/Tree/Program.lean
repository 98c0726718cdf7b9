import SqlFootprint.Tree.TokenTree

/-!
# Builder programs

A builder is driven by calls, each of which makes one entry. The positions in a call are arbitrary:
they may name entries that are not there yet, the entry that is being made, or one that another
group has already taken.
-/

namespace SqlFootprint

/-- The operands of a comparison; other kinds have none. -/
def Kind.operands {α : Type} : Kind α → List α
  | comparison left _ right => [left, right]
  | _ => []

namespace Builder

/-- One call of a builder. -/
inductive Call where
  | leaf (kind : Kind Nat) (text : String)
  | group (kind : Kind Nat) (children : List Nat)
  deriving DecidableEq, Repr

namespace Call

/-- The kind that is asked for. -/
def kind : Call → Kind Nat
  | leaf kind _ => kind
  | group kind _ => kind

/-- The children that are asked for. -/
def children : Call → List Nat
  | leaf _ _ => []
  | group _ children => children

end Call

/-- The builder after one more call. -/
def make (builder : Builder) : Call → Builder
  | .leaf kind text => builder.leaf kind text
  | .group kind children => builder.group kind children

/-- The builder after calls in their order. -/
def run (calls : List Call) : Builder := calls.foldl make {}

/-- After one more call, the builder has made it. -/
theorem run_concat (calls : List Call) (call : Call) :
    run (calls ++ [call]) = (run calls).make call := List.foldl_append

end Builder

end SqlFootprint
