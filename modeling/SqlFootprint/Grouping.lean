import SqlFootprint.Grouping.Store

/-!
# Grouping a statement

The tokens of one statement as a stored tree.
-/

namespace SqlFootprint

/-- The tree of a statement. -/
def groupStatement (tokens : List Token) : TokenTree :=
  let (builder, roots) := Grouping.storeStatement {} tokens
  builder.finish roots

end SqlFootprint
