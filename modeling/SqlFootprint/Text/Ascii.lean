/-!
# Comparison up to ASCII letter case

Keywords of SQL are recognised whatever the case of their ASCII letters; no other letter is
folded. `sameWord` is that comparison, and `sameWord_iff` says it is equality of folded texts,
so it is an equivalence.
-/

namespace SqlFootprint.Text

/-- The characters of a text with every ASCII upper-case letter made lower-case. -/
def folded (text : String) : List Char := text.toList.map Char.toLower

/-- Two texts agree up to the case of ASCII letters. -/
def sameWord (a b : String) : Bool := folded a == folded b

/-- A word occurs in a table, up to the case of ASCII letters. -/
def listed (table : List String) (word : String) : Bool := table.any (sameWord · word)

/-- Agreement up to case is equality of the folded texts. -/
theorem sameWord_iff {a b : String} : sameWord a b = true ↔ folded a = folded b := by
  simp [sameWord]

/-- Every text agrees with itself. -/
@[simp] theorem sameWord_self (a : String) : sameWord a a = true := by
  simp [sameWord]

/-- Agreement up to case does not depend on the order of the two texts. -/
theorem sameWord_comm (a b : String) : sameWord a b = sameWord b a := by
  simp only [sameWord, Bool.beq_comm]

/-- A word is listed exactly when some entry agrees with it. -/
theorem listed_iff {table : List String} {word : String} :
    listed table word = true ↔ ∃ entry ∈ table, folded entry = folded word := by
  simp [listed, sameWord]

end SqlFootprint.Text
