/-!
# White space

The characters with the White_Space property, and trimming a text of them at both ends.
`toList_trim` gives the trimmed text on lists of characters.
-/

namespace SqlFootprint.Text

/-- The characters with the White_Space property. -/
def isBlank (c : Char) : Bool :=
  let n := c.toNat
  (9 ≤ n && n ≤ 13) || n == 0x20 || n == 0x85 || n == 0xA0 || n == 0x1680 ||
    (0x2000 ≤ n && n ≤ 0x200A) || n == 0x2028 || n == 0x2029 || n == 0x202F || n == 0x205F ||
    n == 0x3000

/-- A list of characters without the white space at its two ends. -/
def trimChars (cs : List Char) : List Char :=
  ((cs.dropWhile isBlank).reverse.dropWhile isBlank).reverse

/-- A text without the white space at its two ends. -/
def trim (text : String) : String := String.ofList (trimChars text.toList)

/-- Trimming acts on the characters of a text. -/
theorem toList_trim (text : String) : (trim text).toList = trimChars text.toList := by
  simp [trim]

end SqlFootprint.Text
