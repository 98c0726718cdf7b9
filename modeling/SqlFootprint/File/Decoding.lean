/-!
# Texts of files

The bytes of a file as a text: UTF-8 where they are UTF-8, else what their byte-order mark says,
else Windows-1252, which gives every byte a character. One leading U+FEFF of the text is dropped.
-/

namespace SqlFootprint.Decoding

/-- The characters of the bytes 0x80 to 0x9F in Windows-1252. -/
def windows1252High : List Nat := [
  0x20AC, 0x0081, 0x201A, 0x0192, 0x201E, 0x2026, 0x2020, 0x2021,
  0x02C6, 0x2030, 0x0160, 0x2039, 0x0152, 0x008D, 0x017D, 0x008F,
  0x0090, 0x2018, 0x2019, 0x201C, 0x201D, 0x2022, 0x2013, 0x2014,
  0x02DC, 0x2122, 0x0161, 0x203A, 0x0153, 0x009D, 0x017E, 0x0178]

/-- The character of a byte in Windows-1252. -/
def windows1252 (byte : UInt8) : Char :=
  let n := byte.toNat
  if 0x80 ≤ n ∧ n < 0xA0 then Char.ofNat (windows1252High.getD (n - 0x80) n) else Char.ofNat n

/-- The 16-bit units of bytes, unless a byte is left over. -/
def units16? (bigEndian : Bool) : List UInt8 → Option (List Nat)
  | [] => some []
  | [_] => none
  | a :: b :: rest =>
    let unit := if bigEndian then a.toNat * 256 + b.toNat else b.toNat * 256 + a.toNat
    (units16? bigEndian rest).map (unit :: ·)

/-- The characters of 16-bit units, unless a surrogate stands alone. -/
def charsOfUnits? : List Nat → Option (List Char)
  | [] => some []
  | unit :: rest =>
    if 0xD800 ≤ unit ∧ unit < 0xDC00 then
      match rest with
      | low :: rest =>
        if 0xDC00 ≤ low ∧ low < 0xE000 then
          (charsOfUnits? rest).map
            (Char.ofNat (0x10000 + (unit - 0xD800) * 0x400 + (low - 0xDC00)) :: ·)
        else none
      | [] => none
    else if 0xDC00 ≤ unit ∧ unit < 0xE000 then none
    else (charsOfUnits? rest).map (Char.ofNat unit :: ·)

/-- The text of bytes that are not UTF-8. After the mark of UTF-8 no text is left to find. -/
def legacyText? : List UInt8 → Option (List Char)
  | 0xEF :: 0xBB :: 0xBF :: _ => none
  | 0xFF :: 0xFE :: rest => (units16? false rest).bind charsOfUnits?
  | 0xFE :: 0xFF :: rest => (units16? true rest).bind charsOfUnits?
  | bytes => some (bytes.map windows1252)

/-- A text without one leading byte-order mark. -/
def withoutMark : List Char → List Char
  | '\ufeff' :: rest => rest
  | text => text

/-- The text of the bytes of a file. -/
def text? (bytes : ByteArray) : Option String :=
  let chars := match String.fromUTF8? bytes with
    | some text => some text.toList
    | none => legacyText? bytes.data.toList
  chars.map fun chars ↦ String.ofList (withoutMark chars)

end SqlFootprint.Decoding
