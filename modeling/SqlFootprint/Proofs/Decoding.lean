import Mathlib.Data.List.GetD
import Mathlib.Data.List.Nodup
import SqlFootprint.Batch

/-!
# Decoding loses nothing

The bytes of a file are the encoding of a text or they are not, and that decides how they are read.
An encoded text is read back without one leading byte-order mark (`text?_toUTF8`); other bytes
without a byte-order mark are read as Windows-1252, where each byte is a character of its own
(`injective_windows1252`) and none is a mark to drop. So only after a mark can bytes be left without
a text (`readScript_decodes`).
-/

namespace SqlFootprint

namespace Decoding

/-! ### Texts in UTF-8 -/

/-- What is decoded as UTF-8 are the encodings of texts. -/
theorem fromUTF8?_eq_some_iff {bytes : ByteArray} {text : String} :
    String.fromUTF8? bytes = some text ↔ bytes = text.toUTF8 := by
  rw [String.fromUTF8?]
  constructor
  · intro h
    split at h
    · cases h
      rfl
    · cases h
  · rintro rfl
    rw [String.toUTF8_eq_toByteArray, dif_pos text.isValidUTF8]
    rfl

private theorem fromUTF8?_eq_none {bytes : ByteArray} (h : ∀ text : String, bytes ≠ text.toUTF8) :
    String.fromUTF8? bytes = none := by
  cases htext : String.fromUTF8? bytes with
  | none => rfl
  | some text => exact absurd (fromUTF8?_eq_some_iff.1 htext) (h text)

/-- An encoded text is read back, but for one leading mark. -/
theorem text?_toUTF8 (text : String) :
    text? text.toUTF8 = some (String.ofList (withoutMark text.toList)) := by
  rw [text?, fromUTF8?_eq_some_iff.2 rfl]
  rfl

/-- One leading mark is dropped, and what follows it stays as it is. -/
theorem withoutMark_append (rest : String) :
    String.ofList (withoutMark ("\ufeff" ++ rest).toList) = rest := by
  have hmark : ("\ufeff" ++ rest).toList = '\ufeff' :: rest.toList := by
    rw [String.toList_append]
    rfl
  rw [hmark, withoutMark, String.ofList_toList]

/-- A text without a leading mark stays as it is. -/
theorem withoutMark_eq_self {chars : List Char} (h : chars.head? ≠ some '\ufeff') :
    withoutMark chars = chars := by
  unfold withoutMark
  split
  · exact absurd rfl h
  · rfl

/-! ### Characters of Windows-1252 -/

/-- A number below the surrogates is that of its character. -/
theorem toNat_ofNat {n : Nat} (h : n < 0xD800) : (Char.ofNat n).toNat = n := by
  rw [Char.ofNat, dif_pos (.inl h)]
  rfl

private theorem nodup_windows1252High : windows1252High.Nodup := by decide

/-- The table names no character that a byte outside it stands for. -/
theorem of_mem_windows1252High {n : Nat} (h : n ∈ windows1252High) :
    0x80 ≤ n ∧ n < 0xD800 ∧ (n < 0xA0 ∨ 0x100 ≤ n) := by
  have hall : ∀ n ∈ windows1252High, 0x80 ≤ n ∧ n < 0xD800 ∧ (n < 0xA0 ∨ 0x100 ≤ n) := by decide
  exact hall n h

/-- The bytes of the table. -/
theorem toNat_windows1252_high {byte : UInt8} (hlow : 0x80 ≤ byte.toNat)
    (hhigh : byte.toNat < 0xA0) :
    ∃ h : byte.toNat - 0x80 < windows1252High.length,
      (windows1252 byte).toNat = windows1252High[byte.toNat - 0x80] := by
  have hindex : byte.toNat - 0x80 < windows1252High.length := by
    show byte.toNat - 0x80 < 32
    omega
  refine ⟨hindex, ?_⟩
  rw [windows1252, if_pos ⟨hlow, hhigh⟩, List.getD_eq_getElem _ _ hindex]
  exact toNat_ofNat (of_mem_windows1252High (List.getElem_mem hindex)).2.1

/-- The bytes outside the table stand for the characters with their numbers. -/
theorem toNat_windows1252 {byte : UInt8} (h : byte.toNat < 0x80 ∨ 0xA0 ≤ byte.toNat) :
    (windows1252 byte).toNat = byte.toNat := by
  have hbyte := byte.toNat_lt
  rw [windows1252, if_neg (by omega)]
  apply toNat_ofNat
  omega

/-- Different bytes stand for different characters. -/
theorem injective_windows1252 : Function.Injective windows1252 := by
  intro first second heq
  have hsame := congrArg Char.toNat heq
  have hfirst := first.toNat_lt
  have hsecond := second.toNat_lt
  rw [← UInt8.toNat_inj]
  by_cases hhigh : 0x80 ≤ first.toNat ∧ first.toNat < 0xA0
  · obtain ⟨hindex, htable⟩ := toNat_windows1252_high hhigh.1 hhigh.2
    by_cases hother : 0x80 ≤ second.toNat ∧ second.toNat < 0xA0
    · obtain ⟨hindex', htable'⟩ := toNat_windows1252_high hother.1 hother.2
      rw [htable, htable', nodup_windows1252High.getElem_inj_iff] at hsame
      omega
    · have hentry := of_mem_windows1252High (List.getElem_mem hindex)
      rw [htable, toNat_windows1252 (by omega)] at hsame
      omega
  · rw [toNat_windows1252 (by omega)] at hsame
    by_cases hother : 0x80 ≤ second.toNat ∧ second.toNat < 0xA0
    · obtain ⟨hindex', htable'⟩ := toNat_windows1252_high hother.1 hother.2
      have hentry := of_mem_windows1252High (List.getElem_mem hindex')
      rw [htable'] at hsame
      omega
    · rwa [toNat_windows1252 (by omega)] at hsame

private theorem windows1252_ne_mark (byte : UInt8) : windows1252 byte ≠ '\ufeff' := by
  intro heq
  have hsame : (windows1252 byte).toNat = 0xFEFF := congrArg Char.toNat heq
  have hbyte := byte.toNat_lt
  by_cases hhigh : 0x80 ≤ byte.toNat ∧ byte.toNat < 0xA0
  · obtain ⟨hindex, htable⟩ := toNat_windows1252_high hhigh.1 hhigh.2
    have hentry := of_mem_windows1252High (List.getElem_mem hindex)
    omega
  · rw [toNat_windows1252 (by omega)] at hsame
    omega

/-! ### Bytes that are not UTF-8 -/

/-- The byte-order marks of UTF-8 and of UTF-16. -/
def marks : List (List UInt8) := [[0xEF, 0xBB, 0xBF], [0xFF, 0xFE], [0xFE, 0xFF]]

/-- Bytes that start with a byte-order mark. -/
def HasMark (bytes : List UInt8) : Prop := ∃ mark ∈ marks, mark <+: bytes

instance (bytes : List UInt8) : Decidable (HasMark bytes) :=
  inferInstanceAs (Decidable (∃ mark ∈ marks, mark <+: bytes))

private theorem legacyText?_of_not_hasMark {bytes : List UInt8} (h : ¬ HasMark bytes) :
    legacyText? bytes = some (bytes.map windows1252) := by
  unfold legacyText?
  split
  · exact absurd ⟨[0xEF, 0xBB, 0xBF], by decide, List.prefix_append _ _⟩ h
  · exact absurd ⟨[0xFF, 0xFE], by decide, List.prefix_append _ _⟩ h
  · exact absurd ⟨[0xFE, 0xFF], by decide, List.prefix_append _ _⟩ h
  · rfl

private theorem withoutMark_map_windows1252 (bytes : List UInt8) :
    withoutMark (bytes.map windows1252) = bytes.map windows1252 := by
  apply withoutMark_eq_self
  cases bytes with
  | nil => simp
  | cons byte bytes => simpa using windows1252_ne_mark byte

/-- Bytes that are not UTF-8 and have no mark are read byte by byte. -/
theorem text?_of_not_hasMark {bytes : ByteArray} (hbytes : ∀ text : String, bytes ≠ text.toUTF8)
    (hmark : ¬ HasMark bytes.data.toList) :
    text? bytes = some (String.ofList (bytes.data.toList.map windows1252)) := by
  rw [text?, fromUTF8?_eq_none hbytes]
  show (legacyText? bytes.data.toList).map _ = _
  rw [legacyText?_of_not_hasMark hmark, Option.map_some, withoutMark_map_windows1252]

/-- Only bytes with a mark that are not UTF-8 can be left without a text. -/
theorem hasMark_of_text?_eq_none {bytes : ByteArray} (h : text? bytes = none) :
    (∀ text : String, bytes ≠ text.toUTF8) ∧ HasMark bytes.data.toList := by
  have hbytes : ∀ text : String, bytes ≠ text.toUTF8 := by
    rintro text rfl
    rw [text?_toUTF8] at h
    cases h
  constructor
  · exact hbytes
  · by_contra hmark
    rw [text?_of_not_hasMark hbytes hmark] at h
    cases h

end Decoding

/-! ### Files in the working directory -/

/-- A name that leads from a directory to what stands in it under that name. -/
structure Path.IsName (name : String) : Prop where
  alone : pieces name = [name]
  relative : isAbsolute name = false
  plain : name ≠ "" ∧ name ≠ "." ∧ name ≠ ".."
  whole : '\x00' ∉ name.toList
  short : name.utf8ByteSize ≤ FileTree.maxNameLength

instance (name : String) : Decidable (Path.IsName name) :=
  decidable_of_iff
    (Path.pieces name = [name] ∧ Path.isAbsolute name = false ∧
      (name ≠ "" ∧ name ≠ "." ∧ name ≠ "..") ∧ '\x00' ∉ name.toList ∧
      name.utf8ByteSize ≤ FileTree.maxNameLength)
    ⟨fun ⟨alone, relative, plain, whole, short⟩ ↦ ⟨alone, relative, plain, whole, short⟩,
      fun h ↦ ⟨h.alone, h.relative, h.plain, h.whole, h.short⟩⟩

namespace FileTree

variable {tree : FileTree} {name : String}

/-- A name is followed from the working directory. -/
theorem locate_name (hname : Path.IsName name) :
    tree.locate name = tree.follow maxLinks tree.workingDirectory [name] := by
  have hshort : ¬ maxPathLength < name.utf8ByteSize := by
    have hlimits : maxNameLength ≤ maxPathLength := by decide
    have hlength := hname.short
    omega
  rw [locate, if_neg hname.plain.1, if_neg (by simpa using hname.whole), if_neg hshort,
    hname.relative, hname.alone, if_neg Bool.false_ne_true]

/-- A file in the working directory is read by its name. -/
theorem read_name {bytes : ByteArray} (hname : Path.IsName name)
    (hhere : tree.item? tree.workingDirectory = some .directory)
    (hfile : tree.item? (tree.workingDirectory ++ [name]) = some (.file bytes)) :
    tree.read name = .ok bytes := by
  have hlocate : tree.locate name = .ok (tree.workingDirectory ++ [name]) := by
    rw [locate_name hname, follow]
    simp only [hhere, hname.plain, Nat.not_lt.2 hname.short, hfile, or_self, ↓reduceIte, follow]
  simp only [read, hlocate, hfile]

/-- What is not in the working directory cannot be read by its name. -/
theorem read_missing (hname : Path.IsName name)
    (hhere : tree.item? tree.workingDirectory = some .directory)
    (hnone : tree.item? (tree.workingDirectory ++ [name]) = none) :
    tree.read name = .error .missing := by
  have hlocate : tree.locate name = .error .missing := by
    rw [locate_name hname, follow]
    simp only [hhere, hname.plain, Nat.not_lt.2 hname.short, hnone, or_self, ↓reduceIte]
  simp only [read, hlocate]

end FileTree

/-! ### Scripts of files -/

/-- What is read of a file whose bytes can be read. -/
theorem readScript_eq {tree : FileTree} {path : String} {bytes : ByteArray}
    (hread : tree.read path = .ok bytes) :
    readScript tree path =
      match Decoding.text? bytes with
      | some text => .ok text
      | none => .error (.undecodable path) := by
  cases htext : Decoding.text? bytes with
  | none => simp only [readScript, hread, htext]
  | some text => simp only [readScript, hread, htext]

/-- Decoding loses nothing. A text in UTF-8 is read but for one leading byte-order mark; other bytes
without a mark give one character per byte, ASCII as it is and no two bytes the same character; and
only bytes that are not UTF-8 but start with a mark can be refused. -/
theorem readScript_decodes {tree : FileTree} {path : String} {bytes : ByteArray}
    (hread : tree.read path = .ok bytes) :
    (∀ text : String, bytes = text.toUTF8 →
      (∀ rest : String, text = "\ufeff" ++ rest → readScript tree path = .ok rest) ∧
      (text.toList.head? ≠ some '\ufeff' → readScript tree path = .ok text)) ∧
    ((∀ text : String, bytes ≠ text.toUTF8) → ¬ Decoding.HasMark bytes.data.toList →
      ∃ text : String, readScript tree path = .ok text ∧
        text.toList = bytes.data.toList.map Decoding.windows1252) ∧
    (∀ byte : UInt8, byte < 0x80 → (Decoding.windows1252 byte).toNat = byte.toNat) ∧
    Function.Injective Decoding.windows1252 ∧
    (∀ error : Error, readScript tree path = .error error →
      error = .undecodable path ∧ (∀ text : String, bytes ≠ text.toUTF8) ∧
        Decoding.HasMark bytes.data.toList) := by
  rw [readScript_eq hread]
  refine ⟨?_, ?_, ?_, Decoding.injective_windows1252, ?_⟩
  · rintro text rfl
    rw [Decoding.text?_toUTF8]
    constructor
    · rintro rest rfl
      rw [Decoding.withoutMark_append]
    · intro hhead
      rw [Decoding.withoutMark_eq_self hhead, String.ofList_toList]
  · intro hbytes hmark
    rw [Decoding.text?_of_not_hasMark hbytes hmark]
    exact ⟨_, rfl, String.toList_ofList⟩
  · intro byte hbyte
    apply Decoding.toNat_windows1252
    exact .inl (UInt8.lt_iff_toNat_lt.1 hbyte)
  · intro error herror
    cases htext : Decoding.text? bytes with
    | some text =>
      rw [htext] at herror
      cases herror
    | none =>
      rw [htext] at herror
      cases herror
      exact ⟨rfl, Decoding.hasMark_of_text?_eq_none htext⟩

/-- `SELECT café FROM menu` in Windows-1252. -/
def Decoding.legacyBytes : ByteArray :=
  "SELECT caf".toUTF8 ++ ⟨#[0xE9]⟩ ++ " FROM menu".toUTF8

/-- The byte 0xE9 before a blank is not UTF-8. It is read as the one character that it is in
Windows-1252, and the ASCII bytes around it stay what they are. -/
theorem readScript_decodes_legacy :
    let tree : FileTree := { items := [(["latin.sql"], .file Decoding.legacyBytes)] }
    tree.read "latin.sql" = .ok Decoding.legacyBytes ∧
      readScript tree "latin.sql" = .ok "SELECT café FROM menu" := by
  intro tree
  have hread : tree.read "latin.sql" = .ok Decoding.legacyBytes :=
    FileTree.read_name (by decide) rfl rfl
  have hbytes : ∀ text : String, Decoding.legacyBytes ≠ text.toUTF8 := by
    intro text htext
    have hnone : String.fromUTF8? Decoding.legacyBytes = none := by decide +kernel
    rw [Decoding.fromUTF8?_eq_some_iff.2 htext] at hnone
    cases hnone
  obtain ⟨text, hok, hchars⟩ := (readScript_decodes hread).2.1 hbytes (by decide +kernel)
  have hlegacy : Decoding.legacyBytes.data.toList.map Decoding.windows1252 =
      "SELECT café FROM menu".toList := by decide +kernel
  have htext : text = "SELECT café FROM menu" := String.toList_injective (hchars.trans hlegacy)
  constructor
  · exact hread
  · rw [hok, htext]

end SqlFootprint
