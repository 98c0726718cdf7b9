import SqlFootprint.Lexer

/-!
# Texts that start alike

The text by which tokens are shown starts as the text that they were read from, up to a character
that is shown otherwise or a delimiter (`ShownLike`). A run of characters that ends in one text ends
in the other (`ShownLike.takeWhile`), and a scanner that does not know what stands in one does not
know what stands in the other (`Scanner.Mute`, `scanners_mute`).
-/

namespace SqlFootprint

open Lexer

/-! ### How tokens start -/

/-- What is found of all characters of a list. -/
theorem forall_mem_of_all {cs : List Char} {p : Char → Prop} [DecidablePred p]
    (h : (cs.all fun c ↦ decide (p c)) = true) : ∀ c ∈ cs, p c := by
  simpa using h

/-- The letters that announce a string. -/
def stringLetters : List Char := ['b', 'r', 'n', 'x', 'e', 'u']

/-- How the first character of a token is shown: most as themselves, blanks of other kinds as a
space or a line feed, `!=` as `<>`, `0x` by the opening of a string, and the letter that announces
a string in upper case. -/
inductive AsShown : Char → Char → Prop
  | same (c : Char) : AsShown c c
  | blank {c : Char} : Text.isBlank c = true → c ∉ [' ', '\t', '\n'] → AsShown c ' '
  | carriageReturn : AsShown '\r' '\n'
  | bang : AsShown '!' '<'
  | zero : AsShown '0' 'X'
  | letter {c : Char} : c ∈ stringLetters → AsShown c c.toUpper

private theorem eq_toLower_or (c : Char) : c = c.toLower ∨ c = c.toLower.toUpper := by
  unfold Char.toLower
  split
  · next h =>
    right
    have hlow : 65 ≤ c.val.toNat := UInt32.le_iff_toNat_le.1 h.1
    have hhigh : c.val.toNat ≤ 90 := UInt32.le_iff_toNat_le.1 h.2
    have hlower : (c.val + ('a'.val - 'A'.val)).toNat = c.val.toNat + 32 := by
      rw [UInt32.toNat_add, show ('a'.val - 'A'.val).toNat = 32 from rfl]
      omega
    have hletter : 'a'.val ≤ c.val + ('a'.val - 'A'.val) ∧
        c.val + ('a'.val - 'A'.val) ≤ 'z'.val := by
      rw [UInt32.le_iff_toNat_le, UInt32.le_iff_toNat_le, hlower]
      exact ⟨by show 97 ≤ _; omega, by show _ ≤ 122; omega⟩
    unfold Char.toUpper
    rw [dif_pos hletter]
    apply Char.ext
    apply UInt32.toNat_inj.1
    show _ = (c.val + ('a'.val - 'A'.val) + ('A'.val - 'a'.val)).toNat
    rw [UInt32.toNat_add, hlower, show ('A'.val - 'a'.val).toNat = 4294967264 from rfl]
    omega
  · exact .inl rfl

/-- A letter that announces a string is shown in upper case. -/
theorem AsShown.of_toLower {c letter : Char} (h : c.toLower = letter)
    (hletter : letter ∈ stringLetters) : AsShown c letter.toUpper := by
  rcases eq_toLower_or c with heq | heq
  · rw [h] at heq
    subst heq
    exact .letter hletter
  · rw [h] at heq
    subst heq
    exact .same _

/-- The characters behind which a text may go on otherwise than it was read. -/
def delimiters : List Char := ['\'', '"', '\x60', '[', '?']

/-- The second text starts as the first up to its end, to a character that is shown otherwise, or
to a delimiter; an `E` that is shown otherwise opens a string. -/
inductive ShownLike : List Char → List Char → Prop
  | done (cs : List Char) : ShownLike cs []
  | same (c : Char) {cs ds : List Char} : ShownLike cs ds → ShownLike (c :: cs) (c :: ds)
  | apart {c d : Char} {cs ds : List Char} : AsShown c d → (c = d → c ∈ delimiters) →
    (d = 'E' → ds.head? = some '\'') → ShownLike (c :: cs) (d :: ds)

/-- A token that starts with the first character is shown with the second and more: it is shown
otherwise than it is written, or opens with a delimiter. -/
structure Opens (c d : Char) (more : List Char) : Prop where
  head : AsShown c d
  delimited : c = d → (d :: more).any delimiters.contains = true
  escaped : d = 'E' → more.head? = some '\''

namespace ShownLike

/-- Texts go on alike behind the same characters. -/
theorem append {cs ds : List Char} (h : ShownLike cs ds) (front : List Char) :
    ShownLike (front ++ cs) (front ++ ds) := by
  induction front with
  | nil => exact h
  | cons c front ih => exact .same c ih

private theorem append_of_delimited {front : List Char} (h : front.any delimiters.contains = true)
    (cs ds : List Char) : ShownLike (front ++ cs) (front ++ ds) := by
  induction front with
  | nil => cases h
  | cons c front ih =>
    by_cases hc : c ∈ delimiters
    · refine .apart (.same c) (fun _ ↦ hc) ?_
      rintro rfl
      exact absurd hc (by decide)
    · rw [List.any_cons, List.contains_eq_mem, decide_eq_false hc, Bool.false_or] at h
      exact .same c (ih h)

/-- Texts are alike where one opens a token that the other opens as it is shown. -/
theorem of_opens {c d : Char} {more : List Char} (h : Opens c d more) (cs ds : List Char) :
    ShownLike (c :: more ++ cs) (d :: more ++ ds) := by
  by_cases heq : c = d
  · subst heq
    exact append_of_delimited (h.delimited rfl) cs ds
  · refine .apart h.head (fun hsame ↦ absurd hsame heq) fun hescaped ↦ ?_
    show (more ++ ds).head? = some '\''
    rw [List.head?_append, h.escaped hescaped]
    rfl

end ShownLike

/-! ### What alike texts have in common -/

/-- The characters that other characters are shown as. -/
def replacements : List Char := [' ', '\n', '<', 'X', 'B', 'R', 'N', 'E', 'U']

/-- Any other character is shown for itself alone. -/
theorem AsShown.eq {c d : Char} (h : AsShown c d) (hd : d ∉ replacements) : c = d := by
  cases h with
  | same => rfl
  | blank => exact absurd (by decide) hd
  | carriageReturn => exact absurd (by decide) hd
  | bang => exact absurd (by decide) hd
  | zero => exact absurd (by decide) hd
  | letter hc =>
    have hall : ∀ c ∈ stringLetters, c.toUpper ∈ replacements := forall_mem_of_all (by decide)
    exact absurd (hall c hc) hd

/-- A space and the delimiters of strings are shown as themselves. -/
theorem AsShown.eq_of_mem {c d : Char} (h : AsShown c d) (hc : c ∈ [' ', '\'', '"', '\x60']) :
    c = d := by
  cases h with
  | same => rfl
  | blank hblank hother =>
    have hall : ∀ c ∈ [' ', '\'', '"', '\x60'], Text.isBlank c = true → c = ' ' :=
      forall_mem_of_all (by decide)
    exact absurd (hall c hc hblank ▸ List.mem_cons_self) hother
  | carriageReturn => exact absurd hc (by decide)
  | bang => exact absurd hc (by decide)
  | zero => exact absurd hc (by decide)
  | letter hletter =>
    have hall : ∀ c ∈ stringLetters, c ∉ [' ', '\'', '"', '\x60'] :=
      forall_mem_of_all (by decide)
    exact absurd hc (hall c hletter)

namespace ShownLike

variable {c d : Char} {cs ds : List Char}

/-- Only the end is like the end. -/
theorem eq_nil (h : ShownLike [] ds) : ds = [] := by
  cases h
  rfl

/-- Where one text goes on, the other goes on with what is shown so. -/
theorem exists_head (h : ShownLike cs (d :: ds)) : ∃ c more, cs = c :: more ∧ AsShown c d := by
  cases h with
  | same _ hrest => exact ⟨d, _, rfl, .same d⟩
  | apart hhead => exact ⟨_, _, rfl, hhead⟩

/-- A character that stands for itself alone stands in both texts, which go on alike behind it
unless it is a delimiter. -/
theorem exists_cons (h : ShownLike cs (d :: ds)) (hd : d ∉ replacements) :
    ∃ more, cs = d :: more ∧ (d ∉ delimiters → ShownLike more ds) := by
  cases h with
  | same c hrest => exact ⟨_, rfl, fun _ ↦ hrest⟩
  | apart hhead hopens =>
    have heq := hhead.eq hd
    exact ⟨_, by rw [heq], fun hnot ↦ absurd (heq ▸ hopens heq) hnot⟩

end ShownLike

/-- Where a character stops a run, so does what it is shown as. -/
def Stops (p : Char → Bool) : Prop := ∀ c d, AsShown c d → p c = false → p d = false

/-- A run is stopped alike if neither blanks nor what else is shown otherwise make a difference. -/
theorem Stops.intro {p : Char → Bool} (hspace : p ' ' = false) (hline : p '\n' = false)
    (hbang : p '!' = false → p '<' = false) (hzero : p '0' = false → p 'X' = false)
    (hletters : (stringLetters.all fun c ↦ p c || !p c.toUpper) = true) : Stops p := by
  intro c d hshown hc
  cases hshown with
  | same => exact hc
  | blank => exact hspace
  | carriageReturn => exact hline
  | bang => exact hbang hc
  | zero => exact hzero hc
  | letter hmem => simpa [hc] using List.all_eq_true.1 hletters c hmem

theorem stops_isDigit : Stops Char.isDigit :=
  .intro (by decide) (by decide) (by decide) (by decide) (by decide)

theorem stops_isOperatorPart : Stops isOperatorPart :=
  .intro (by decide) (by decide) (by decide) (by decide) (by decide)

theorem stops_isNumeric : Stops Text.isNumeric :=
  .intro (by decide) (by decide) (by decide) (by decide) (by decide)

theorem stops_isTagPart : Stops isTagPart :=
  .intro (by decide) (by decide) (by decide) (by decide) (by decide)

theorem stops_isTagPart_or_dollar : Stops fun c ↦ isTagPart c || c == '$' :=
  .intro (by decide) (by decide) (by decide) (by decide) (by decide)

/-- What ends a word of a dialect is shown as what ends it. -/
theorem stops_continuesWord (dialect : Dialect) : Stops dialect.lexicon.continuesWord := by
  cases dialect with
  | _ => exact .intro (by decide) (by decide) (by decide) (by decide) (by decide)

/-- A run of characters ends in a text where it ends in one that is alike. -/
theorem ShownLike.takeWhile {p : Char → Bool} (hp : Stops p) {cs shown : List Char}
    (h : ShownLike (cs.dropWhile p) shown) :
    (cs.takeWhile p ++ shown).takeWhile p = cs.takeWhile p ∧
      (cs.takeWhile p ++ shown).dropWhile p = shown := by
  have hall : ∀ c ∈ cs.takeWhile p, p c = true := List.all_eq_true.1 List.all_takeWhile
  have hstop : shown.takeWhile p = [] ∧ shown.dropWhile p = shown := by
    cases shown with
    | nil => exact ⟨rfl, rfl⟩
    | cons d ds =>
      obtain ⟨c, more, hrest, hhead⟩ := h.exists_head
      have hc : p c = false := by
        have hnot := List.head?_dropWhile_not p cs
        rw [hrest] at hnot
        simpa using hnot
      have hd := hp _ _ hhead hc
      simp [hd]
  rw [List.takeWhile_append_of_pos hall, List.dropWhile_append_of_pos hall, hstop.1, hstop.2,
    List.append_nil]
  exact ⟨rfl, rfl⟩

/-! ### Scanners that do not know a text -/

namespace Lexer

/-- A scanner that does not know what stands in a text does not know it in a text that goes on
alike. -/
def Scanner.Mute (scanner : Scanner) : Prop :=
  ∀ lexicon c cs ds, ShownLike cs ds → scanner lexicon c cs = none → scanner lexicon c ds = none

private theorem blank?_mute : Scanner.Mute blank? := by
  intro lexicon c cs ds _ h
  unfold blank? at h ⊢
  split at h
  iterate 5 cases h
  next hspace htab hline hreturn _ =>
    split
    · exact absurd rfl hspace
    · exact absurd rfl htab
    · exact absurd rfl hline
    · exact absurd rfl hreturn
    · exact absurd rfl hreturn
    · rfl

private theorem letterString?_mute : Scanner.Mute letterString? := by
  intro lexicon c cs ds halike h
  unfold letterString?
  split
  · next hletter =>
    obtain ⟨more, rfl, -⟩ := halike.exists_cons (by decide)
    have hflag : lexicon.byteStrings = false := by simpa [letterString?, hletter] using h
    rw [hflag]
    rfl
  · next hletter =>
    obtain ⟨more, rfl, -⟩ := halike.exists_cons (by decide)
    have hflag : lexicon.byteStrings = false := by simpa [letterString?, hletter] using h
    rw [hflag]
    rfl
  · next hletter =>
    obtain ⟨more, rfl, -⟩ := halike.exists_cons (by decide)
    have hflag : lexicon.rawStrings = false := by simpa [letterString?, hletter] using h
    rw [hflag]
    rfl
  · next hletter =>
    obtain ⟨more, rfl, -⟩ := halike.exists_cons (by decide)
    have hflag : lexicon.rawStrings = false := by simpa [letterString?, hletter] using h
    rw [hflag]
    rfl
  · next hletter =>
    obtain ⟨more, rfl, -⟩ := halike.exists_cons (by decide)
    simp [letterString?, hletter] at h
  · next hletter =>
    obtain ⟨more, rfl, -⟩ := halike.exists_cons (by decide)
    simp [letterString?, hletter] at h
  · next hletter =>
    obtain ⟨more, rfl, -⟩ := halike.exists_cons (by decide)
    simp only [letterString?, hletter] at h
    split at h <;> cases h
  · next hletter =>
    obtain ⟨after, rfl, hafter⟩ := halike.exists_cons (by decide)
    obtain ⟨more, rfl, -⟩ := (hafter (by decide)).exists_cons (by decide)
    have hflag : lexicon.unicodeStrings = false := by simpa [letterString?, hletter] using h
    rw [hflag]
    rfl
  · rfl

private theorem string?_mute : Scanner.Mute string? := by
  intro lexicon c cs ds _ h
  unfold string? at h ⊢
  split at h
  · cases h
  · next hsingle =>
    split at h
    · cases h
    · next hdouble => rw [if_neg hsingle, if_neg hdouble]

private theorem quotedWord?_mute : Scanner.Mute quotedWord? := by
  intro lexicon c cs ds _ h
  exact Option.map_eq_none_iff.2 (Option.map_eq_none_iff.1 h)

private theorem number?_mute : Scanner.Mute number? := by
  intro lexicon c cs ds _ h
  unfold number? at h ⊢
  split at h
  · cases h
  · next hc => exact if_neg hc

private theorem comment?_mute : Scanner.Mute comment? := by
  intro lexicon c cs ds halike h
  unfold comment?
  dsimp only
  split
  · obtain ⟨more, rfl, -⟩ := halike.exists_cons (by decide)
    cases h
  · have hflag : lexicon.hashComments = false := by simpa [comment?] using h
    rw [hflag]
    rfl
  · obtain ⟨more, rfl, -⟩ := halike.exists_cons (by decide)
    simp only [comment?] at h
    split at h <;> cases h
  · rfl

/-- The symbol has one character, or two of which the second stands for itself alone. -/
def Operator.isShort (operator : Operator) : Bool :=
  match operator.text.toList with
  | [_] => true
  | [_, d] => !replacements.contains d
  | _ => false

private theorem exists_isShort (lexicon : Lexicon) : ∀ operator ∈ symbols lexicon,
    ∃ short ∈ symbols lexicon, short.text.toList.isPrefixOf operator.text.toList = true ∧
      short.isShort = true := by
  unfold symbols
  split
  · decide +kernel
  · decide +kernel

private theorem operator?_eq_none_iff {lexicon : Lexicon} {c : Char} {cs : List Char} :
    operator? lexicon c cs = none ↔
      ∀ operator ∈ symbols lexicon, ¬ operator.text.toList <+: c :: cs := by
  unfold operator? operatorAt?
  rw [Option.map_eq_none_iff, Option.map_eq_none_iff, List.find?_eq_none]
  simp only [List.isPrefixOf_iff_prefix]

private theorem operator?_mute : Scanner.Mute operator? := by
  intro lexicon c cs ds halike h
  rw [operator?_eq_none_iff] at h ⊢
  intro operator hmem hprefix
  obtain ⟨short, hshort, hfront, hcase⟩ := exists_isShort lexicon operator hmem
  have hfound := (List.isPrefixOf_iff_prefix.1 hfront).trans hprefix
  refine h short hshort ?_
  unfold Operator.isShort at hcase
  split at hcase
  · next d htext =>
    rw [htext] at hfound ⊢
    obtain ⟨rfl, -⟩ := List.cons_prefix_cons.1 hfound
    exact List.prefix_append [d] cs
  · next d e htext =>
    rw [htext] at hfound ⊢
    obtain ⟨rfl, hsecond⟩ := List.cons_prefix_cons.1 hfound
    obtain ⟨after, rfl⟩ := hsecond
    obtain ⟨more, rfl, -⟩ := halike.exists_cons (d := e) (by simpa using hcase)
    exact List.prefix_append [d, e] more
  · cases hcase

private theorem hash?_mute : Scanner.Mute hash? := by
  intro lexicon c cs ds _ h
  unfold hash? at h ⊢
  split at h
  · split at h
    · cases h
    · split at h
      · cases h
      · split at h <;> cases h
  · next hc => exact if_neg hc

private theorem at?_mute : Scanner.Mute at? := by
  intro lexicon c cs ds _ h
  unfold at? at h ⊢
  split at h
  · split at h
    · cases h
    · cases h
    · split at h <;> cases h
    · split at h <;> cases h
  · next hc => exact if_neg hc

private theorem question?_mute : Scanner.Mute question? := by
  intro lexicon c cs ds _ h
  unfold question? at h ⊢
  split at h
  · split at h
    · split at h <;> cases h
    · cases h
  · next hc => exact if_neg hc

private theorem word?_mute : Scanner.Mute word? := by
  intro lexicon c cs ds _ h
  unfold word? at h ⊢
  split at h
  · cases h
  · next hc => exact if_neg hc

private theorem dollar?_mute : Scanner.Mute dollar? := by
  intro lexicon c cs ds _ h
  unfold dollar? at h ⊢
  split at h
  · split at h
    · cases h
    · split at h <;> cases h
  · next hc => exact if_neg hc

/-- What no scanner knows of a text, none knows of a text that goes on alike. -/
theorem scanners_mute : ∀ scanner ∈ scanners, scanner.Mute := by
  simp only [scanners, List.forall_mem_cons, List.not_mem_nil, false_implies, implies_true,
    and_true]
  exact ⟨blank?_mute, letterString?_mute, string?_mute, quotedWord?_mute, number?_mute,
    comment?_mute, operator?_mute, hash?_mute, at?_mute, question?_mute, word?_mute, dollar?_mute⟩

end Lexer

end SqlFootprint
