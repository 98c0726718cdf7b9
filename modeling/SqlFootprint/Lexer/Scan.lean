import SqlFootprint.Lexer.Escape
import SqlFootprint.Lexer.Number
import SqlFootprint.Lexer.Operator

/-!
# One token at a time

Each scanner knows one family of tokens and answers for the first character and the rest of the
input whether a token of its family stands there. `scan` asks the scanners in order. Its main
statement `scan_length` says that a token is taken off the input; the lemmas `…_shortens` say so
of each scanner.
-/

namespace SqlFootprint.Lexer

/-- A token and the characters after it, or the fault that stands there. -/
abbrev Outcome := Except Halt (Token × List Char)

/-- A family of tokens: the outcome, if a token of the family starts with the given character. -/
abbrev Scanner := Lexicon → Char → List Char → Option Outcome

/-- A scanner leaves no more than the characters after the first. -/
def Scanner.Shortens (scanner : Scanner) : Prop :=
  ∀ lexicon c cs token rest, scanner lexicon c cs = some (.ok (token, rest)) →
    rest.length ≤ cs.length

/-- A word of the given beginning and of all characters that continue it. -/
def wordFrom (lexicon : Lexicon) (start cs : List Char) : Token × List Char :=
  (.word ⟨String.ofList (start ++ cs.takeWhile lexicon.continuesWord), none⟩,
    cs.dropWhile lexicon.continuesWord)

/-- A string up to its closing quote; `cs` starts after the opening quote. -/
def plainString (form : StringForm) (quote : Char) (escapes : Bool) (cs : List Char) : Outcome :=
  match quotedBody? quote escapes cs with
  | some body => .ok (.string form (String.ofList body.1), body.2)
  | none => .error ⟨.unterminatedString, quote :: cs⟩

/-- A raw string; `cs` starts after the first quote. Three quotes need three to close. -/
def rawString (once thrice : StringForm) (quote : Char) (cs : List Char) : Outcome :=
  if [quote, quote].isPrefixOf cs then
    match fencedBody? [quote, quote, quote] (cs.drop 2) with
    | some body => .ok (.string thrice (String.ofList body.1), body.2)
    | none => .error ⟨.unterminatedString, cs.drop 2⟩
  else if [quote].isPrefixOf cs then .ok (.string once "", cs.drop 1)
  else
    match quotedBody? quote false cs with
    | some body => .ok (.string once (String.ofList body.1), body.2)
    | none => .error ⟨.unterminatedString, cs⟩

/-- A string up to a fence, whose fault is reported at the end of the input. -/
def fencedString (fault : Fault) (tag : Option String) (fence cs : List Char) : Outcome :=
  match fencedBody? fence cs with
  | some body => .ok (.dollarString tag (String.ofList body.1), body.2)
  | none => .error ⟨fault, []⟩

/-- Spaces, tabs, line feeds and carriage returns, alone or before a line feed. -/
def blank? : Scanner := fun _ c cs ↦
  match c, cs with
  | ' ', cs => some (.ok (.blank .space, cs))
  | '\t', cs => some (.ok (.blank .tab, cs))
  | '\n', cs => some (.ok (.blank .newline, cs))
  | '\r', '\n' :: cs => some (.ok (.blank .newline, cs))
  | '\r', cs => some (.ok (.blank .newline, cs))
  | _, _ => none

/-- Strings that a letter announces. -/
def letterString? : Scanner := fun lexicon c cs ↦
  match c.toLower, cs with
  | 'b', '\'' :: rest =>
    if lexicon.byteStrings then some (plainString .bytesSingle '\'' false rest) else none
  | 'b', '"' :: rest =>
    if lexicon.byteStrings then some (plainString .bytesDouble '"' false rest) else none
  | 'r', '\'' :: rest =>
    if lexicon.rawStrings then some (rawString .rawSingle .rawTripleSingle '\'' rest) else none
  | 'r', '"' :: rest =>
    if lexicon.rawStrings then some (rawString .rawDouble .rawTripleDouble '"' rest) else none
  | 'n', '\'' :: rest => some (plainString .national '\'' true rest)
  | 'x', '\'' :: rest => some (plainString .hexadecimal '\'' true rest)
  | 'e', '\'' :: rest =>
    match escapedBody? rest with
    | some body => some (.ok (.string .escaped (String.ofList body.1), body.2))
    | none => some (.error ⟨.unterminatedEscapedString, c :: cs⟩)
  | 'u', '&' :: '\'' :: rest =>
    if lexicon.unicodeStrings then
      some ((unicodeBody rest).map fun body ↦ (.string .unicode (String.ofList body.1), body.2))
    else none
  | _, _ => none

/-- Strings between quotes; a double quote opens one only where it opens no word. -/
def string? : Scanner := fun lexicon c cs ↦
  if c = '\'' then some (plainString .single '\'' lexicon.backslashEscapes cs)
  else if c = '"' ∧ lexicon.quote? '"' = none then
    some (plainString .double '"' lexicon.backslashEscapes cs)
  else none

/-- Words between delimiters; a doubled closing delimiter stands for itself. -/
def quotedWord? : Scanner := fun lexicon c cs ↦
  (lexicon.quote? c).map fun quote ↦
    match quotedBody? quote.closing false cs with
    | some body => .ok (.word ⟨String.ofList body.1, some quote⟩, body.2)
    | none => .error ⟨.unclosedWord quote.closing, c :: cs⟩

/-- Numbers and the period. -/
def number? : Scanner := fun lexicon c cs ↦
  if c = '.' ∨ c.isDigit then some (.ok (numberAt lexicon (c :: cs))) else none

/-- Comments, which run to the end of a line or to a closing mark. -/
def comment? : Scanner := fun lexicon c cs ↦
  let line (opener : String) (rest : List Char) : Outcome :=
    let body := lineBody (fun c ↦ c == '\n' || (lexicon.returnEndsComment && c == '\r')) rest
    .ok (.blank (.lineComment opener (String.ofList body.1)), body.2)
  match c, cs with
  | '-', '-' :: rest => some (line "--" rest)
  | '#', rest => if lexicon.hashComments then some (line "#" rest) else none
  | '/', '*' :: rest =>
    match commentBody? lexicon.nestedComments 0 rest with
    | some body => some (.ok (.blank (.blockComment (String.ofList body.1)), body.2))
    | none => some (.error ⟨.unterminatedComment, []⟩)
  | _, _ => none

/-- The fixed symbols. -/
def operator? : Scanner := fun lexicon c cs ↦ (operatorAt? lexicon (c :: cs)).map .ok

/-- A number sign that is no comment: a word may start with it and any character. -/
def hash? : Scanner := fun lexicon c cs ↦
  if c = '#' then
    match cs with
    | [] => some (.ok (.ofSymbolText "#", []))
    | d :: rest =>
      if d = ' ' then some (.ok (.ofSymbolText "#", cs))
      else if lexicon.startsWord '#' then some (.ok (wordFrom lexicon ['#', d] rest))
      else some (.ok (extend lexicon ⟨"#", "#", true⟩ cs))
  else none

/-- One at sign or two: a word may start with them and any character. -/
def at? : Scanner := fun lexicon c cs ↦
  if c = '@' then
    match cs with
    | [] => some (.ok (.ofSymbolText "@", []))
    | '@' :: [] => some (.ok (.ofSymbolText "@@", []))
    | '@' :: d :: rest =>
      if d ≠ ' ' ∧ lexicon.startsWord '@' then some (.ok (wordFrom lexicon ['@', '@', d] rest))
      else some (.ok (.ofSymbolText "@@", d :: rest))
    | d :: rest =>
      if d ∉ [' ', '\'', '"', '\x60'] ∧ lexicon.startsWord '@' then
        some (.ok (wordFrom lexicon ['@', d] rest))
      else some (.ok (.ofSymbolText "@", d :: rest))
  else none

/-- A question mark: a placeholder with a number, or an operator of two characters; an operator
of one takes the character after it along unseen. -/
def question? : Scanner := fun lexicon c cs ↦
  if c = '?' then
    if lexicon.questionOperators then
      match cs with
      | '|' :: rest => some (.ok (.ofSymbolText "?|", rest))
      | '&' :: rest => some (.ok (.ofSymbolText "?&", rest))
      | cs => some (.ok (.ofSymbolText "?", cs.drop 1))
    else
      some (.ok (.placeholder (String.ofList ('?' :: cs.takeWhile Text.isNumeric)),
        cs.dropWhile Text.isNumeric))
  else none

/-- Words without delimiters. -/
def word? : Scanner := fun lexicon c cs ↦
  if lexicon.startsWord c then some (.ok (wordFrom lexicon [c] cs)) else none

/-- The characters of the tag between two dollar signs. -/
def isTagPart (c : Char) : Bool := Text.isAlphanumeric c || c == '_'

/-- A placeholder of a dollar sign and the characters that satisfy `part`. -/
def dollarPlaceholder (part : Char → Bool) (cs : List Char) : Outcome :=
  .ok (.placeholder (String.ofList ('$' :: cs.takeWhile part)), cs.dropWhile part)

/-- A string with a tag between its dollar signs, or a placeholder where the tag is not closed. -/
def taggedString (cs : List Char) : Outcome :=
  match cs.dropWhile isTagPart with
  | '$' :: rest =>
    let tag := cs.takeWhile isTagPart
    fencedString .unterminatedTaggedString (some (String.ofList tag)) ('$' :: tag ++ ['$']) rest
  | _ => dollarPlaceholder isTagPart cs

/-- A dollar sign: a placeholder, or the fence of a string with or without a tag. -/
def dollar? : Scanner := fun lexicon c cs ↦
  if c = '$' then
    if lexicon.dollarPlaceholders then
      some (dollarPlaceholder (fun c ↦ isTagPart c || c == '$') cs)
    else
      match cs with
      | '$' :: rest => some (fencedString .unterminatedDollarString none ['$', '$'] rest)
      | cs => some (taggedString cs)
  else none

/-- White space of other scripts is shown as a space, any other character as itself. -/
def other (c : Char) : Token :=
  if Text.isBlank c then .blank .space else .ofSymbolText (String.singleton c)

/-- The scanners, in the order in which they are asked. -/
def scanners : List Scanner :=
  [blank?, letterString?, string?, quotedWord?, number?, comment?, operator?, hash?, at?,
    question?, word?, dollar?]

/-- The token at the front of the input, or the fault that stands there. -/
def scan (lexicon : Lexicon) (c : Char) (cs : List Char) : Outcome :=
  (scanners.findSome? fun scanner ↦ scanner lexicon c cs).getD (.ok (other c, cs))

/-! ### Every scanner takes a token off the input -/

theorem length_dropWhile_le {α : Type} (p : α → Bool) (l : List α) :
    (l.dropWhile p).length ≤ l.length :=
  (List.dropWhile_suffix p).length_le

private theorem plainString_length {form : StringForm} {quote : Char} {escapes : Bool}
    {cs : List Char} {token : Token} {rest : List Char}
    (h : plainString form quote escapes cs = .ok (token, rest)) : rest.length ≤ cs.length := by
  unfold plainString at h
  split at h
  · next body hbody =>
    cases h
    exact quotedBody?_length hbody
  · cases h

private theorem fencedString_length {fault : Fault} {tag : Option String} {fence cs : List Char}
    {token : Token} {rest : List Char}
    (h : fencedString fault tag fence cs = .ok (token, rest)) : rest.length ≤ cs.length := by
  unfold fencedString at h
  split at h
  · next body hbody =>
    cases h
    exact fencedBody?_length hbody
  · cases h

private theorem rawString_length {once thrice : StringForm} {quote : Char} {cs : List Char}
    {token : Token} {rest : List Char}
    (h : rawString once thrice quote cs = .ok (token, rest)) : rest.length ≤ cs.length := by
  unfold rawString at h
  split at h
  · split at h
    · next body hbody =>
      cases h
      exact Nat.le_trans (fencedBody?_length hbody) (by simp)
    · cases h
  · split at h
    · cases h
      simp
    · split at h
      · next body hbody =>
        cases h
        exact quotedBody?_length hbody
      · cases h

theorem blank?_shortens : Scanner.Shortens blank? := by
  intro lexicon c cs token rest h
  unfold blank? at h
  split at h <;> cases h <;> simp

theorem letterString?_shortens : Scanner.Shortens letterString? := by
  intro lexicon c cs token rest h
  unfold letterString? at h
  split at h
  · split at h
    · exact Nat.le_succ_of_le (plainString_length (Option.some.inj h))
    · cases h
  · split at h
    · exact Nat.le_succ_of_le (plainString_length (Option.some.inj h))
    · cases h
  · split at h
    · exact Nat.le_succ_of_le (rawString_length (Option.some.inj h))
    · cases h
  · split at h
    · exact Nat.le_succ_of_le (rawString_length (Option.some.inj h))
    · cases h
  · exact Nat.le_succ_of_le (plainString_length (Option.some.inj h))
  · exact Nat.le_succ_of_le (plainString_length (Option.some.inj h))
  · split at h
    · next body hbody =>
      cases h
      exact Nat.le_succ_of_le (escapedBody?_length hbody)
    · cases h
  · next inner _ =>
    split at h
    · cases hbody : unicodeBody inner with
      | error halt =>
        rw [hbody] at h
        cases h
      | ok body =>
        rw [hbody] at h
        cases h
        exact Nat.le_trans (unicodeBody_length hbody) (by simp; omega)
    · cases h
  · cases h

theorem string?_shortens : Scanner.Shortens string? := by
  intro lexicon c cs token rest h
  unfold string? at h
  split at h
  · exact plainString_length (Option.some.inj h)
  · split at h
    · exact plainString_length (Option.some.inj h)
    · cases h

theorem quotedWord?_shortens : Scanner.Shortens quotedWord? := by
  intro lexicon c cs token rest h
  obtain ⟨quote, _, h⟩ := Option.map_eq_some_iff.1 h
  split at h
  · next body hbody =>
    cases h
    exact quotedBody?_length hbody
  · cases h

theorem number?_shortens : Scanner.Shortens number? := by
  intro lexicon c cs token rest h
  unfold number? at h
  split at h
  · next hc =>
    have hlen := @numberAt_length lexicon c cs (by simpa using hc)
    rw [Except.ok.inj (Option.some.inj h)] at hlen
    exact hlen
  · cases h

theorem comment?_shortens : Scanner.Shortens comment? := by
  intro lexicon c cs token rest h
  unfold comment? at h
  dsimp only at h
  split at h
  · cases h
    exact Nat.le_succ_of_le (lineBody_length _ _)
  · split at h
    · cases h
      exact lineBody_length _ _
    · cases h
  · split at h
    · next body hbody =>
      cases h
      exact Nat.le_succ_of_le (commentBody?_length hbody)
    · cases h
  · cases h

theorem operator?_shortens : Scanner.Shortens operator? := by
  intro lexicon c cs token rest h
  obtain ⟨out, hout, h⟩ := Option.map_eq_some_iff.1 h
  cases h
  exact Nat.le_of_lt_succ (operatorAt?_length hout)

theorem hash?_shortens : Scanner.Shortens hash? := by
  intro lexicon c cs token rest h
  unfold hash? at h
  split at h
  · split at h
    · cases h
      simp
    · split at h
      · cases h
        simp
      · split at h
        · cases h
          exact Nat.le_succ_of_le (length_dropWhile_le _ _)
        · rw [show rest = (token, rest).2 from rfl, ← Except.ok.inj (Option.some.inj h)]
          exact extend_length _ _ _
  · cases h

theorem at?_shortens : Scanner.Shortens at? := by
  intro lexicon c cs token rest h
  unfold at? at h
  split at h
  · split at h
    · cases h
      simp
    · cases h
      simp
    · split at h
      · cases h
        exact Nat.le_trans (length_dropWhile_le _ _) (by simp; omega)
      · cases h
        simp
    · split at h
      · cases h
        exact Nat.le_succ_of_le (length_dropWhile_le _ _)
      · cases h
        simp
  · cases h

theorem question?_shortens : Scanner.Shortens question? := by
  intro lexicon c cs token rest h
  unfold question? at h
  split at h
  · split at h
    · split at h <;> cases h <;> simp
    · cases h
      exact length_dropWhile_le _ _
  · cases h

theorem word?_shortens : Scanner.Shortens word? := by
  intro lexicon c cs token rest h
  unfold word? at h
  split at h
  · cases h
    exact length_dropWhile_le _ _
  · cases h

private theorem dollarPlaceholder_length {part : Char → Bool} {cs : List Char} {token : Token}
    {rest : List Char} (h : dollarPlaceholder part cs = .ok (token, rest)) :
    rest.length ≤ cs.length := by
  cases h
  exact length_dropWhile_le _ _

private theorem taggedString_length {cs : List Char} {token : Token} {rest : List Char}
    (h : taggedString cs = .ok (token, rest)) : rest.length ≤ cs.length := by
  unfold taggedString at h
  split at h
  · next hdrop =>
    have hlen := congrArg List.length hdrop
    have := length_dropWhile_le isTagPart cs
    have := fencedString_length h
    simp only [List.length_cons] at hlen
    omega
  · exact dollarPlaceholder_length h

theorem dollar?_shortens : Scanner.Shortens dollar? := by
  intro lexicon c cs token rest h
  unfold dollar? at h
  split at h
  · split at h
    · exact dollarPlaceholder_length (Option.some.inj h)
    · split at h
      · exact Nat.le_succ_of_le (fencedString_length (Option.some.inj h))
      · exact taggedString_length (Option.some.inj h)
  · cases h

private theorem scanners_shorten : ∀ scanner ∈ scanners, scanner.Shortens := by
  simp only [scanners, List.forall_mem_cons, List.not_mem_nil, false_implies, implies_true,
    and_true]
  exact ⟨blank?_shortens, letterString?_shortens, string?_shortens, quotedWord?_shortens,
    number?_shortens, comment?_shortens, operator?_shortens, hash?_shortens, at?_shortens,
    question?_shortens, word?_shortens, dollar?_shortens⟩

/-- A token takes at least one character off the input. -/
theorem scan_length {lexicon : Lexicon} {c : Char} {cs : List Char} {token : Token}
    {rest : List Char} (h : scan lexicon c cs = .ok (token, rest)) :
    rest.length ≤ cs.length := by
  unfold scan at h
  cases hfind : scanners.findSome? fun scanner ↦ scanner lexicon c cs with
  | none =>
    rw [hfind] at h
    cases h
    exact Nat.le_refl _
  | some outcome =>
    rw [hfind, Option.getD_some] at h
    subst h
    obtain ⟨scanner, hmem, hscan⟩ := List.exists_of_findSome?_eq_some hfind
    exact scanners_shorten scanner hmem _ _ _ _ _ hscan

end SqlFootprint.Lexer
