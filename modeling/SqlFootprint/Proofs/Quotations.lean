import SqlFootprint.Proofs.Bodies

/-!
# Strings and quoted words from their opening on

What opens a string or a quoted word decides how its body is read (`scans_opening_iff`,
`scans_quoted_iff`). So a string that is shown by its body as it was taken is read again as itself
exactly if the body has no mark and no further quote follows it (`scans_string`,
`read_of_scans_string`), and so is a quoted word (`Token.scans_of_isPlain`,
`Token.isPlain_of_scans`).
-/

namespace SqlFootprint

open Lexer

namespace Lexer

/-- A token stands at the front of the characters. -/
def Scans (lexicon : Lexicon) (cs : List Char) (token : Token) (rest : List Char) : Prop :=
  ∃ c more, cs = c :: more ∧ scan lexicon c more = .ok (token, rest)

/-- A token at the front of characters is what is scanned there. -/
theorem scans_cons_iff {lexicon : Lexicon} {c : Char} {cs : List Char} {token : Token}
    {rest : List Char} :
    Scans lexicon (c :: cs) token rest ↔ scan lexicon c cs = .ok (token, rest) := by
  constructor
  · rintro ⟨d, more, heq, h⟩
    cases heq
    exact h
  · exact fun h ↦ ⟨c, cs, rfl, h⟩

/-- Where one scanner answers and all before it do not, the scan gives its answer. -/
theorem scan_eq (before : List Scanner) {after : List Scanner} {lexicon : Lexicon} {c : Char}
    {cs : List Char} {scanner : Scanner} {outcome : Outcome}
    (hscanners : scanners = before ++ scanner :: after)
    (hbefore : ∀ other ∈ before, other lexicon c cs = none)
    (h : scanner lexicon c cs = some outcome) : scan lexicon c cs = outcome := by
  have hfind : scanners.findSome? (fun scanner ↦ scanner lexicon c cs) = some outcome :=
    List.findSome?_eq_some_iff.2 ⟨before, scanner, after, hscanners, h, hbefore⟩
  rw [scan, hfind, Option.getD_some]

/-- At a star, a question mark or the sign of an inequality, no scanner before that of the symbols
answers. -/
theorem eq_none_before_symbols {c : Char} (hc : c ∈ ['*', '<', '?']) (lexicon : Lexicon)
    (cs : List Char) :
    ∀ other ∈ [blank?, letterString?, string?, quotedWord?, number?, comment?],
      other lexicon c cs = none := by
  simp only [List.mem_cons, List.not_mem_nil, or_false] at hc
  have hquote : lexicon.quote? c = none := by
    refine List.find?_eq_none.2 fun quote _ ↦ ?_
    rcases hc with rfl | rfl | rfl <;> cases quote <;> decide
  rcases hc with rfl | rfl | rfl <;>
    simp [blank?, letterString?, string?, quotedWord?, number?, comment?, hquote]

end Lexer

/-! ### Forms of strings -/

namespace StringForm

/-- The one quote that closes a string of the form; some raw strings are closed by three. -/
def quote? : StringForm → Option Char
  | single | national | escaped | hexadecimal | unicode | bytesSingle | rawSingle => some '\''
  | double | bytesDouble | rawDouble => some '"'
  | rawTripleSingle | rawTripleDouble => none

/-- A backslash in a string of the form is no character of it. -/
def escapes (lexicon : Lexicon) : StringForm → Bool
  | single | double => lexicon.backslashEscapes
  | national | escaped | hexadecimal | unicode => true
  | _ => false

/-- The characters that a string of the form is not shown with as they were read. -/
def isMark (lexicon : Lexicon) (form : StringForm) (c : Char) : Bool :=
  match form.quote? with
  | some quote => Lexer.isMark quote (form.escapes lexicon) c
  | none => false

/-- The dialect has strings of the form. -/
def isKnown (lexicon : Lexicon) : StringForm → Bool
  | single | national | escaped | hexadecimal => true
  | double => lexicon.quote? '"' = none
  | unicode => lexicon.unicodeStrings
  | bytesSingle | bytesDouble => lexicon.byteStrings
  | rawSingle | rawDouble | rawTripleSingle | rawTripleDouble => lexicon.rawStrings

/-- How the body of a string is read. -/
def read (lexicon : Lexicon) : StringForm → List Char → Option Body
  | single => quotedBody? '\'' lexicon.backslashEscapes
  | double => quotedBody? '"' lexicon.backslashEscapes
  | national | hexadecimal => quotedBody? '\'' true
  | escaped => escapedBody?
  | unicode => fun cs ↦ (unicodeBody cs).toOption
  | bytesSingle | rawSingle => quotedBody? '\'' false
  | bytesDouble | rawDouble => quotedBody? '"' false
  | rawTripleSingle => fencedBody? ['\'', '\'', '\'']
  | rawTripleDouble => fencedBody? ['"', '"', '"']

/-- The raw forms that one quote closes. -/
def isRawOnce (form : StringForm) : Bool := form == rawSingle || form == rawDouble

/-- A string that one quote closes is read up to it. -/
theorem readsQuoted (lexicon : Lexicon) {form : StringForm} {quote : Char}
    (h : form.quote? = some quote) :
    ReadsQuoted (form.read lexicon) quote (form.isMark lexicon) := by
  cases form with
  | rawTripleSingle | rawTripleDouble => cases h
  | escaped =>
    cases h
    exact readsQuoted_escapedBody?
  | unicode =>
    cases h
    exact readsQuoted_unicodeBody
  | _ =>
    cases h
    exact readsQuoted_quotedBody? _ _

/-- The quote that closes a string is what is shown behind its body. -/
theorem closing_toList {form : StringForm} {quote : Char} (h : form.quote? = some quote) :
    form.closing.toList = [quote] := by
  cases form with
  | rawTripleSingle | rawTripleDouble => cases h
  | _ =>
    cases h
    rfl

end StringForm

namespace Lexer

variable {lexicon : Lexicon} {token : Token} {rest : List Char}

/-- What a token made of a body is read from, if there is a body. -/
theorem ok_found_iff (make : List Char → Token) {found : Option Body} {halt : Halt} :
    (match found with
      | some body => (.ok (make body.1, body.2) : Outcome)
      | none => .error halt) = .ok (token, rest) ↔
      ∃ body, found = some (body, rest) ∧ token = make body := by
  cases found with
  | none => simp
  | some body =>
    simp only [Except.ok.injEq, Prod.mk.injEq, Option.some.injEq]
    constructor
    · rintro ⟨rfl, rfl⟩
      exact ⟨body.1, rfl, rfl⟩
    · rintro ⟨inner, rfl, rfl⟩
      exact ⟨rfl, rfl⟩

/-- What a string is read from, if its body is found. -/
theorem ok_body_iff {form : StringForm} {found : Option Body} {halt : Halt} :
    (match found with
      | some body => (.ok (.string form (String.ofList body.1), body.2) : Outcome)
      | none => .error halt) = .ok (token, rest) ↔
      ∃ body, found = some (body, rest) ∧ token = .string form (String.ofList body) :=
  ok_found_iff fun body ↦ .string form (String.ofList body)

/-- A raw string that does not open with three quotes is read as a plain one. -/
theorem rawString_eq_ok_iff {once thrice : StringForm} {quote : Char} {inner : List Char}
    (h : ¬ [quote, quote] <+: inner) : rawString once thrice quote inner = .ok (token, rest) ↔
      ∃ body, quotedBody? quote false inner = some (body, rest) ∧
        token = .string once (String.ofList body) := by
  have hthrice : ¬ [quote, quote].isPrefixOf inner = true := by rwa [List.isPrefixOf_iff_prefix]
  unfold rawString
  rw [if_neg hthrice]
  split
  · next honce =>
    obtain ⟨more, rfl⟩ := List.isPrefixOf_iff_prefix.1 honce
    have hstop : more.head? ≠ some quote := by
      intro hhead
      obtain ⟨after, rfl⟩ := List.head?_eq_some_iff.1 hhead
      exact h (List.prefix_append [quote, quote] after)
    have hread := @ReadsQuoted.plain _ _ _ (readsQuoted_quotedBody? quote false) [] more rfl hstop
    rw [List.nil_append] at hread
    rw [List.singleton_append, hread]
    simp only [Except.ok.injEq, Prod.mk.injEq, Option.some.injEq]
    constructor
    · rintro ⟨rfl, rfl⟩
      exact ⟨[], ⟨rfl, rfl⟩, rfl⟩
    · rintro ⟨body, ⟨rfl, rfl⟩, rfl⟩
      exact ⟨rfl, rfl⟩
  · exact ok_body_iff

/-- What opens a string decides how its body is read. -/
theorem scans_opening_iff {form : StringForm} (hknown : form.isKnown lexicon = true)
    {inner : List Char} (hraw : form.isRawOnce = true → ∀ quote, form.quote? = some quote →
      ¬ [quote, quote] <+: inner) :
    Scans lexicon (form.opening.toList ++ inner) token rest ↔
      ∃ body, form.read lexicon inner = some (body, rest) ∧
        token = .string form (String.ofList body) := by
  have hscan {c : Char} {cs : List Char} {outcome : Outcome} (h : scan lexicon c cs = outcome) :
      Scans lexicon (c :: cs) token rest ↔ outcome = .ok (token, rest) := by
    rw [scans_cons_iff, h]
  have hletter {c : Char} {cs : List Char} {outcome : Outcome} (hblank : blank? lexicon c cs = none)
      (h : letterString? lexicon c cs = some outcome) :
      Scans lexicon (c :: cs) token rest ↔ outcome = .ok (token, rest) :=
    hscan (scan_eq [blank?] rfl (by simpa using hblank) h)
  cases form with
  | single | national | hexadecimal => exact scans_cons_iff.trans ok_body_iff
  | double =>
    have hquote : lexicon.quote? '"' = none := of_decide_eq_true hknown
    have hstring : string? lexicon '"' inner =
        some (plainString .double '"' lexicon.backslashEscapes inner) := by simp [string?, hquote]
    have hbefore : ∀ other ∈ [blank?, letterString?], other lexicon '"' inner = none := by
      simp [blank?, letterString?]
    exact (hscan (scan_eq _ rfl hbefore hstring)).trans ok_body_iff
  | escaped =>
    have hstring : letterString? lexicon 'E' ('\'' :: inner) =
        some (match escapedBody? inner with
          | some body => (.ok (.string .escaped (String.ofList body.1), body.2) : Outcome)
          | none => .error ⟨.unterminatedEscapedString, 'E' :: '\'' :: inner⟩) := by
      show (match escapedBody? inner with
        | some body => some (.ok (.string .escaped (String.ofList body.1), body.2) : Outcome)
        | none => some (.error ⟨.unterminatedEscapedString, 'E' :: '\'' :: inner⟩)) = _
      cases escapedBody? inner with
      | none => rfl
      | some body => rfl
    exact (hletter rfl hstring).trans ok_body_iff
  | unicode =>
    have hflag : lexicon.unicodeStrings = true := hknown
    have hstring : letterString? lexicon 'U' ('&' :: '\'' :: inner) =
        some ((unicodeBody inner).map fun body ↦
          (.string .unicode (String.ofList body.1), body.2)) := by
      show (if lexicon.unicodeStrings then _ else none) = _
      rw [if_pos hflag]
    refine (hletter rfl hstring).trans ?_
    show _ ↔ ∃ body, (unicodeBody inner).toOption = some (body, rest) ∧ _
    cases hbody : unicodeBody inner with
    | error halt => exact ⟨nofun, by rintro ⟨body, hnone, -⟩; cases hnone⟩
    | ok body =>
      exact @ok_body_iff _ _ .unicode (some body) ⟨.unterminatedUnicodeString, []⟩
  | bytesSingle | bytesDouble =>
    have hflag : lexicon.byteStrings = true := hknown
    exact (hletter rfl (by simp [letterString?, hflag]; rfl)).trans ok_body_iff
  | rawSingle | rawDouble =>
    have hflag : lexicon.rawStrings = true := hknown
    exact (hletter rfl (by simp [letterString?, hflag]; rfl)).trans
      (rawString_eq_ok_iff (hraw rfl _ rfl))
  | rawTripleSingle | rawTripleDouble =>
    have hflag : lexicon.rawStrings = true := hknown
    exact (hletter rfl (by simp [letterString?, hflag]; rfl)).trans ok_body_iff

end Lexer

/-! ### Tokens with a body -/

/-- A string of the form can have the body: the dialect has such strings, a raw string that one
quote closes does not start with it, and what three quotes close has no three quotes in it. -/
structure StringForm.HasBody (lexicon : Lexicon) (form : StringForm) (body : List Char) : Prop where
  known : form.isKnown lexicon = true
  raw : form.isRawOnce = true → body.head? ≠ form.quote?
  fenced : form.quote? = none → ∀ rest,
    form.read lexicon (body ++ form.closing.toList ++ rest) = some (body, rest)

/-- A string that one quote closes can have any body, if it is not raw. -/
theorem StringForm.HasBody.of_quote {lexicon : Lexicon} {form : StringForm} {quote : Char}
    (hknown : form.isKnown lexicon = true) (hquote : form.quote? = some quote)
    (hraw : form.isRawOnce = false) {body : List Char} : form.HasBody lexicon body where
  known := hknown
  raw h := by
    rw [hraw] at h
    cases h
  fenced h := by
    rw [hquote] at h
    cases h

namespace Lexer

variable {lexicon : Lexicon} {rest : List Char}

/-- How a string is shown. -/
theorem toList_render_string (form : StringForm) (body : List Char) :
    (Token.string form (String.ofList body)).render.toList =
      form.opening.toList ++ (body ++ form.closing.toList) := by
  rw [Token.render, String.toList_append, String.toList_append, String.toList_ofList,
    List.append_assoc]

/-- A raw string that opens with three quotes has no body, and a further quote follows it. -/
theorem eq_nil_of_opens_twice {quote : Char} {body : List Char} (hraw : body.head? ≠ some quote)
    (h : [quote, quote] <+: body ++ [quote] ++ rest) :
    body = [] ∧ ∃ more, rest = quote :: more := by
  obtain ⟨after, hafter⟩ := h
  cases body with
  | nil =>
    obtain ⟨-, hrest⟩ := List.cons_eq_cons.1 hafter
    exact ⟨rfl, after, hrest.symm⟩
  | cons c body =>
    obtain ⟨rfl, -⟩ := List.cons_eq_cons.1 hafter
    exact absurd rfl hraw

/-- A string is read again as it is shown if its body is. -/
theorem scans_string {form : StringForm} {body : List Char} (h : form.HasBody lexicon body)
    (hread : form.read lexicon (body ++ form.closing.toList ++ rest) = some (body, rest)) :
    Scans lexicon ((Token.string form (String.ofList body)).render.toList ++ rest)
      (.string form (String.ofList body)) rest := by
  rw [toList_render_string, List.append_assoc]
  refine (scans_opening_iff h.known ?_).2 ⟨body, hread, rfl⟩
  intro hraw quote hquote hopens
  rw [form.closing_toList hquote] at hread hopens
  obtain ⟨rfl, more, rfl⟩ := eq_nil_of_opens_twice (hquote ▸ h.raw hraw) hopens
  exact (form.readsQuoted lexicon hquote).stops hread rfl

/-- Where a token shown as a string is scanned, the body of the string is read. -/
theorem read_of_scans_string {form : StringForm} {body : List Char}
    (h : form.HasBody lexicon body) {token : Token}
    (hscan : Scans lexicon ((Token.string form (String.ofList body)).render.toList ++ rest) token
      rest) (hrender : token.render = (Token.string form (String.ofList body)).render) :
    form.read lexicon (body ++ form.closing.toList ++ rest) = some (body, rest) := by
  rw [toList_render_string, List.append_assoc] at hscan
  have hshown (other : StringForm) (inner : List Char)
      (heq : token = .string other (String.ofList inner)) :
      other.opening.toList ++ (inner ++ other.closing.toList) =
        form.opening.toList ++ (body ++ form.closing.toList) := by
    rw [← toList_render_string, ← heq, hrender, toList_render_string]
  by_cases hopens : form.isRawOnce = true → ∀ quote, form.quote? = some quote →
      ¬ [quote, quote] <+: body ++ form.closing.toList ++ rest
  · obtain ⟨inner, hread, htoken⟩ := (scans_opening_iff h.known hopens).1 hscan
    obtain rfl : inner = body :=
      List.append_cancel_right (List.append_cancel_left (hshown form inner htoken))
    exact hread
  · -- The quotes of an empty raw string and the one behind it would open a longer string.
    simp only [Classical.not_imp, Classical.not_forall, Classical.not_not] at hopens
    obtain ⟨hraw, quote, hquote, hopens⟩ := hopens
    rw [form.closing_toList hquote] at hopens
    obtain ⟨rfl, more, rfl⟩ := eq_nil_of_opens_twice (hquote ▸ h.raw hraw) hopens
    have hthrice (thrice : StringForm) (hknown : thrice.isKnown lexicon = true)
        (honce : thrice.isRawOnce = false)
        (hopening : thrice.opening.toList = form.opening.toList ++ [quote, quote])
        (hclosing : thrice.closing.toList = [quote, quote, quote]) : False := by
      have hinput : form.opening.toList ++ ([] ++ form.closing.toList ++ quote :: more) =
          thrice.opening.toList ++ more := by
        rw [hopening, form.closing_toList hquote]
        simp
      rw [hinput, scans_opening_iff hknown fun hraw ↦ by rw [honce] at hraw; cases hraw] at hscan
      obtain ⟨inner, -, htoken⟩ := hscan
      have hlength := congrArg List.length (hshown thrice inner htoken)
      rw [hopening, hclosing, form.closing_toList hquote] at hlength
      simp only [List.length_append, List.length_cons, List.length_nil] at hlength
      omega
    cases form with
    | rawSingle =>
      cases hquote
      exact (hthrice .rawTripleSingle h.known rfl rfl rfl).elim
    | rawDouble =>
      cases hquote
      exact (hthrice .rawTripleDouble h.known rfl rfl rfl).elim
    | _ => cases hraw

/-- What the opening of a quoted word is read as. -/
theorem scans_quoted_iff {quote : Quote} (hquote : lexicon.quote? quote.opening = some quote)
    {inner : List Char} {token : Token} :
    Scans lexicon (quote.opening :: inner) token rest ↔
      ∃ body, quotedBody? quote.closing false inner = some (body, rest) ∧
        token = .word ⟨String.ofList body, some quote⟩ := by
  have hword : quotedWord? lexicon quote.opening inner =
      some (match quotedBody? quote.closing false inner with
        | some body => .ok (.word ⟨String.ofList body.1, some quote⟩, body.2)
        | none => .error ⟨.unclosedWord quote.closing, quote.opening :: inner⟩) := by
    rw [quotedWord?, hquote]
    rfl
  have hbefore : ∀ other ∈ [blank?, letterString?, string?],
      other lexicon quote.opening inner = none := by
    cases quote with
    | double =>
      have hnone : ¬ (lexicon.quote? '"' = none) := by
        rw [show lexicon.quote? '"' = some .double from hquote]
        exact nofun
      simp [blank?, letterString?, string?, Quote.opening, hnone]
    | backtick => simp [blank?, letterString?, string?, Quote.opening]
    | bracket => simp [blank?, letterString?, string?, Quote.opening]
  rw [scans_cons_iff, scan_eq _ rfl hbefore hword]
  exact ok_found_iff fun body ↦ .word ⟨String.ofList body, some quote⟩

/-- How a quoted word is shown. -/
theorem toList_render_quoted (quote : Quote) (body : List Char) :
    (Token.word ⟨String.ofList body, some quote⟩).render.toList =
      quote.opening :: (body ++ [quote.closing]) := by
  simp [Token.render, Word.render]

private theorem scans_quoted {quote : Quote} (hquote : lexicon.quote? quote.opening = some quote)
    {body : List Char}
    (hread : quotedBody? quote.closing false (body ++ quote.closing :: rest) = some (body, rest)) :
    Scans lexicon ((Token.word ⟨String.ofList body, some quote⟩).render.toList ++ rest)
      (.word ⟨String.ofList body, some quote⟩) rest := by
  rw [toList_render_quoted, List.cons_append, List.append_assoc]
  exact (scans_quoted_iff hquote).2 ⟨body, hread, rfl⟩

private theorem read_of_scans_quoted {quote : Quote}
    (hquote : lexicon.quote? quote.opening = some quote)
    {body : List Char} {token : Token}
    (hscan : Scans lexicon ((Token.word ⟨String.ofList body, some quote⟩).render.toList ++ rest)
      token rest)
    (hrender : token.render = (Token.word ⟨String.ofList body, some quote⟩).render) :
    quotedBody? quote.closing false (body ++ quote.closing :: rest) = some (body, rest) := by
  rw [toList_render_quoted, List.cons_append, List.append_assoc] at hscan
  obtain ⟨inner, hread, rfl⟩ := (scans_quoted_iff hquote).1 hscan
  have hshown := congrArg String.toList hrender
  rw [toList_render_quoted, toList_render_quoted] at hshown
  obtain rfl : inner = body := List.append_cancel_right (List.cons_eq_cons.1 hshown).2
  exact hread

end Lexer

namespace Token

/-- The token is read from a text without quotes around it. -/
def isBare : Token → Bool
  | string _ _ | word ⟨_, some _⟩ | endOfInput => false
  | _ => true

/-- The token is shown between its quotes as it was read. -/
def isPlain (lexicon : Lexicon) : Token → Bool
  | string form body => !body.toList.any (form.isMark lexicon)
  | word ⟨value, some quote⟩ => !value.toList.any (Lexer.isMark quote.closing false)
  | _ => true

/-- The quote that right behind the token would be taken for a part of it. -/
def quote? : Token → Option Char
  | string form _ => form.quote?
  | word ⟨_, some quote⟩ => some quote.closing
  | _ => none

/-- The token can be read from a text: the dialect has its quotes, and its body can stand between
them. -/
def Legible (lexicon : Lexicon) : Token → Prop
  | string form body => form.HasBody lexicon body.toList
  | word ⟨_, some quote⟩ => lexicon.quote? quote.opening = some quote
  | endOfInput => False
  | _ => True

variable {lexicon : Lexicon} {token : Token} {rest : List Char}

/-- A token without quotes is plain, and no quote behind it is taken for a part of it. -/
theorem plain_of_isBare (h : token.isBare = true) :
    token.isPlain lexicon = true ∧ token.quote? = none ∧ token.Legible lexicon := by
  cases token with
  | string form body => cases h
  | word word =>
    obtain ⟨value, quote⟩ := word
    cases quote with
    | some quote => cases h
    | none => exact ⟨rfl, rfl, trivial⟩
  | endOfInput => cases h
  | _ => exact ⟨rfl, rfl, trivial⟩

/-- A plain token with quotes is read again as it is shown, if no further quote follows. -/
theorem scans_of_isPlain (hquoted : token.isBare = false) (h : token.Legible lexicon)
    (hplain : token.isPlain lexicon = true)
    (hstop : ∀ quote, token.quote? = some quote → rest.head? ≠ some quote) :
    Scans lexicon (token.render.toList ++ rest) token rest := by
  cases token with
  | string form body =>
    have hscans := @scans_string lexicon rest form body.toList h
    rw [String.ofList_toList] at hscans
    refine hscans ?_
    cases hquote : form.quote? with
    | none => exact h.fenced hquote rest
    | some quote =>
      rw [form.closing_toList hquote, List.append_assoc]
      refine ((form.readsQuoted lexicon hquote).reread_iff).2 ⟨?_, hstop quote hquote⟩
      simpa [isPlain] using hplain
  | word word =>
    obtain ⟨value, quote⟩ := word
    cases quote with
    | none => cases hquoted
    | some quote =>
      have hscans := @scans_quoted lexicon rest quote h value.toList
      rw [String.ofList_toList] at hscans
      refine hscans (((readsQuoted_quotedBody? quote.closing false).reread_iff).2 ⟨?_, ?_⟩)
      · simpa [isPlain] using hplain
      · exact hstop _ rfl
  | endOfInput => exact h.elim
  | _ => cases hquoted

/-- A token that is scanned where it is shown is plain, and no further quote follows. -/
theorem isPlain_of_scans (h : token.Legible lexicon) {other : Token}
    (hscan : Scans lexicon (token.render.toList ++ rest) other rest)
    (hrender : other.render = token.render) :
    token.isPlain lexicon = true ∧
      ∀ quote, token.quote? = some quote → rest.head? ≠ some quote := by
  cases token with
  | string form body =>
    rw [← @String.ofList_toList body] at hscan hrender
    have hread := read_of_scans_string h hscan hrender
    cases hquote : form.quote? with
    | none => exact ⟨by simp [isPlain, StringForm.isMark, hquote], by simp [quote?, hquote]⟩
    | some quote =>
      rw [form.closing_toList hquote, List.append_assoc] at hread
      obtain ⟨hplain, hstop⟩ := ((form.readsQuoted lexicon hquote).reread_iff).1 hread
      refine ⟨by simpa [isPlain] using hplain, fun other hother ↦ ?_⟩
      obtain rfl : quote = other := Option.some.inj (hquote.symm.trans hother)
      exact hstop
  | word word =>
    obtain ⟨value, quote⟩ := word
    cases quote with
    | none => exact ⟨rfl, nofun⟩
    | some quote =>
      rw [← @String.ofList_toList value] at hscan hrender
      have hread := read_of_scans_quoted h hscan hrender
      obtain ⟨hplain, hstop⟩ :=
        ((readsQuoted_quotedBody? quote.closing false).reread_iff).1 hread
      refine ⟨by simpa [isPlain] using hplain, fun other hother ↦ ?_⟩
      cases hother
      exact hstop
  | _ => exact ⟨rfl, nofun⟩

end Token

end SqlFootprint
