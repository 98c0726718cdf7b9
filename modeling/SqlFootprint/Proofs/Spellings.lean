import SqlFootprint.Proofs.Likeness
import SqlFootprint.Proofs.Quotations

/-!
# What a token takes off the input

A token is shown by a text that starts much as what it was read from and is no longer, but for
hexadecimal digits, which get quotes (`Spelled`). `scan_spelled` says so of every token. Most
scanners take their tokens off the input as they are shown (`Scanner.Verbatim`).
-/

namespace SqlFootprint

open Lexer

/-! ### What tokens are written with -/

namespace Lexer

/-- How the characters that a token takes off the input relate to those that show it. -/
structure Spelled (lexicon : Lexicon) (written : List Char) (token : Token) : Prop where
  alike : ∀ {rest shown}, ShownLike rest shown →
    ShownLike (written ++ rest) (token.render.toList ++ shown)
  length : token.render.toList.length ≤ written.length ∨
    ∃ digits body, written = '0' :: digits ∧ token.render.toList = 'X' :: '\'' :: body ∧
      body.length = digits.length
  legible : token.Legible lexicon

/-- A token with quotes is spelled by the front of the characters. -/
def SpelledQuoted (lexicon : Lexicon) (cs : List Char) (token : Token) (rest : List Char) : Prop :=
  token.isBare = false ∧ ∃ written, cs = written ++ rest ∧ Spelled lexicon written token

namespace Spelled

variable {lexicon : Lexicon}

/-- A token without quotes that is shown as it was written. -/
theorem verbatim {written : List Char} {token : Token} (h : token.render.toList = written)
    (hbare : token.isBare = true) : Spelled lexicon written token where
  alike halike := by
    rw [h]
    exact halike.append _
  length := .inl (Nat.le_of_eq (congrArg List.length h))
  legible := (Token.plain_of_isBare hbare).2.2

/-- A token that is shown otherwise, but by no more characters. -/
theorem other {c d : Char} (opening : List Char) {cs shown : List Char} {token : Token}
    (h : token.render.toList = d :: opening ++ shown) (hopens : Opens c d opening)
    (hlength : shown.length ≤ cs.length) (hlegible : token.Legible lexicon) :
    Spelled lexicon (c :: opening ++ cs) token where
  alike _ := by
    rw [h, List.append_assoc, List.append_assoc]
    exact .of_opens hopens _ _
  length := by
    rw [h, List.length_append, List.length_append]
    exact .inl (Nat.add_le_add_left hlength _)
  legible := hlegible

/-- A token with a body that was read up to its closing quote. -/
theorem quoted (opening : List Char) {read : List Char → Option Body} {quote : Char}
    {marked : Char → Bool} (hreads : ReadsQuoted read quote marked) {inner body rest : List Char}
    (hbody : read inner = some (body, rest)) {token : Token} {c d : Char}
    (hrender : token.render.toList = d :: opening ++ (body ++ [quote]))
    (hopens : Opens c d opening) (hlegible : token.Legible lexicon) (hbare : token.isBare = false) :
    SpelledQuoted lexicon (c :: opening ++ inner) token rest := by
  obtain ⟨taken, rfl, hle, -⟩ := hreads.takes hbody
  refine ⟨hbare, c :: opening ++ taken, (List.append_assoc _ _ _).symm, ?_⟩
  refine .other opening hrender hopens ?_ hlegible
  rw [List.length_append]
  exact hle

/-- A string with a body that was read up to its closing quote. -/
theorem string (form : StringForm) (opening : List Char) {quote : Char}
    (hquote : form.quote? = some quote) {inner body rest : List Char}
    (hbody : form.read lexicon inner = some (body, rest)) (hhas : form.HasBody lexicon body)
    {c d : Char} (hform : form.opening.toList = d :: opening) (hopens : Opens c d opening) :
    SpelledQuoted lexicon (c :: opening ++ inner) (.string form (String.ofList body)) rest := by
  refine quoted opening (form.readsQuoted lexicon hquote) hbody ?_ hopens ?_ rfl
  · rw [toList_render_string, hform, form.closing_toList hquote]
  · rw [Token.Legible, String.toList_ofList]
    exact hhas

end Spelled

/-- A scanner gives tokens that are spelled by what it takes off the input. -/
def Scanner.Spells (scanner : Scanner) : Prop :=
  ∀ {lexicon c cs token rest}, scanner lexicon c cs = some (.ok (token, rest)) →
    ∃ written, c :: cs = written ++ rest ∧ Spelled lexicon written token

/-- A scanner takes tokens off the input as they are shown, none of them with quotes. -/
def Scanner.Verbatim (scanner : Scanner) : Prop :=
  ∀ {lexicon c cs token rest}, scanner lexicon c cs = some (.ok (token, rest)) →
    c :: cs = token.render.toList ++ rest ∧ token.isBare = true

private theorem Scanner.Verbatim.spells {scanner : Scanner} (h : scanner.Verbatim) :
    scanner.Spells := by
  intro lexicon c cs token rest hscan
  obtain ⟨hwritten, hbare⟩ := h hscan
  exact ⟨token.render.toList, hwritten, .verbatim rfl hbare⟩

/-- A scanner gives tokens with quotes only. -/
def Scanner.Quotes (scanner : Scanner) : Prop :=
  ∀ {lexicon c cs token rest}, scanner lexicon c cs = some (.ok (token, rest)) →
    SpelledQuoted lexicon (c :: cs) token rest

private theorem Scanner.Quotes.spells {scanner : Scanner} (h : scanner.Quotes) : scanner.Spells :=
  fun hscan ↦ (h hscan).2

/-! ### Blanks and strings -/

private theorem blank?_spells : Scanner.Spells blank? := by
  intro lexicon c cs token rest h
  unfold blank? at h
  split at h
  · cases h
    exact ⟨[' '], rfl, .verbatim rfl rfl⟩
  · cases h
    exact ⟨['\t'], rfl, .verbatim rfl rfl⟩
  · cases h
    exact ⟨['\n'], rfl, .verbatim rfl rfl⟩
  · cases h
    exact ⟨['\r', '\n'], rfl, .other [] rfl ⟨.carriageReturn, by decide, by decide⟩
      (Nat.zero_le _) trivial⟩
  · cases h
    exact ⟨['\r'], rfl, .other [] rfl ⟨.carriageReturn, by decide, by decide⟩ (Nat.le_refl _)
      trivial⟩
  · cases h

/-- A plain string is spelled by its opening and its body. -/
theorem plainString_spelled (opening : List Char) {lexicon : Lexicon} {form : StringForm}
    {quote : Char} {escapes : Bool} {inner : List Char} {token : Token} {rest : List Char}
    (h : plainString form quote escapes inner = .ok (token, rest))
    (hknown : form.isKnown lexicon = true) (hread : form.read lexicon = quotedBody? quote escapes)
    (hquote : form.quote? = some quote) (hraw : form.isRawOnce = false) {c d : Char}
    (hform : form.opening.toList = d :: opening) (hopens : Opens c d opening) :
    SpelledQuoted lexicon (c :: opening ++ inner) token rest := by
  obtain ⟨body, hbody, rfl⟩ := ok_body_iff.1 h
  rw [← hread] at hbody
  exact Spelled.string form opening hquote hbody (.of_quote hknown hquote hraw) hform hopens

private theorem rawString_eq_ok {once thrice : StringForm} {quote : Char} {cs : List Char}
    {token : Token}
    {rest : List Char} (h : rawString once thrice quote cs = .ok (token, rest)) :
    (∃ body, cs = [quote, quote] ++ (body ++ [quote, quote, quote] ++ rest) ∧
      token = .string thrice (String.ofList body) ∧
      ∀ after, fencedBody? [quote, quote, quote] (body ++ [quote, quote, quote] ++ after) =
        some (body, after)) ∨
      ∃ body, quotedBody? quote false cs = some (body, rest) ∧
        token = .string once (String.ofList body) ∧ body.head? ≠ some quote := by
  by_cases hopens : [quote, quote] <+: cs
  · left
    obtain ⟨inner, rfl⟩ := hopens
    have hthrice : [quote, quote].isPrefixOf ([quote, quote] ++ inner) = true :=
      List.isPrefixOf_iff_prefix.2 (List.prefix_append _ _)
    unfold rawString at h
    rw [if_pos hthrice] at h
    obtain ⟨body, hbody, rfl⟩ := ok_body_iff.1 h
    obtain ⟨hinner, hagain⟩ := fencedBody?_eq_some (by simp) hbody
    exact ⟨body, congrArg _ hinner, rfl, hagain⟩
  · right
    obtain ⟨body, hbody, rfl⟩ := (rawString_eq_ok_iff hopens).1 h
    refine ⟨body, hbody, rfl, fun hhead ↦ hopens ?_⟩
    obtain ⟨inner, rfl⟩ := List.head?_eq_some_iff.1 hhead
    exact prefix_of_quotedBody?_cons hbody

private theorem thrice_spelled {lexicon : Lexicon} (form : StringForm) {quote : Char}
    {body : List Char} (hhas : form.HasBody lexicon body)
    (hopening : form.opening.toList = ['R', quote, quote, quote])
    (hclosing : form.closing.toList = [quote, quote, quote]) {c : Char}
    (hopens : Opens c 'R' [quote]) (rest : List Char) :
    SpelledQuoted lexicon
      (c :: quote :: ([quote, quote] ++ (body ++ [quote, quote, quote] ++ rest)))
      (.string form (String.ofList body)) rest := by
  refine ⟨rfl, c :: [quote] ++ ([quote, quote] ++ (body ++ [quote, quote, quote])), by simp, ?_⟩
  refine .other [quote] ?_ hopens (Nat.le_refl _) ?_
  · rw [toList_render_string, hopening, hclosing]
    rfl
  · rw [Token.Legible, String.toList_ofList]
    exact hhas

theorem letterString?_quotes : Scanner.Quotes letterString? := by
  intro lexicon c cs token rest h
  unfold letterString? at h
  split at h
  · next hletter =>
    split at h
    · next hflag =>
      exact plainString_spelled ['\''] (Option.some.inj h) hflag rfl rfl rfl rfl
        ⟨.of_toLower hletter (by decide), fun _ ↦ by decide, by decide⟩
    · cases h
  · next hletter =>
    split at h
    · next hflag =>
      exact plainString_spelled ['"'] (Option.some.inj h) hflag rfl rfl rfl rfl
        ⟨.of_toLower hletter (by decide), fun _ ↦ by decide, by decide⟩
    · cases h
  · next hletter =>
    split at h
    · next hflag =>
      have hopens : Opens c 'R' ['\''] :=
        ⟨.of_toLower hletter (by decide), fun _ ↦ by decide, by decide⟩
      rcases rawString_eq_ok (Option.some.inj h) with
        ⟨body, rfl, rfl, hagain⟩ | ⟨body, hbody, rfl, hraw⟩
      · exact thrice_spelled .rawTripleSingle ⟨hflag, nofun, fun _ ↦ hagain⟩ rfl rfl hopens rest
      · exact Spelled.string .rawSingle ['\''] rfl hbody ⟨hflag, fun _ ↦ hraw, nofun⟩ rfl hopens
    · cases h
  · next hletter =>
    split at h
    · next hflag =>
      have hopens : Opens c 'R' ['"'] :=
        ⟨.of_toLower hletter (by decide), fun _ ↦ by decide, by decide⟩
      rcases rawString_eq_ok (Option.some.inj h) with
        ⟨body, rfl, rfl, hagain⟩ | ⟨body, hbody, rfl, hraw⟩
      · exact thrice_spelled .rawTripleDouble ⟨hflag, nofun, fun _ ↦ hagain⟩ rfl rfl hopens rest
      · exact Spelled.string .rawDouble ['"'] rfl hbody ⟨hflag, fun _ ↦ hraw, nofun⟩ rfl hopens
    · cases h
  · next hletter =>
    exact plainString_spelled ['\''] (Option.some.inj h) rfl rfl rfl rfl rfl
      ⟨.of_toLower hletter (by decide), fun _ ↦ by decide, by decide⟩
  · next hletter =>
    exact plainString_spelled ['\''] (Option.some.inj h) rfl rfl rfl rfl rfl
      ⟨.of_toLower hletter (by decide), fun _ ↦ by decide, by decide⟩
  · next hletter =>
    split at h
    · next body hbody =>
      cases h
      exact Spelled.string .escaped ['\''] rfl hbody (.of_quote rfl rfl rfl) rfl
        ⟨.of_toLower hletter (by decide), fun _ ↦ by decide, by decide⟩
    · cases h
  · next inner hletter =>
    split at h
    · next hflag =>
      cases hbody : unicodeBody inner with
      | error halt =>
        rw [hbody] at h
        cases h
      | ok body =>
        rw [hbody] at h
        cases h
        have hknown : StringForm.unicode.isKnown lexicon = true := hflag
        exact Spelled.string .unicode ['&', '\''] rfl (toOption_eq_some_iff.2 hbody)
          (.of_quote hknown rfl rfl) rfl
          ⟨.of_toLower hletter (by decide), fun _ ↦ by decide, by decide⟩
    · cases h
  · cases h

theorem string?_quotes : Scanner.Quotes string? := by
  intro lexicon c cs token rest h
  unfold string? at h
  split at h
  · next hc =>
    subst hc
    exact plainString_spelled [] (Option.some.inj h) rfl rfl rfl rfl rfl
      ⟨.same _, fun _ ↦ by decide, by decide⟩
  · split at h
    · next hc =>
      obtain ⟨rfl, hnone⟩ := hc
      exact plainString_spelled [] (Option.some.inj h) (decide_eq_true hnone) rfl rfl rfl rfl
        ⟨.same _, fun _ ↦ by decide, by decide⟩
    · cases h

theorem quotedWord?_quotes : Scanner.Quotes quotedWord? := by
  intro lexicon c cs token rest h
  obtain ⟨quote, hquote, h⟩ := Option.map_eq_some_iff.1 h
  split at h
  · next body hbody =>
    cases h
    obtain rfl : quote.opening = c := by simpa using List.find?_some hquote
    have hopens : Opens quote.opening quote.opening [] := by
      refine ⟨.same _, fun _ ↦ ?_, fun heq ↦ ?_⟩
      · cases quote <;> decide
      · cases quote <;> cases heq
    exact Spelled.quoted [] (readsQuoted_quotedBody? quote.closing false) hbody
      (toList_render_quoted quote body.1) hopens hquote rfl
  · cases h

/-! ### Numbers -/

/-- A beginning of the characters and what follows it. -/
theorem prefix_append_drop {front cs : List Char} (h : front <+: cs) :
    front ++ cs.drop front.length = cs := List.prefix_iff_eq_append.1 h

/-- An exponent is a beginning of the characters. -/
theorem prefix_exponentOf (cs : List Char) : exponentOf cs <+: cs := by
  have hmark : exponentMark cs <+: cs := by
    unfold exponentMark
    split
    · split
      · split
        · exact List.prefix_append [_, _] _
        · exact List.prefix_append [_] _
      · exact List.nil_prefix
    · split
      · exact List.prefix_rfl
      · exact List.nil_prefix
    · exact List.nil_prefix
  unfold exponentOf
  dsimp only
  split
  · exact List.nil_prefix
  · conv => rhs; rw [← prefix_append_drop hmark]
    exact (List.prefix_append_right_inj _).2 (List.takeWhile_prefix _)

private theorem prefix_mantissaOf (cs : List Char) : mantissaOf cs <+: cs := by
  have hwhole : digitsOf cs <+: cs := List.takeWhile_prefix _
  unfold mantissaOf
  dsimp only
  split
  · next rest hrest =>
    conv => rhs; rw [← prefix_append_drop hwhole, hrest]
    refine (List.prefix_append_right_inj _).2 ?_
    exact List.cons_prefix_cons.2 ⟨rfl, List.takeWhile_prefix _⟩
  · exact hwhole

private theorem numberAfter_written (mantissa rest : List Char) :
    mantissa ++ rest =
      (numberAfter mantissa rest).1.render.toList ++ (numberAfter mantissa rest).2 := by
  have hrest := prefix_append_drop (prefix_exponentOf rest)
  unfold numberAfter
  dsimp only
  conv => lhs; rw [← hrest]
  split
  · next after hafter =>
    simp [Token.render, hafter]
  · simp [Token.render]

private theorem numberOrWord_written (lexicon : Lexicon) (mantissa rest : List Char) :
    mantissa ++ rest = (numberOrWord lexicon mantissa rest).1.render.toList ++
      (numberOrWord lexicon mantissa rest).2 := by
  have htail := prefix_append_drop (List.takeWhile_prefix (l := rest) lexicon.continuesWord)
  unfold numberOrWord
  dsimp only
  split
  · simp only [Token.render, Word.render, String.toList_ofList, List.append_assoc, htail]
  · exact numberAfter_written mantissa rest

private theorem isBare_numberOrWord (lexicon : Lexicon) (mantissa rest : List Char) :
    (numberOrWord lexicon mantissa rest).1.isBare = true := by
  unfold numberOrWord numberAfter
  dsimp only
  split
  · rfl
  · split
    · rfl
    · rfl

/-- A number is hexadecimal digits, which are shown as a string, or is shown as it is written. -/
theorem number?_cases {lexicon : Lexicon} {c : Char} {cs : List Char} {token : Token}
    {rest : List Char} (h : number? lexicon c cs = some (.ok (token, rest))) :
    (∃ digits, c :: cs = '0' :: 'x' :: (digits ++ rest) ∧
      token = .string .hexadecimal (String.ofList digits)) ∨
      c :: cs = token.render.toList ++ rest ∧ token.isBare = true := by
  unfold number? at h
  split at h
  · have hat := Except.ok.inj (Option.some.inj h)
    unfold numberAt at hat
    split at hat
    · next digits heq =>
      left
      cases hat
      refine ⟨digits.takeWhile Text.isHexDigit, ?_, rfl⟩
      rw [heq, prefix_append_drop (List.takeWhile_prefix _)]
    · right
      dsimp only at hat
      split at hat
      · next hperiod =>
        cases hat
        have hfront := prefix_append_drop (prefix_mantissaOf (c :: cs))
        rw [hperiod] at hfront
        exact ⟨hfront.symm, rfl⟩
      · have hwritten := numberOrWord_written lexicon (mantissaOf (c :: cs))
          ((c :: cs).drop (mantissaOf (c :: cs)).length)
        have hbare := isBare_numberOrWord lexicon (mantissaOf (c :: cs))
          ((c :: cs).drop (mantissaOf (c :: cs)).length)
        rw [prefix_append_drop (prefix_mantissaOf _), hat] at hwritten
        rw [hat] at hbare
        exact ⟨hwritten, hbare⟩
  · cases h

private theorem number?_spells : Scanner.Spells number? := by
  intro lexicon c cs token rest h
  rcases number?_cases h with ⟨digits, hwritten, rfl⟩ | ⟨hwritten, hbare⟩
  · have hrender : (Token.string .hexadecimal (String.ofList digits)).render.toList =
        'X' :: '\'' :: (digits ++ ['\'']) := toList_render_string .hexadecimal digits
    refine ⟨'0' :: 'x' :: digits, hwritten, fun _ ↦ ?_, .inr ⟨_, _, rfl, hrender, ?_⟩,
      .of_quote rfl rfl rfl⟩
    · rw [hrender]
      exact .apart .zero (by decide) fun _ ↦ rfl
    · simp
  · exact ⟨token.render.toList, hwritten, .verbatim rfl hbare⟩

/-! ### Comments and symbols -/

theorem comment?_verbatim : Scanner.Verbatim comment? := by
  intro lexicon c cs token rest h
  have hline (opener : String) (inner : List Char) (endsLine : Char → Bool) :
      opener.toList ++ inner = (Token.blank (.lineComment opener
        (String.ofList (lineBody endsLine inner).1))).render.toList ++
          (lineBody endsLine inner).2 := by
    conv => lhs; rw [(lineBody_eq endsLine inner).1]
    simp [Token.render, Blank.render]
  unfold comment? at h
  dsimp only at h
  split at h
  · cases h
    exact ⟨hline "--" _ _, rfl⟩
  · split at h
    · cases h
      exact ⟨hline "#" _ _, rfl⟩
    · cases h
  · split at h
    · next body hbody =>
      cases h
      obtain ⟨rfl, -⟩ := commentBody?_eq_some hbody
      refine ⟨?_, rfl⟩
      simp [Token.render, Blank.render]
    · cases h
  · cases h

/-- A token of a symbol has no quotes. -/
theorem isBare_ofSymbolText (text : String) : (Token.ofSymbolText text).isBare = true := by
  unfold Token.ofSymbolText
  split
  · split
    · rfl
    · split
      · rfl
      · split
        · rfl
        · split
          · rfl
          · split
            · rfl
            · rfl
  · rfl

/-- A token of a symbol has no quotes, however far the symbol goes on. -/
theorem isBare_extend (lexicon : Lexicon) (operator : Operator) (rest : List Char) :
    (extend lexicon operator rest).1.isBare = true := isBare_ofSymbolText _

private theorem extend_written (lexicon : Lexicon) (operator : Operator) (rest : List Char) :
    operator.text.toList ++ rest = (extend lexicon operator rest).1.render.toList ++
        (extend lexicon operator rest).2 ∨
      extend lexicon operator rest = (.ofSymbolText operator.shown, rest) := by
  unfold extend
  dsimp only
  split
  · split
    · next htail =>
      right
      rw [htail]
      rfl
    · left
      have htail := prefix_append_drop (List.takeWhile_prefix (l := rest) isOperatorPart)
      simp only [Token.render_ofSymbolText, String.toList_append, String.toList_ofList,
        List.append_assoc, htail]
  · exact .inr rfl

private theorem shown_of_mem_symbols {lexicon : Lexicon} {operator : Operator}
    (h : operator ∈ symbols lexicon) :
    operator.shown = operator.text ∨ operator.text = "!=" ∧ operator.shown = "<>" := by
  have hall (lexicon : Lexicon) : ∀ operator ∈ symbols lexicon,
      operator.shown = operator.text ∨ operator.text = "!=" ∧ operator.shown = "<>" := by
    unfold symbols
    split
    · decide +kernel
    · decide +kernel
  exact hall lexicon operator h

/-- The symbol at the front of the characters, and what follows it. -/
theorem operator?_eq_some {lexicon : Lexicon} {c : Char} {cs : List Char} {token : Token}
    {rest : List Char} (h : operator? lexicon c cs = some (.ok (token, rest))) :
    ∃ operator more, (symbols lexicon).find? (fun operator ↦
        operator.text.toList.isPrefixOf (c :: cs)) = some operator ∧
      c :: cs = operator.text.toList ++ more ∧ extend lexicon operator more = (token, rest) := by
  obtain ⟨out, hout, hsame⟩ := Option.map_eq_some_iff.1 h
  cases hsame
  obtain ⟨operator, hfind, hextend⟩ := Option.map_eq_some_iff.1 hout
  have hfound := @List.find?_some Operator
    (fun operator ↦ operator.text.toList.isPrefixOf (c :: cs)) _ _ hfind
  have hcs := prefix_append_drop (List.isPrefixOf_iff_prefix.1 hfound)
  rw [String.length_toList] at hcs
  exact ⟨operator, _, hfind, hcs.symm, hextend⟩

/-- A symbol is `!=`, which is shown as `<>`, or is shown as it is written. -/
theorem operator?_cases {lexicon : Lexicon} {c : Char} {cs : List Char} {token : Token}
    {rest : List Char} (h : operator? lexicon c cs = some (.ok (token, rest))) :
    c :: cs = '!' :: '=' :: rest ∧ token = .ofSymbolText "<>" ∨
      c :: cs = token.render.toList ++ rest ∧ token.isBare = true := by
  obtain ⟨operator, more, hfind, hcs, hextend⟩ := operator?_eq_some h
  have hbare := isBare_extend lexicon operator more
  rw [hextend] at hbare
  rcases extend_written lexicon operator more with hwritten | hwritten
  · right
    rw [← hcs, hextend] at hwritten
    exact ⟨hwritten, hbare⟩
  · rw [hwritten] at hextend
    cases hextend
    rcases shown_of_mem_symbols (List.mem_of_find?_eq_some hfind) with hshown | ⟨htext, hshown⟩
    · right
      rw [Token.render_ofSymbolText, hshown]
      exact ⟨hcs, isBare_ofSymbolText _⟩
    · left
      rw [htext] at hcs
      exact ⟨hcs, by rw [hshown]⟩

private theorem operator?_spells : Scanner.Spells operator? := by
  intro lexicon c cs token rest h
  rcases operator?_cases h with ⟨hwritten, rfl⟩ | ⟨hwritten, hbare⟩
  · have hrender : (Token.ofSymbolText "<>").render.toList = ['<', '>'] := by
      rw [Token.render_ofSymbolText]
      rfl
    exact ⟨['!', '='], hwritten, .other [] hrender ⟨.bang, by decide, by decide⟩ (Nat.le_refl _)
      (Token.plain_of_isBare (isBare_ofSymbolText _)).2.2⟩
  · exact ⟨token.render.toList, hwritten, .verbatim rfl hbare⟩

/-! ### Words, placeholders and strings between fences -/

private theorem wordFrom_written (lexicon : Lexicon) (start cs : List Char) : start ++ cs =
    (wordFrom lexicon start cs).1.render.toList ++ (wordFrom lexicon start cs).2 := by
  simp [Token.render, Word.render, wordFrom]

theorem hash?_verbatim : Scanner.Verbatim hash? := by
  intro lexicon c cs token rest h
  unfold hash? at h
  split at h
  · next hc =>
    subst hc
    split at h
    · cases h
      exact ⟨rfl, rfl⟩
    · next d more =>
      split at h
      · cases h
        exact ⟨rfl, rfl⟩
      · split at h
        · cases h
          exact ⟨wordFrom_written lexicon ['#', d] more, rfl⟩
        · have hextend := Except.ok.inj (Option.some.inj h)
          have hbare := isBare_extend lexicon ⟨"#", "#", true⟩ (d :: more)
          rw [hextend] at hbare
          rcases extend_written lexicon ⟨"#", "#", true⟩ (d :: more) with hwritten | hwritten
          · rw [hextend] at hwritten
            exact ⟨hwritten, hbare⟩
          · rw [hwritten] at hextend
            cases hextend
            exact ⟨rfl, rfl⟩
  · cases h

theorem at?_verbatim : Scanner.Verbatim at? := by
  intro lexicon c cs token rest h
  unfold at? at h
  split at h
  · next hc =>
    subst hc
    split at h
    · cases h
      exact ⟨rfl, rfl⟩
    · cases h
      exact ⟨rfl, rfl⟩
    · next d more =>
      split at h
      · cases h
        exact ⟨wordFrom_written lexicon ['@', '@', d] more, rfl⟩
      · cases h
        exact ⟨rfl, rfl⟩
    · next d more _ _ =>
      split at h
      · cases h
        exact ⟨wordFrom_written lexicon ['@', d] more, rfl⟩
      · cases h
        exact ⟨rfl, rfl⟩
  · cases h

private theorem dollarPlaceholder_written {part : Char → Bool} {cs rest : List Char} {token : Token}
    (h : dollarPlaceholder part cs = .ok (token, rest)) :
    '$' :: cs = token.render.toList ++ rest ∧ token.isBare = true := by
  cases h
  exact ⟨by simp [Token.render], rfl⟩

private theorem fencedString_written {fault : Fault} {tag : Option String}
    {fence cs rest : List Char}
    {token : Token} (hfence : fence = '$' :: (tag.getD "").toList ++ ['$'])
    (h : fencedString fault tag fence cs = .ok (token, rest)) :
    fence ++ cs = token.render.toList ++ rest ∧ token.isBare = true := by
  unfold fencedString at h
  split at h
  · next body hbody =>
    cases h
    obtain ⟨rfl, -⟩ := fencedBody?_eq_some (by rw [hfence]; exact List.cons_ne_nil _ _) hbody
    refine ⟨?_, rfl⟩
    subst hfence
    simp [Token.render]
  · cases h

theorem dollar?_verbatim : Scanner.Verbatim dollar? := by
  intro lexicon c cs token rest h
  unfold dollar? at h
  split at h
  · next hc =>
    subst hc
    split at h
    · exact dollarPlaceholder_written (Option.some.inj h)
    · split at h
      · exact fencedString_written rfl (Option.some.inj h)
      · have htagged := Option.some.inj h
        unfold taggedString at htagged
        split at htagged
        · next inner hinner =>
          have hcs := List.takeWhile_append_dropWhile (p := isTagPart) (l := cs)
          obtain ⟨hwritten, hbare⟩ := fencedString_written (by simp) htagged
          refine ⟨?_, hbare⟩
          rw [← hwritten]
          conv => lhs; rw [← hcs, hinner]
          simp
        · exact dollarPlaceholder_written htagged
  · cases h

/-- A question mark takes the next character along, or is shown as it is written. -/
theorem question?_cases {lexicon : Lexicon} {c : Char} {cs : List Char} {token : Token}
    {rest : List Char} (h : question? lexicon c cs = some (.ok (token, rest))) :
    (c = '?' ∧ rest = cs.drop 1 ∧ token = .ofSymbolText "?" ∧ lexicon.questionOperators = true) ∨
      c :: cs = token.render.toList ++ rest ∧ token.isBare = true := by
  unfold question? at h
  split at h
  · next hc =>
    subst hc
    split at h
    · next hflag =>
      split at h
      · cases h
        exact .inr ⟨rfl, rfl⟩
      · cases h
        exact .inr ⟨rfl, rfl⟩
      · cases h
        exact .inl ⟨rfl, rfl, rfl, hflag⟩
    · cases h
      refine .inr ⟨?_, rfl⟩
      simp [Token.render]
  · cases h

private theorem question?_spells : Scanner.Spells question? := by
  intro lexicon c cs token rest h
  rcases question?_cases h with ⟨rfl, rfl, rfl, -⟩ | ⟨hwritten, hbare⟩
  · refine ⟨'?' :: cs.take 1, ?_, .other [] rfl ⟨.same _, by decide, by decide⟩ (Nat.zero_le _)
      trivial⟩
    rw [List.cons_append, List.take_append_drop]
  · exact ⟨token.render.toList, hwritten, .verbatim rfl hbare⟩

theorem word?_verbatim : Scanner.Verbatim word? := by
  intro lexicon c cs token rest h
  unfold word? at h
  split at h
  · cases h
    exact ⟨wordFrom_written lexicon [c] cs, rfl⟩
  · cases h

/-! ### All tokens -/

private theorem scanners_spell : ∀ scanner ∈ scanners, scanner.Spells := by
  simp only [scanners, List.forall_mem_cons, List.not_mem_nil, false_implies, implies_true,
    and_true]
  exact ⟨blank?_spells, letterString?_quotes.spells, string?_quotes.spells,
    quotedWord?_quotes.spells, number?_spells, comment?_verbatim.spells, operator?_spells,
    hash?_verbatim.spells, at?_verbatim.spells, question?_spells, word?_verbatim.spells,
    dollar?_verbatim.spells⟩

/-- A character of which no scanner knows anything is white space or a symbol. -/
theorem other_cases {lexicon : Lexicon} {c : Char} {cs : List Char}
    (h : blank? lexicon c cs = none) :
    (other c = .blank .space ∧ Text.isBlank c = true ∧ c ∉ [' ', '\t', '\n']) ∨
      other c = .ofSymbolText (String.singleton c) := by
  unfold other
  split
  · next hblank =>
    refine .inl ⟨rfl, hblank, fun hmem ↦ ?_⟩
    simp only [List.mem_cons, List.not_mem_nil, or_false] at hmem
    rcases hmem with rfl | rfl | rfl
    · cases h
    · cases h
    · cases h
  · exact .inr rfl

private theorem other_spelled {lexicon : Lexicon} {c : Char} {cs : List Char}
    (h : blank? lexicon c cs = none) : Spelled lexicon [c] (other c) := by
  rcases other_cases h with ⟨heq, hblank, hother⟩ | heq
  · rw [heq]
    refine .other [] rfl ⟨.blank hblank hother, fun hspace ↦ ?_, by decide⟩ (Nat.le_refl _) trivial
    exact absurd (hspace ▸ List.mem_cons_self) hother
  · rw [heq]
    refine .verbatim ?_ (isBare_ofSymbolText _)
    rw [Token.render_ofSymbolText, String.toList_singleton]

/-- A token is spelled by what it takes off the input. -/
theorem scan_spelled {lexicon : Lexicon} {c : Char} {cs : List Char} {token : Token}
    {rest : List Char} (h : scan lexicon c cs = .ok (token, rest)) :
    ∃ written, c :: cs = written ++ rest ∧ Spelled lexicon written token := by
  unfold scan at h
  cases hfind : scanners.findSome? fun scanner ↦ scanner lexicon c cs with
  | none =>
    rw [hfind] at h
    cases h
    have hnone := List.findSome?_eq_none_iff.1 hfind
    exact ⟨[c], rfl, other_spelled (hnone blank? (by simp [scanners]))⟩
  | some outcome =>
    rw [hfind, Option.getD_some] at h
    subst h
    obtain ⟨scanner, hmem, hscan⟩ := List.exists_of_findSome?_eq_some hfind
    exact scanners_spell scanner hmem hscan

end Lexer

end SqlFootprint
