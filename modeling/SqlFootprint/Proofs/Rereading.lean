import SqlFootprint.Proofs.Conservation
import SqlFootprint.Proofs.Rescans

/-!
# Texts of tokens read again

Tokens that were read from a text are read again from the text by which they are shown exactly if
each fits before what is shown behind it (`tokensOf_shownChars_iff`). A token that fits is read
again by itself. One that does not is read with more or less than shows it, and then the tokens that
follow cannot make up for that: no token is shown by more characters than it was read from, but for
hexadecimal digits.
-/

namespace SqlFootprint

open Lexer

namespace Token

/-- The characters by which tokens are shown. -/
def shownChars (tokens : List Token) : List Char := (shown tokens).toList

@[simp] theorem shownChars_nil : shownChars [] = [] := rfl

@[simp] theorem shownChars_cons (token : Token) (tokens : List Token) :
    shownChars (token :: tokens) = token.render.toList ++ shownChars tokens := by
  rw [shownChars, shown_cons, String.toList_append, shownChars]

@[simp] theorem shownChars_append (tokens more : List Token) :
    shownChars (tokens ++ more) = shownChars tokens ++ shownChars more := by
  rw [shownChars, shown_append, String.toList_append, shownChars, shownChars]

/-- Each token fits before what is shown behind it. -/
def rereadable (lexicon : Lexicon) : List Token → Bool
  | [] => true
  | token :: rest => token.fits lexicon (shownChars rest) && rereadable lexicon rest

end Token

namespace Lexer

variable {lexicon : Lexicon}

/-- The characters start with the tokens, one after the other. -/
def Starts (lexicon : Lexicon) : List Char → List Token → Prop
  | _, [] => True
  | cs, token :: tokens => ∃ rest, Scans lexicon cs token rest ∧ Starts lexicon rest tokens

/-- An empty text has no tokens. -/
theorem tokensOf_nil (lexicon : Lexicon) : tokensOf lexicon [] = .ok [] := by rw [tokensOf]

/-- A text is read from its first token on, if there is no fault. -/
theorem tokensOf_cons (lexicon : Lexicon) (c : Char) (cs : List Char) :
    tokensOf lexicon (c :: cs) = (scan lexicon c cs).bind fun found ↦
      (tokensOf lexicon found.2).map (found.1 :: ·) := by
  rw [tokensOf]
  split
  · next halt h =>
    conv => rhs; rw [h]
    rfl
  · next token rest h =>
    conv => rhs; rw [h]
    rfl

/-- Behind its first token a text is read as what follows. -/
theorem Scans.tokensOf_eq {cs rest : List Char} {token : Token} (h : Scans lexicon cs token rest) :
    tokensOf lexicon cs = (tokensOf lexicon rest).map (token :: ·) := by
  obtain ⟨c, more, rfl, hscan⟩ := h
  rw [tokensOf_cons, hscan]
  rfl

/-- A text is read token by token. -/
theorem tokensOf_eq_cons_iff {cs : List Char} {token : Token} {tokens : List Token} :
    tokensOf lexicon cs = .ok (token :: tokens) ↔
      ∃ rest, Scans lexicon cs token rest ∧ tokensOf lexicon rest = .ok tokens := by
  constructor
  · intro hall
    cases cs with
    | nil =>
      rw [tokensOf] at hall
      cases hall
    | cons c cs =>
      rw [tokensOf_cons] at hall
      cases h : scan lexicon c cs with
      | error halt =>
        rw [h] at hall
        cases hall
      | ok found =>
        rw [h, Except.bind] at hall
        cases hrest : tokensOf lexicon found.2 with
        | error halt =>
          rw [hrest] at hall
          cases hall
        | ok others =>
          rw [hrest] at hall
          cases hall
          exact ⟨found.2, scans_cons_iff.2 h, hrest⟩
  · rintro ⟨rest, hscan, hrest⟩
    rw [hscan.tokensOf_eq, hrest]
    rfl

/-- What follows some tokens of a text is read as the tokens that follow them. -/
theorem exists_tokensOf_append {before after : List Token} {cs : List Char}
    (h : tokensOf lexicon cs = .ok (before ++ after)) :
    ∃ front rest, cs = front ++ rest ∧ (front = [] → before = []) ∧
      tokensOf lexicon rest = .ok after := by
  induction before generalizing cs with
  | nil => exact ⟨[], cs, rfl, fun _ ↦ rfl, h⟩
  | cons token before ih =>
    obtain ⟨rest, ⟨c, more, rfl, hscan⟩, hrest⟩ := tokensOf_eq_cons_iff.1 h
    obtain ⟨written, hwritten, -⟩ := scan_spelled hscan
    obtain ⟨front, rest, rfl, -, hafter⟩ := ih hrest
    refine ⟨written ++ front, rest, by rw [hwritten, List.append_assoc], fun hnil ↦ ?_, hafter⟩
    have hlength := congrArg List.length hwritten
    have hshort := scan_length hscan
    rw [(List.append_eq_nil_iff.1 hnil).1] at hlength
    simp only [List.length_cons, List.nil_append] at hlength
    omega

/-- A text starts with its first tokens. -/
theorem starts_of_tokensOf {tokens after : List Token} {cs : List Char}
    (h : tokensOf lexicon cs = .ok (tokens ++ after)) : Starts lexicon cs tokens := by
  induction tokens generalizing cs with
  | nil => trivial
  | cons token tokens ih =>
    obtain ⟨rest, hscan, hrest⟩ := tokensOf_eq_cons_iff.1 h
    exact ⟨rest, hscan, ih hrest⟩

/-! ### Tokens that fit are read again -/

/-- Tokens are shown by a text like the one that they were read from. -/
theorem shownLike_shownChars {cs : List Char} {tokens : List Token} (h : Starts lexicon cs tokens) :
    ShownLike cs (Token.shownChars tokens) := by
  induction tokens generalizing cs with
  | nil => exact .done cs
  | cons token tokens ih =>
    obtain ⟨rest, ⟨c, more, rfl, hscan⟩, hrest⟩ := h
    obtain ⟨written, hwritten, hspelled⟩ := scan_spelled hscan
    rw [hwritten, Token.shownChars_cons]
    exact hspelled.alike (ih hrest)

/-- Tokens that fit are read again from the text by which they are shown. -/
theorem tokensOf_of_rereadable (hstops : Stops lexicon.continuesWord) {cs : List Char}
    {tokens : List Token} (h : Starts lexicon cs tokens)
    (hfits : Token.rereadable lexicon tokens = true) :
    tokensOf lexicon (Token.shownChars tokens) = .ok tokens := by
  induction tokens generalizing cs with
  | nil => exact tokensOf_nil lexicon
  | cons token tokens ih =>
    obtain ⟨rest, ⟨c, more, rfl, hscan⟩, hrest⟩ := h
    obtain ⟨hfirst, hothers⟩ := Bool.and_eq_true_iff.1 hfits
    rw [Token.shownChars_cons, tokensOf_eq_cons_iff]
    exact ⟨_, rescan hstops hscan (shownLike_shownChars hrest) hfirst, ih hrest hothers⟩

/-! ### Tokens that are read again fit -/

/-- Tokens are shown by no more characters than they are read from: what shows them does not end in
a text that starts with them, unless it is that text and nothing follows them there. -/
theorem eq_nil_of_shownChars_eq {front cs : List Char} {tokens after : List Token}
    (h : tokensOf lexicon cs = .ok (tokens ++ after))
    (hshown : Token.shownChars tokens = front ++ cs) : front = [] ∧ after = [] := by
  induction tokens generalizing front cs with
  | nil =>
    obtain ⟨hfront, rfl⟩ := List.append_eq_nil_iff.1 hshown.symm
    rw [tokensOf] at h
    exact ⟨hfront, (Except.ok.inj h).symm⟩
  | cons token tokens ih =>
    obtain ⟨rest, ⟨c, more, rfl, hscan⟩, hrest⟩ := tokensOf_eq_cons_iff.1 h
    obtain ⟨written, hwritten, hspelled⟩ := scan_spelled hscan
    rw [Token.shownChars_cons, hwritten, ← List.append_assoc] at hshown
    obtain ⟨beyond, hbeyond, hothers⟩ : ∃ beyond,
        token.render.toList = front ++ written ++ beyond ∧ (beyond = [] → after = []) := by
      rcases List.append_eq_append_iff.1 hshown with
        ⟨between, hfront, hrest'⟩ | ⟨more, hmore, hmore'⟩
      · obtain ⟨rfl, hafter⟩ := ih hrest hrest'
        rw [List.append_nil] at hfront
        exact ⟨[], by rw [hfront, List.append_nil], fun _ ↦ hafter⟩
      · refine ⟨more, hmore, fun hnil ↦ (@ih [] _ hrest ?_).2⟩
        rw [hmore', hnil]
        rfl
    have hlength := congrArg List.length hbeyond
    rw [List.length_append, List.length_append] at hlength
    rcases hspelled.length with hle | ⟨digits, body, rfl, hrender, hbody⟩
    · exact ⟨List.eq_nil_of_length_eq_zero (by omega),
        hothers (List.eq_nil_of_length_eq_zero (by omega))⟩
    · -- The zero before the digits stands at the opening of the string, or at its quote.
      rw [hrender] at hbeyond hlength
      cases front with
      | nil => exact absurd (List.cons_eq_cons.1 hbeyond).1 (by decide)
      | cons x front =>
        cases front with
        | nil => exact absurd (List.cons_eq_cons.1 (List.cons_eq_cons.1 hbeyond).2).1 (by decide)
        | cons y front =>
          simp only [List.length_cons] at hlength
          omega

private theorem scan_question (hflag : lexicon.questionOperators = true) (d : Char)
    (rest : List Char) :
    ∃ token, scan lexicon '?' (d :: rest) = .ok (token, rest) := by
  have hoperator : operator? lexicon '?' (d :: rest) = none := by
    have hfind : (symbols lexicon).find? (fun operator ↦
        operator.text.toList.isPrefixOf ('?' :: d :: rest)) = none := by
      unfold symbols
      split
      · rfl
      · rfl
    unfold operator? operatorAt?
    rw [hfind]
    rfl
  have hbefore : ∀ other ∈ [blank?, letterString?, string?, quotedWord?, number?, comment?] ++
      [operator?, hash?, at?], other lexicon '?' (d :: rest) = none := by
    rw [List.forall_mem_append]
    exact ⟨eq_none_before_symbols (by decide) lexicon _, by simp [hash?, at?, hoperator]⟩
  have hquestion : ∃ token, question? lexicon '?' (d :: rest) = some (.ok (token, rest)) := by
    unfold question?
    rw [if_pos rfl, if_pos hflag]
    split
    · next heq =>
      cases heq
      exact ⟨_, rfl⟩
    · next heq =>
      cases heq
      exact ⟨_, rfl⟩
    · exact ⟨_, rfl⟩
  obtain ⟨token, htoken⟩ := hquestion
  exact ⟨token, scan_eq _ rfl hbefore htoken⟩

private theorem toList_render_of_scans {operator : Operator}
    (hshown : operator.shown = operator.text)
    {cs more rest : List Char} {other : Token} (hscan : Scans lexicon ('<' :: cs) other rest)
    (hless : scan lexicon '<' cs = .ok (extend lexicon operator more)) :
    other.render.toList = operator.text.toList ++ tailOf lexicon operator more := by
  have hsame := Except.ok.inj ((scans_cons_iff.1 hscan).symm.trans hless)
  rw [← toList_render_extend hshown, ← hsame]

private theorem absorbs_eq_false_of_scans {mark : Symbol} {d : Char} {rest : List Char}
    {other : Token}
    (hscan : Scans lexicon (mark.text.toList ++ d :: rest) other (d :: rest))
    (hrender : other.render = mark.text) : (Token.symbol mark).absorbs lexicon d = false := by
  refine Bool.eq_false_iff.2 fun habsorbs ↦ ?_
  unfold Token.absorbs at habsorbs
  dsimp only at habsorbs
  split at habsorbs
  · next hless =>
    obtain rfl := beq_iff_eq.1 habsorbs
    rw [hless] at hscan hrender
    have hlonger := toList_render_of_scans rfl hscan (scan_shift lexicon rest)
    rw [hrender] at hlonger
    have hsecond : ['<'] = '<' :: '<' :: tailOf lexicon ⟨"<<", "<<", true⟩ rest := hlonger
    cases (List.cons_eq_cons.1 hsecond).2
  · split at habsorbs
    · next hunequal =>
      obtain ⟨hcustom, hd⟩ := Bool.and_eq_true_iff.1 habsorbs
      rw [hunequal] at hscan hrender
      have hlonger := toList_render_of_scans rfl hscan (scan_unequal lexicon (d :: rest))
      rw [hrender] at hlonger
      have htail := List.append_cancel_left ((List.append_nil _).trans hlonger)
      simp [tailOf, hcustom, hd] at htail
    · obtain ⟨hquestion, hflag⟩ := Bool.and_eq_true_iff.1 habsorbs
      rw [beq_iff_eq.1 hquestion] at hscan
      obtain ⟨token, htoken⟩ := scan_question hflag d rest
      have hsame := Except.ok.inj ((scans_cons_iff.1 hscan).symm.trans htoken)
      exact absurd (Prod.mk.inj hsame).2 (List.cons_ne_self d rest)

private theorem fits_of_scans {token other : Token} {rest : List Char}
    (hlegible : token.Legible lexicon)
    (hscan : Scans lexicon (token.render.toList ++ rest) other rest)
    (hrender : other.render = token.render) : token.fits lexicon rest = true := by
  cases hbare : token.isBare with
  | false =>
    exact (Token.fits_iff_of_quoted hbare rest).2 (Token.isPlain_of_scans hlegible hscan hrender)
  | true =>
    obtain ⟨hplain, hquote, -⟩ := @Token.plain_of_isBare lexicon token hbare
    unfold Token.fits
    rw [hplain, Bool.true_and, Bool.not_eq_true']
    cases rest with
    | nil => rfl
    | cons d rest =>
      cases token with
      | symbol mark => exact absorbs_eq_false_of_scans hscan hrender
      | _ =>
        show (Token.quote? _ == some d) = false
        rw [hquote]
        rfl

/-- Where a token is read that is shown as the characters before the others, it is read off these
characters. -/
theorem eq_of_scans_shownChars {front after : List Char} {other : Token} {others : List Token}
    (hscan : Scans lexicon (front ++ Token.shownChars others) other after)
    (hrender : other.render.toList = front) (hafter : tokensOf lexicon after = .ok others) :
    after = Token.shownChars others := by
  obtain ⟨c, more, hinput, hscan⟩ := hscan
  obtain ⟨written, hwritten, hspelled⟩ := scan_spelled hscan
  rw [hwritten] at hinput
  rcases List.append_eq_append_iff.1 hinput with ⟨between, -, hrest⟩ | ⟨between, hfront, hrest⟩
  · rw [← List.append_nil others] at hafter
    rw [(eq_nil_of_shownChars_eq hafter hrest).1, List.nil_append] at hrest
    exact hrest.symm
  · rcases hspelled.length with hle | ⟨digits, body, rfl, hdigits, -⟩
    · have hlength := congrArg List.length hfront
      rw [List.length_append, ← hrender] at hlength
      have hnil : between = [] := List.eq_nil_of_length_eq_zero (by omega)
      rw [hrest, hnil, List.nil_append]
    · rw [← hrender, hdigits] at hfront
      exact absurd (List.cons_eq_cons.1 hfront).1 (by decide)

/-- Tokens are rereadable if what is read from the text by which they are shown is shown so, token
by token. -/
theorem rereadable_of_tokensOf {cs : List Char} {tokens others : List Token}
    (h : Starts lexicon cs tokens)
    (hothers : tokensOf lexicon (Token.shownChars tokens) = .ok others)
    (hrender : others.map Token.render = tokens.map Token.render) :
    Token.rereadable lexicon tokens = true := by
  induction tokens generalizing cs others with
  | nil => rfl
  | cons token tokens ih =>
    cases others with
    | nil => cases hrender
    | cons other others =>
      obtain ⟨rest, ⟨c, more, rfl, hscan⟩, hstarts⟩ := h
      obtain ⟨hfirst, hmore⟩ := List.cons_eq_cons.1 hrender
      have hshown : Token.shownChars others = Token.shownChars tokens := by
        rw [Token.shownChars, Token.shown, hmore]
        rfl
      rw [Token.shownChars_cons, ← hshown] at hothers
      obtain ⟨after, hother, hafter⟩ := tokensOf_eq_cons_iff.1 hothers
      obtain rfl := eq_of_scans_shownChars hother (congrArg String.toList hfirst) hafter
      obtain ⟨written, -, hspelled⟩ := scan_spelled hscan
      rw [hshown] at hother hafter
      rw [Token.rereadable, Bool.and_eq_true]
      exact ⟨fits_of_scans hspelled.legible hother hfirst, ih hstarts hafter hmore⟩

/-- The tokens of a text are read again from the text by which they are shown exactly if each fits
before what is shown behind it. -/
theorem tokensOf_shownChars_iff (hstops : Stops lexicon.continuesWord) {cs : List Char}
    {tokens : List Token} (h : Starts lexicon cs tokens) :
    tokensOf lexicon (Token.shownChars tokens) = .ok tokens ↔
      Token.rereadable lexicon tokens = true :=
  ⟨fun hsame ↦ rereadable_of_tokensOf h hsame rfl, tokensOf_of_rereadable hstops h⟩

end Lexer

end SqlFootprint
