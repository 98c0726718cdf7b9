import SqlFootprint.Proofs.Rereading
import SqlFootprint.Proofs.Splitting

/-!
# Statements read again

The text of a statement is read again as that one statement exactly if each of its tokens fits
before what is shown behind it (`trees_text_iff`). If all fit, the tokens are read again. If the
tree is read again, its leaves stand for tokens that are shown as those of the statement: a leaf
that is no name shows one token, and the words of a name are those of its text, since a quote that
ended one of them too early would stand where its value has a period (`name_again`).
-/

namespace SqlFootprint

open Lexer

namespace Lexer

variable {lexicon : Lexicon}

/-! ### Tokens read again one by one -/

private theorem Scans.unique {cs rest more : List Char} {token other : Token}
    (h : Scans lexicon cs token rest) (hother : Scans lexicon cs other more) :
    other = token ∧ more = rest := by
  obtain ⟨c, cs, rfl, hscan⟩ := h
  have hsame := hscan.symm.trans (scans_cons_iff.1 hother)
  cases hsame
  exact ⟨rfl, rfl⟩

/-- No text has the end of the input among its tokens. -/
theorem endOfInput_notMem {cs : List Char} {tokens : List Token} (h : Starts lexicon cs tokens) :
    .endOfInput ∉ tokens := by
  induction tokens generalizing cs with
  | nil => exact List.not_mem_nil
  | cons token tokens ih =>
    obtain ⟨rest, ⟨c, more, -, hscan⟩, hrest⟩ := h
    obtain ⟨written, -, hspelled⟩ := scan_spelled hscan
    refine List.not_mem_cons_of_ne_of_not_mem (fun hend ↦ ?_) (ih hrest)
    subst hend
    exact hspelled.legible

variable {cs : List Char} {token other : Token} {tokens others : List Token}

/-- Behind a token that is read as it is shown, the others are read from what shows them. -/
theorem tokensOf_of_cons
    (h : tokensOf lexicon (Token.shownChars (token :: tokens)) = .ok (other :: others))
    (hrender : other.render = token.render)
    (hshown : Token.shownChars others = Token.shownChars tokens) :
    tokensOf lexicon (Token.shownChars tokens) = .ok others := by
  rw [Token.shownChars_cons, ← hshown] at h
  obtain ⟨after, hother, hafter⟩ := tokensOf_eq_cons_iff.1 h
  rwa [eq_of_scans_shownChars hother (congrArg String.toList hrender) hafter, hshown] at hafter

/-- Where a token fits, it is read again. -/
theorem eq_of_fits (hstops : Stops lexicon.continuesWord)
    (hstarts : Starts lexicon cs (token :: tokens))
    (hfits : token.fits lexicon (Token.shownChars tokens) = true)
    (h : tokensOf lexicon (Token.shownChars (token :: tokens)) = .ok (other :: others)) :
    other = token := by
  obtain ⟨rest, ⟨c, more, rfl, hscan⟩, hrest⟩ := hstarts
  obtain ⟨after, hother, -⟩ := tokensOf_eq_cons_iff.1 h
  rw [Token.shownChars_cons] at hother
  exact ((rescan hstops hscan (shownLike_shownChars hrest) hfits).unique hother).1

/-- Where a word was read, a word with the same quotes is read again, and the word itself if it has
no quotes. -/
theorem word_again (hstops : Stops lexicon.continuesWord) {word : Word}
    (hstarts : Starts lexicon cs (.word word :: tokens))
    (h : tokensOf lexicon (Token.shownChars (.word word :: tokens)) = .ok (other :: others)) :
    other = .word word ∨ ∃ value body quote, word = ⟨value, some quote⟩ ∧
      other = .word ⟨body, some quote⟩ := by
  obtain ⟨value, quote⟩ := word
  cases quote with
  | none =>
    refine .inl (eq_of_fits hstops hstarts ?_ h)
    cases Token.shownChars tokens with
    | nil => rfl
    | cons d ds => rfl
  | some quote =>
    right
    obtain ⟨rest, ⟨c, more, rfl, hscan⟩, hrest⟩ := hstarts
    obtain ⟨written, -, hspelled⟩ := scan_spelled hscan
    have hquote : lexicon.quote? quote.opening = some quote := hspelled.legible
    obtain ⟨after, hother, -⟩ := tokensOf_eq_cons_iff.1 h
    rw [Token.shownChars_cons, ← @String.ofList_toList value, toList_render_quoted,
      List.cons_append] at hother
    obtain ⟨body, -, hbody⟩ := (scans_quoted_iff hquote).1 hother
    exact ⟨value, _, quote, rfl, hbody⟩

end Lexer

/-! ### Names read again -/

namespace Token

private theorem NameTail.eq_nil {tail : List Token} (h : NameTail tail)
    (hshown : shownChars tail = []) :
    tail = [] := by
  cases h with
  | nil => rfl
  | star => cases hshown
  | word word htail =>
    rw [shownChars_cons] at hshown
    cases hshown

private theorem NameTail.head?_valued {tail : List Token} (h : NameTail tail) {c : Char}
    (hc : c ≠ '.') :
    (valued tail).toList.head? ≠ some c := by
  cases h with
  | nil => exact nofun
  | star =>
    intro hhead
    exact hc (Option.some.inj hhead).symm
  | word word htail =>
    intro hhead
    rw [valued_cons, String.toList_append, List.head?_append] at hhead
    exact hc (Option.some.inj hhead).symm

end Token

namespace Lexer

variable {lexicon : Lexicon}

private theorem eq_nil_of_closing {closing : Char} {more front back before after : List Char}
    (h : closing :: back = more ++ closing :: front) (hvalue : before = more ++ after)
    (hhead : before.head? ≠ some closing) : more = [] := by
  cases more with
  | nil => rfl
  | cons d more =>
    obtain ⟨rfl, -⟩ := List.cons_eq_cons.1 h
    rw [hvalue] at hhead
    exact absurd rfl hhead

private theorem eq_of_closing {closing : Char} {value body front back before after : List Char}
    (h : value ++ closing :: back = body ++ closing :: front)
    (hvalue : value ++ before = body ++ after) (hbefore : before.head? ≠ some closing)
    (hafter : after.head? ≠ some closing) : value = body := by
  rcases List.append_eq_append_iff.1 h with ⟨more, rfl, hmore⟩ | ⟨more, rfl, hmore⟩
  · rw [List.append_assoc, List.append_cancel_left_eq] at hvalue
    rw [eq_nil_of_closing hmore hvalue hbefore, List.append_nil]
  · rw [List.append_assoc, List.append_cancel_left_eq] at hvalue
    rw [eq_nil_of_closing hmore hvalue.symm hafter, List.append_nil]

variable {cs : List Char} {word other : Word} {tail tail' more more' : List Token}

/-- The first word of a name is read again, where a name is read that has its text and its value,
and behind it what goes on so. -/
theorem first_again (hstops : Stops lexicon.continuesWord) (htail : Token.NameTail tail)
    (htail' : Token.NameTail tail') (hstarts : Starts lexicon cs (.word word :: (tail ++ more)))
    (h : tokensOf lexicon (Token.shownChars (.word word :: (tail ++ more))) =
      .ok (.word other :: (tail' ++ more')))
    (hshown : Token.shownChars (.word other :: tail') = Token.shownChars (.word word :: tail))
    (hvalued : Token.valued (.word other :: tail') = Token.valued (.word word :: tail))
    (hmore : Token.shownChars more' = Token.shownChars more) :
    other = word ∧ Token.shownChars tail' = Token.shownChars tail ∧
      Token.valued tail' = Token.valued tail ∧
      tokensOf lexicon (Token.shownChars (tail ++ more)) = .ok (tail' ++ more') := by
  rw [Token.shownChars_cons, Token.shownChars_cons] at hshown
  rw [Token.valued_cons, Token.valued_cons] at hvalued
  have hfirst : other = word := by
    rcases word_again hstops hstarts h with hsame | ⟨value, body, quote, rfl, hother⟩
    · exact Token.word.inj hsame
    · cases hother
      have hclosing : quote.closing ≠ '.' := by cases quote <;> decide
      rw [← @String.ofList_toList value, ← @String.ofList_toList body, toList_render_quoted,
        toList_render_quoted, List.cons_append, List.cons_append, List.append_assoc,
        List.append_assoc] at hshown
      have hvalue := congrArg String.toList hvalued
      rw [String.toList_append, String.toList_append] at hvalue
      have hbody := eq_of_closing (List.cons_eq_cons.1 hshown).2 hvalue
        (htail'.head?_valued hclosing) (htail.head?_valued hclosing)
      rw [String.toList_inj.1 hbody]
  subst hfirst
  rw [List.append_cancel_left_eq] at hshown
  rw [String.append_right_inj] at hvalued
  exact ⟨rfl, hshown, hvalued, tokensOf_of_cons h rfl (by simp [hmore, hshown])⟩

private theorem period_again (hstarts : Starts lexicon cs (.period :: (tail ++ more)))
    (h : tokensOf lexicon (Token.shownChars (.period :: (tail ++ more))) =
      .ok (.period :: (tail' ++ more')))
    (hshown : Token.shownChars (.period :: tail') = Token.shownChars (.period :: tail))
    (hmore : Token.shownChars more' = Token.shownChars more) :
    (∃ rest, Starts lexicon rest (tail ++ more)) ∧
      Token.shownChars tail' = Token.shownChars tail ∧
      tokensOf lexicon (Token.shownChars (tail ++ more)) = .ok (tail' ++ more') := by
  rw [Token.shownChars_cons, Token.shownChars_cons, List.append_cancel_left_eq] at hshown
  obtain ⟨rest, -, hrest⟩ := hstarts
  exact ⟨⟨rest, hrest⟩, hshown, tokensOf_of_cons h rfl (by simp [hmore, hshown])⟩

private theorem tail_again (hstops : Stops lexicon.continuesWord) (htail : Token.NameTail tail)
    (htail' : Token.NameTail tail') (hstarts : Starts lexicon cs (tail ++ more))
    (h : tokensOf lexicon (Token.shownChars (tail ++ more)) = .ok (tail' ++ more'))
    (hshown : Token.shownChars tail' = Token.shownChars tail)
    (hvalued : Token.valued tail' = Token.valued tail)
    (hmore : Token.shownChars more' = Token.shownChars more) :
    tail' = tail ∧ (∃ rest, Starts lexicon rest more) ∧
      tokensOf lexicon (Token.shownChars more) = .ok more' := by
  -- By induction on the parts written: the text fixes whether a period follows, and the token after
  -- the period is a star or a word as it was.
  induction htail generalizing cs tail' with
  | nil =>
    obtain rfl := htail'.eq_nil hshown
    exact ⟨rfl, ⟨cs, hstarts⟩, h⟩
  | star =>
    cases htail' with
    | nil => cases hshown
    | star =>
      obtain ⟨⟨rest, hrest⟩, -, hstar⟩ := period_again hstarts h hshown hmore
      obtain ⟨rest, -, hmore'⟩ := hrest
      exact ⟨rfl, ⟨rest, hmore'⟩, tokensOf_of_cons hstar rfl hmore⟩
    | word next htail' =>
      obtain ⟨⟨rest, hrest⟩, -, hstar⟩ := period_again hstarts h hshown hmore
      have hfits : Token.star.fits lexicon (Token.shownChars more) = true := by
        cases Token.shownChars more <;> rfl
      cases eq_of_fits hstops hrest hfits hstar
  | word next htail ih =>
    cases htail' with
    | nil =>
      rw [Token.shownChars_cons] at hshown
      cases hshown
    | star =>
      obtain ⟨⟨rest, hrest⟩, -, hnext⟩ := period_again hstarts h hshown hmore
      rcases word_again hstops hrest hnext with hsame | ⟨_, _, _, _, hsame⟩
      · cases hsame
      · cases hsame
    | word next' htail' =>
      obtain ⟨⟨rest, hrest⟩, hshown, hnext⟩ := period_again hstarts h hshown hmore
      rw [Token.valued_cons, @Token.valued_cons .period, String.append_right_inj] at hvalued
      obtain ⟨rfl, hshown, hvalued, htokens⟩ :=
        first_again hstops htail htail' hrest hnext hshown hvalued hmore
      obtain ⟨rest, -, hrest⟩ := hrest
      obtain ⟨rfl, hall⟩ := ih htail' hrest htokens hshown hvalued
      exact ⟨rfl, hall⟩

/-- A name is read again as the name that has its text and its value. -/
theorem name_again (hstops : Stops lexicon.continuesWord) (htail : Token.NameTail tail)
    (htail' : Token.NameTail tail') (hstarts : Starts lexicon cs (.word word :: (tail ++ more)))
    (h : tokensOf lexicon (Token.shownChars (.word word :: (tail ++ more))) =
      .ok (.word other :: (tail' ++ more')))
    (hshown : Token.shownChars (.word other :: tail') = Token.shownChars (.word word :: tail))
    (hvalued : Token.valued (.word other :: tail') = Token.valued (.word word :: tail))
    (hmore : Token.shownChars more' = Token.shownChars more) :
    Token.word other :: tail' = .word word :: tail ∧ (∃ rest, Starts lexicon rest more) ∧
      tokensOf lexicon (Token.shownChars more) = .ok more' := by
  obtain ⟨rfl, hshown, hvalued, htokens⟩ :=
    first_again hstops htail htail' hstarts h hshown hvalued hmore
  obtain ⟨rest, -, hrest⟩ := hstarts
  obtain ⟨rfl, hall⟩ := tail_again hstops htail htail' hrest htokens hshown hvalued hmore
  exact ⟨rfl, hall⟩

end Lexer

/-! ### Leaves and statements read again -/

namespace Grouping

/-- Leaves show the tokens that they stand for. -/
theorem LeavesOf.textOf_eq {tokens : List Token} {leaves : List Node} (h : LeavesOf tokens leaves)
    (hend : .endOfInput ∉ tokens) : Node.textOf leaves = Token.shown tokens := by
  induction h with
  | nil => rfl
  | skip _ _ => exact absurd List.mem_cons_self hend
  | leaf hleaf _ ih =>
    rw [List.mem_append, not_or] at hend
    rw [Node.textOf_cons, hleaf.text_eq.1, ih hend.2, Token.shown_append]

end Grouping

namespace Lexer

open Grouping

variable {lexicon : Lexicon}

/-- Where tokens are read that have the leaves of others, they are shown as these, one by one. -/
theorem map_render_of_leavesOf (hstops : Stops lexicon.continuesWord) {tokens others : List Token}
    {leaves : List Node} (hleaves : LeavesOf tokens leaves) (hothers : LeavesOf others leaves)
    {cs : List Char} (hstarts : Starts lexicon cs tokens)
    (h : tokensOf lexicon (Token.shownChars tokens) = .ok others) :
    others.map Token.render = tokens.map Token.render := by
  induction hleaves generalizing others cs with
  | nil =>
    rw [Token.shownChars_nil, tokensOf] at h
    cases h
    rfl
  | skip _ _ => exact absurd List.mem_cons_self (endOfInput_notMem hstarts)
  | @leaf run tokens leaf leaves hleaf hrest ih =>
    have hend := endOfInput_notMem hstarts
    have hend' := endOfInput_notMem (starts_of_tokensOf ((List.append_nil others).symm ▸ h))
    cases hothers with
    | skip _ => exact absurd List.mem_cons_self hend'
    | @leaf run' others _ _ hleaf' hrest' =>
      rw [List.mem_append, not_or] at hend hend'
      have hmore : Token.shownChars others = Token.shownChars tokens := by
        rw [Token.shownChars, ← hrest'.textOf_eq hend'.2, hrest.textOf_eq hend.2, Token.shownChars]
      have htext : Token.shown run' = Token.shown run :=
        hleaf'.text_eq.1.symm.trans hleaf.text_eq.1
      cases hleaf with
      | token _ hname hrender =>
        cases hleaf' with
        | name _ hname' => cases hname.symm.trans hname'
        | token _ _ hrender' =>
          have hsame := hrender'.symm.trans hrender
          obtain ⟨rest, -, hstarts⟩ := hstarts
          simp only [List.singleton_append, List.map_cons] at h ⊢
          rw [hsame, ih hrest' hstarts (tokensOf_of_cons h hsame hmore)]
      | name htail hname hvalue =>
        cases hleaf' with
        | token _ hname' => cases hname.symm.trans hname'
        | name htail' hname' hvalue' =>
          cases hname.symm.trans hname'
          obtain ⟨hsame, ⟨rest, hstarts⟩, htokens⟩ := name_again hstops htail htail' hstarts h
            (congrArg String.toList htext) (hvalue'.symm.trans hvalue) hmore
          rw [List.map_append, List.map_append, hsame, ih hrest' hstarts htokens]

end Lexer

namespace Script

/-- A statement is split into itself. -/
theorem split_eq_of_mem_split {tokens statement : List Token} (h : statement ∈ split tokens) :
    split statement = [statement] := by
  have hsays : isStatement statement = true := (List.mem_filter.1 h).2
  have hpieces : ∀ pieces : List (List Token), pieces = [statement] ∨ pieces = [statement, []] →
      pieces.filter isStatement = [statement] := by
    rintro pieces (rfl | rfl)
    · rw [List.filter_cons_of_pos hsays, List.filter_nil]
    · rw [List.filter_cons_of_pos hsays]
      rfl
  refine hpieces _ ?_
  rcases of_mem_split h with ⟨whole, rfl, hwhole⟩ | huncut
  · exact .inr (segments_append_semicolon hwhole [])
  · exact .inl (segments_uncut huncut)

/-- A statement is a part of its script. -/
theorem exists_append_of_mem_split {tokens statement : List Token} (h : statement ∈ split tokens) :
    ∃ before after, tokens = before ++ (statement ++ after) := by
  obtain ⟨front, back, hpieces⟩ := List.append_of_mem (List.mem_filter.1 h).1
  refine ⟨front.flatten, back.flatten, ?_⟩
  rw [← flatten_segments 0 tokens, hpieces, List.flatten_append, List.flatten_cons]

end Script

namespace Lexer

variable {dialect : Dialect} {text : String} {tokens : List Token}

/-- The tokens of a text are those of its characters. -/
theorem tokens_eq_ok_iff : Lexer.tokens dialect text = .ok tokens ↔
    tokensOf dialect.lexicon text.toList = .ok tokens := by
  rw [Lexer.tokens]
  cases tokensOf dialect.lexicon text.toList with
  | error halt => exact ⟨nofun, nofun⟩
  | ok tokens => exact ⟨fun h ↦ congrArg _ (Except.ok.inj h), fun h ↦ congrArg _ (Except.ok.inj h)⟩

end Lexer

namespace Script

variable {dialect : Dialect}

/-- The tokens of a statement are found at the front of what stands from there on in its script. -/
theorem exists_starts_of_mem_split {text : String} {tokens statement : List Token}
    (h : Lexer.tokens dialect text = .ok tokens) (hmem : statement ∈ split tokens) :
    ∃ cs, Starts dialect.lexicon cs statement := by
  obtain ⟨before, after, rfl⟩ := exists_append_of_mem_split hmem
  obtain ⟨-, rest, -, -, hrest⟩ := exists_tokensOf_append (tokens_eq_ok_iff.1 h)
  exact ⟨rest, starts_of_tokensOf hrest⟩

/-- The trees of a text whose tokens are known. -/
theorem trees_eq_of_tokens {text : String} {tokens : List Token}
    (h : Lexer.tokens dialect text = .ok tokens) :
    trees dialect text = .ok ((split tokens).map groupStatement) := by
  rw [trees, h]
  rfl

/-- The text of a grouped statement is that of its tokens. -/
theorem text_groupStatement {cs : List Char} {statement : List Token}
    (h : Starts dialect.lexicon cs statement) :
    (groupStatement statement).text = Token.shown statement := by
  rw [TokenTree.text, nodes_groupStatement,
    ← Node.textOf_leavesOfAll (Grouping.formed_statementNodes statement),
    Grouping.LeavesOf.textOf_eq (Grouping.yields_statementNodes statement) (endOfInput_notMem h)]

/-- A text that has the one tree of a statement whose text it is has the tokens of one statement,
with the same tree. -/
theorem tokens_of_trees {cs : List Char} {statement : List Token}
    (hstarts : Starts dialect.lexicon cs statement)
    (h : trees dialect (Token.shown statement) = .ok [groupStatement statement]) :
    ∃ others, groupStatement others = groupStatement statement ∧
      tokensOf dialect.lexicon (Token.shownChars statement) = .ok others := by
  cases htokens : Lexer.tokens dialect (Token.shown statement) with
  | error halt =>
    rw [trees, htokens] at h
    cases h
  | ok tokens =>
    have htrees := Except.ok.inj ((trees_eq_of_tokens htokens).symm.trans h)
    obtain ⟨others, hsplit, hsame⟩ := List.map_eq_singleton_iff.1 htrees
    have hmem : others ∈ split tokens := hsplit ▸ List.mem_singleton_self others
    obtain ⟨other, hother⟩ := exists_starts_of_mem_split htokens hmem
    have htexts := congrArg TokenTree.text hsame
    rw [text_groupStatement hother, text_groupStatement hstarts] at htexts
    obtain ⟨before, after, rfl⟩ := exists_append_of_mem_split hmem
    obtain ⟨front, rest, hfront, hbefore, hrest⟩ :=
      exists_tokensOf_append (tokens_eq_ok_iff.1 htokens)
    -- What stands before and behind the statement would be shown too.
    have hshown : Token.shownChars others = front ++ rest := by
      rw [Token.shownChars, htexts, hfront]
    obtain ⟨rfl, rfl⟩ := eq_nil_of_shownChars_eq hrest hshown
    have hall := tokens_eq_ok_iff.1 htokens
    rw [hbefore rfl, List.nil_append, List.append_nil] at hall
    exact ⟨others, hsame, hall⟩

end Script

namespace Lexer

/-- What is read behind the first word of a query. -/
theorem tokensOf_select (cs : List Char) :
    tokensOf Dialect.generic.lexicon ("SELECT ".toList ++ cs) =
      (tokensOf Dialect.generic.lexicon cs).map
        ([.word ⟨"SELECT", none⟩, .blank .space] ++ ·) := by
  have hselect : Scans Dialect.generic.lexicon ("SELECT ".toList ++ cs) (.word ⟨"SELECT", none⟩)
    (' ' :: cs) := scans_cons_iff.2 rfl
  have hspace : Scans Dialect.generic.lexicon (' ' :: cs) (.blank .space) cs :=
    scans_cons_iff.2 rfl
  rw [hselect.tokensOf_eq, hspace.tokensOf_eq]
  cases tokensOf Dialect.generic.lexicon cs with
  | error halt => rfl
  | ok tokens => rfl

end Lexer

/-- A statement of a script is read again from its text, as its one tree, exactly if each of its
tokens fits before what is shown behind it: a string or a quoted word has nothing between its quotes
that is read otherwise than it is shown and no quote right behind it, and no symbol goes on over
what follows it. -/
theorem trees_text_iff {dialect : Dialect} {text : String} {tokens : List Token}
    (h : Lexer.tokens dialect text = .ok tokens) :
    Script.trees dialect text = .ok ((Script.split tokens).map groupStatement) ∧
      ∀ statement ∈ Script.split tokens,
        Script.trees dialect (groupStatement statement).text = .ok [groupStatement statement] ↔
          Token.rereadable dialect.lexicon statement = true := by
  refine ⟨Script.trees_eq_of_tokens h, fun statement hmem ↦ ?_⟩
  obtain ⟨cs, hstarts⟩ := Script.exists_starts_of_mem_split h hmem
  have hstops := stops_continuesWord dialect
  rw [Script.text_groupStatement hstarts]
  constructor
  · intro htrees
    obtain ⟨others, hsame, hothers⟩ := Script.tokens_of_trees hstarts htrees
    have hleaves := Grouping.yields_statementNodes others
    rw [← nodes_groupStatement, hsame, nodes_groupStatement] at hleaves
    exact rereadable_of_tokensOf hstarts hothers
      (map_render_of_leavesOf hstops (Grouping.yields_statementNodes statement) hleaves hstarts
        hothers)
  · intro hfits
    have htokens := tokens_eq_ok_iff.2 (tokensOf_of_rereadable hstops hstarts hfits)
    rw [Script.trees_eq_of_tokens htokens, Script.split_eq_of_mem_split hmem, List.map_singleton]

/-- A string without quotes in it is read again. -/
theorem trees_text_plainString :
    Lexer.tokens .generic "SELECT 'it'" =
        .ok [.word ⟨"SELECT", none⟩, .blank .space, .string .single "it"] ∧
      ∃ tree, Script.trees .generic "SELECT 'it'" = .ok [tree] ∧
        Script.trees .generic tree.text = .ok [tree] := by
  have hstring : Scans Dialect.generic.lexicon "'it'".toList (.string .single "it") [] :=
    scans_cons_iff.2 rfl
  have htokens : Lexer.tokens .generic "SELECT 'it'" =
      .ok [.word ⟨"SELECT", none⟩, .blank .space, .string .single "it"] := by
    refine tokens_eq_ok_iff.2 ((tokensOf_select "'it'".toList).trans ?_)
    rw [hstring.tokensOf_eq, tokensOf_nil]
    rfl
  obtain ⟨htrees, hagain⟩ := trees_text_iff htokens
  exact ⟨htokens, _, htrees, (hagain _ List.mem_cons_self).2 rfl⟩

/-- A string with a doubled quote in it is shown with a single one, which ends it when it is read
again. -/
theorem trees_text_doubledQuote :
    ∃ tree, Script.trees .generic "SELECT 'it''s'" = .ok [tree] ∧ tree.text = "SELECT 'it's'" ∧
      Script.trees .generic tree.text = .error ⟨.unterminatedString, ⟨1, 13⟩⟩ := by
  have hwhole : Scans Dialect.generic.lexicon "'it''s'".toList (.string .single "it's") [] :=
    scans_cons_iff.2 rfl
  have htokens : Lexer.tokens .generic "SELECT 'it''s'" =
      .ok [.word ⟨"SELECT", none⟩, .blank .space, .string .single "it's"] := by
    refine tokens_eq_ok_iff.2 ((tokensOf_select "'it''s'".toList).trans ?_)
    rw [hwhole.tokensOf_eq, tokensOf_nil]
    rfl
  have hstring : Scans Dialect.generic.lexicon "'it's'".toList (.string .single "it")
    "s'".toList := scans_cons_iff.2 rfl
  have hword : Scans Dialect.generic.lexicon "s'".toList (.word ⟨"s", none⟩) ['\''] :=
    scans_cons_iff.2 rfl
  have hquote : tokensOf Dialect.generic.lexicon ['\''] =
      .error ⟨.unterminatedString, ['\'']⟩ := by
    rw [tokensOf_cons]
    rfl
  have hagain : Lexer.tokens .generic "SELECT 'it's'" =
      .error ⟨.unterminatedString, ⟨1, 13⟩⟩ := by
    refine (congrArg (Except.mapError _) (tokensOf_select "'it's'".toList)).trans ?_
    rw [hstring.tokensOf_eq, hword.tokensOf_eq, hquote]
    rfl
  obtain ⟨cs, hstarts⟩ := Script.exists_starts_of_mem_split htokens List.mem_cons_self
  have htext : (groupStatement _).text = "SELECT 'it's'" := Script.text_groupStatement hstarts
  refine ⟨_, Script.trees_eq_of_tokens htokens, htext, ?_⟩
  rw [htext, Script.trees, hagain]
  rfl

end SqlFootprint
