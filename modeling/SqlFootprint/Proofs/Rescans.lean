import SqlFootprint.Proofs.NumberRescans

/-!
# Tokens that are read again as they are shown

A token is read again from the text by which it is shown, before a text like the one that followed
it, if nothing that was read otherwise stands between its quotes and it does not go on over what
now follows it (`Token.fits`, `rescan`). Each scanner finds its tokens again (`Scanner.Again`),
since what ended a token is shown by what ends it; the scanners asked before it know the text no
more than the one that was read.
-/

namespace SqlFootprint

open Lexer

namespace Token

/-- The token goes on over the character if that stands right behind it. -/
def absorbs (lexicon : Lexicon) (token : Token) (c : Char) : Bool :=
  match token with
  | .symbol mark =>
    if mark.text = "<" then c == '<'
    else if mark.text = "<>" then lexicon.customOperators && isOperatorPart c
    else mark.text == "?" && lexicon.questionOperators
  | _ => token.quote? == some c

/-- The token is shown as it was read and does not go on over the characters. -/
def fits (lexicon : Lexicon) (token : Token) (rest : List Char) : Bool :=
  token.isPlain lexicon && !rest.head?.any (token.absorbs lexicon)

/-- A token with quotes fits if it is plain and its quote does not follow. -/
theorem fits_iff_of_quoted {lexicon : Lexicon} {token : Token} (h : token.isBare = false)
    (rest : List Char) : token.fits lexicon rest = true ↔ token.isPlain lexicon = true ∧
      ∀ quote, token.quote? = some quote → rest.head? ≠ some quote := by
  have habsorbs (c : Char) : token.absorbs lexicon c = (token.quote? == some c) := by
    cases token with
    | symbol mark => cases h
    | _ => rfl
  unfold fits
  rw [Bool.and_eq_true, Bool.not_eq_true']
  refine and_congr_right fun _ ↦ ?_
  cases rest with
  | nil => exact ⟨fun _ quote _ ↦ nofun, fun _ ↦ rfl⟩
  | cons d ds =>
    rw [List.head?_cons, Option.any_some, habsorbs, beq_eq_false_iff_ne]
    exact ⟨fun hne quote hquote heq ↦ hne (hquote.trans heq.symm), fun hall heq ↦ hall d heq rfl⟩

end Token

namespace Lexer

/-- A scanner finds its tokens without quotes where they are shown with the character that was read,
before a text like the one that followed them. -/
def Scanner.Again (scanner : Scanner) : Prop :=
  ∀ lexicon c cs token rest back shown, Stops lexicon.continuesWord →
    scanner lexicon c cs = some (.ok (token, rest)) → token.render.toList = c :: back →
    ShownLike rest shown → token.fits lexicon shown = true →
    scanner lexicon c (back ++ shown) = some (.ok (token, shown))

/-! ### Words and placeholders -/

private theorem wordFrom_again {lexicon : Lexicon} (hstops : Stops lexicon.continuesWord) {c : Char}
    {start cs rest back shown : List Char} {token : Token}
    (h : some (.ok (wordFrom lexicon (c :: start) cs)) = some (.ok (token, rest) : Outcome))
    (hback : token.render.toList = c :: back) (halike : ShownLike rest shown) :
    ∃ tail, back = start ++ tail ∧
      wordFrom lexicon (c :: start) (tail ++ shown) = (token, shown) := by
  cases h
  obtain ⟨htake, hdrop⟩ := ShownLike.takeWhile hstops halike
  refine ⟨cs.takeWhile lexicon.continuesWord, ?_, by rw [wordFrom, htake, hdrop]⟩
  exact (List.cons_eq_cons.1 (hback.symm.trans String.toList_ofList)).2

private theorem word?_again : Scanner.Again word? := by
  intro lexicon c cs token rest back shown hstops h hback halike _
  unfold word? at h ⊢
  split at h
  · next hc =>
    obtain ⟨tail, rfl, hagain⟩ := wordFrom_again hstops h hback halike
    rw [if_pos hc, ← hagain]
  · cases h

private theorem dollarPlaceholder_again {part : Char → Bool} (hstops : Stops part)
    {cs back rest shown : List Char} {token : Token}
    (h : dollarPlaceholder part cs = .ok (token, rest)) (hback : token.render.toList = '$' :: back)
    (halike : ShownLike rest shown) :
    dollarPlaceholder part (back ++ shown) = .ok (token, shown) := by
  cases h
  obtain rfl : cs.takeWhile part = back := by simpa [Token.render] using hback
  obtain ⟨htake, hdrop⟩ := ShownLike.takeWhile hstops halike
  rw [dollarPlaceholder, htake, hdrop]

private theorem fencedString_again {fault : Fault} {tag : Option String} {fence cs rest : List Char}
    {token : Token} (hfence : fence ≠ [])
    (h : fencedString fault tag fence cs = .ok (token, rest)) :
    ∃ body, token = .dollarString tag (String.ofList body) ∧
      ∀ shown, fencedString fault tag fence (body ++ fence ++ shown) = .ok (token, shown) := by
  unfold fencedString at h
  split at h
  · next body hbody =>
    cases h
    obtain ⟨-, hagain⟩ := fencedBody?_eq_some hfence hbody
    refine ⟨body.1, rfl, fun shown ↦ ?_⟩
    rw [fencedString, hagain]
  · cases h

private theorem question?_again : Scanner.Again question? := by
  intro lexicon c cs token rest back shown _ h hback halike hfits
  unfold question? at h ⊢
  split at h
  · next hc =>
    subst hc
    rw [if_pos rfl]
    split at h
    · next hflag =>
      rw [if_pos hflag]
      split at h
      · cases h
        obtain rfl : ['|'] = back := (List.cons_eq_cons.1 hback).2
        rfl
      · cases h
        obtain rfl : ['&'] = back := (List.cons_eq_cons.1 hback).2
        rfl
      · cases h
        obtain rfl : [] = back := (List.cons_eq_cons.1 hback).2
        -- A lone question mark would take the first character along.
        cases shown with
        | nil => rfl
        | cons d ds => simp [Token.fits, Token.absorbs, Token.ofSymbolText, hflag] at hfits
    · next hflag =>
      rw [if_neg hflag]
      cases h
      obtain rfl : cs.takeWhile Text.isNumeric = back := by simpa [Token.render] using hback
      obtain ⟨htake, hdrop⟩ := ShownLike.takeWhile stops_isNumeric halike
      rw [htake, hdrop]
  · cases h

private theorem taggedString_again {cs rest back shown : List Char} {token : Token}
    (h : taggedString cs = .ok (token, rest)) (hdouble : cs.head? ≠ some '$')
    (hback : token.render.toList = '$' :: back) (halike : ShownLike rest shown) :
    taggedString (back ++ shown) = .ok (token, shown) ∧ (back ++ shown).head? ≠ some '$' := by
  have hdollar : isTagPart '$' = false := by decide
  unfold taggedString at h
  split at h
  · next inner hinner =>
    have hcs := List.takeWhile_append_dropWhile (p := isTagPart) (l := cs)
    have htag : ∀ c ∈ cs.takeWhile isTagPart, isTagPart c = true :=
      List.all_eq_true.1 List.all_takeWhile
    rw [hinner] at hcs
    generalize cs.takeWhile isTagPart = tag at h hcs htag
    obtain ⟨body, rfl, hagain⟩ := fencedString_again (by simp) h
    obtain rfl : tag ++ '$' :: (body ++ '$' :: (tag ++ ['$'])) = back := by
      simpa [Token.render] using hback
    rw [List.append_assoc]
    -- The tag ends at the same dollar sign as before, and the fence after it is the same.
    constructor
    · have hfound (after : List Char) : (tag ++ '$' :: after).takeWhile isTagPart = tag ∧
          (tag ++ '$' :: after).dropWhile isTagPart = '$' :: after := by
        rw [List.takeWhile_append_of_pos htag, List.dropWhile_append_of_pos htag]
        simp [hdollar]
      rw [taggedString, List.cons_append, (hfound _).1, (hfound _).2]
      have hshown := hagain shown
      simp only [List.append_assoc, List.cons_append] at hshown ⊢
      exact hshown
    · cases tag with
      | nil => exact absurd (by rw [← hcs]; rfl) hdouble
      | cons c tag =>
        rintro ⟨⟩
        exact Bool.noConfusion (hdollar.symm.trans (htag '$' List.mem_cons_self))
  · next hopen =>
    cases h
    obtain rfl : cs.takeWhile isTagPart = back := by simpa [Token.render] using hback
    obtain ⟨htake, hdrop⟩ := ShownLike.takeWhile stops_isTagPart halike
    -- A dollar sign is shown as itself only, so none follows the name of the placeholder.
    have hshown : ∀ more, shown = '$' :: more → False := by
      rintro more rfl
      obtain ⟨after, hafter, -⟩ := halike.exists_cons (by decide)
      exact hopen after hafter
    constructor
    · unfold taggedString
      rw [hdrop]
      split
      · next more => exact (hshown more rfl).elim
      · rw [dollarPlaceholder, htake, hdrop]
    · intro hhead
      obtain ⟨more, hmore⟩ := List.head?_eq_some_iff.1 hhead
      rw [hmore, List.dropWhile_cons_of_neg (by simp [hdollar])] at hdrop
      exact hshown more hdrop.symm

private theorem dollar?_again : Scanner.Again dollar? := by
  intro lexicon c cs token rest back shown _ h hback halike _
  unfold dollar? at h ⊢
  split at h
  · next hc =>
    subst hc
    rw [if_pos rfl]
    split at h
    · next hflag =>
      rw [if_pos hflag, dollarPlaceholder_again stops_isTagPart_or_dollar (Option.some.inj h) hback
        halike]
    · next hflag =>
      rw [if_neg hflag]
      split at h
      · obtain ⟨body, rfl, hagain⟩ := fencedString_again (by simp) (Option.some.inj h)
        obtain rfl : '$' :: (body ++ ['$', '$']) = back := by simpa [Token.render] using hback
        exact congrArg some (hagain shown)
      · next hdouble =>
        have hhead : cs.head? ≠ some '$' := by
          intro hhead
          obtain ⟨more, rfl⟩ := List.head?_eq_some_iff.1 hhead
          exact hdouble more rfl
        obtain ⟨hagain, hnot⟩ := taggedString_again (Option.some.inj h) hhead hback halike
        split
        · next heq => exact absurd (by rw [heq]; rfl) hnot
        · rw [hagain]
  · cases h

/-! ### Comments -/

private theorem lineBody_again {endsLine : Char → Bool} {inner shown : List Char}
    (h : ShownLike (lineBody endsLine inner).2 shown) :
    lineBody endsLine ((lineBody endsLine inner).1 ++ shown) =
      ((lineBody endsLine inner).1, shown) := by
  refine (lineBody_eq endsLine inner).2 shown fun hend ↦ ?_
  rw [hend] at h
  exact h.eq_nil

private theorem comment?_again : Scanner.Again comment? := by
  intro lexicon c cs token rest back shown _ h hback halike _
  unfold comment? at h
  dsimp only at h
  split at h
  · next inner =>
    cases h
    obtain rfl : '-' :: (lineBody _ inner).1 = back := by
      simpa [Token.render, Blank.render] using hback
    show some (Except.ok
      (Token.blank (.lineComment "--" (String.ofList (lineBody _ (_ ++ shown)).1)),
        (lineBody _ (_ ++ shown)).2)) = _
    rw [lineBody_again halike]
  · next inner =>
    split at h
    · next hflag =>
      cases h
      obtain rfl : (lineBody _ cs).1 = back := by
        simpa [Token.render, Blank.render] using hback
      show (if lexicon.hashComments then some (Except.ok (Token.blank (.lineComment "#"
        (String.ofList (lineBody _ (_ ++ shown)).1)), (lineBody _ (_ ++ shown)).2)) else none) = _
      rw [if_pos hflag, lineBody_again halike]
    · cases h
  · next inner =>
    split at h
    · next body hbody =>
      cases h
      obtain ⟨-, hagain⟩ := commentBody?_eq_some hbody
      obtain rfl : '*' :: (body.1 ++ ['*', '/']) = back := by
        simpa [Token.render, Blank.render] using hback
      have hread : commentBody? lexicon.nestedComments 0 (body.1 ++ ['*', '/'] ++ shown) =
          some (body.1, shown) := by
        rw [List.append_assoc]
        exact hagain shown
      rw [List.cons_append]
      simp only [comment?, hread]
    · cases h
  · cases h

/-! ### Symbols -/

/-- The characters that an extensible symbol goes on over. -/
def tailOf (lexicon : Lexicon) (operator : Operator) (rest : List Char) : List Char :=
  if operator.extensible && lexicon.customOperators then rest.takeWhile isOperatorPart else []

/-- A symbol goes on over its tail. -/
theorem extend_eq (lexicon : Lexicon) (operator : Operator) (rest : List Char) :
    extend lexicon operator rest =
      (.ofSymbolText (if tailOf lexicon operator rest = [] then operator.shown
        else operator.text ++ String.ofList (tailOf lexicon operator rest)),
        rest.drop (tailOf lexicon operator rest).length) := rfl

/-- How a symbol is shown with its tail, if it is shown as it is written. -/
theorem toList_render_extend {operator : Operator} (hshown : operator.shown = operator.text)
    (lexicon : Lexicon) (rest : List Char) : (extend lexicon operator rest).1.render.toList =
      operator.text.toList ++ tailOf lexicon operator rest := by
  rw [extend_eq, Token.render_ofSymbolText]
  split
  · next htail => rw [htail, hshown, List.append_nil]
  · rw [String.toList_append, String.toList_ofList]

private theorem tailOf_again {lexicon : Lexicon} {operator : Operator} {cs shown : List Char}
    (h : ShownLike (cs.drop (tailOf lexicon operator cs).length) shown) :
    tailOf lexicon operator (tailOf lexicon operator cs ++ shown) = tailOf lexicon operator cs := by
  unfold tailOf at h ⊢
  split at h
  · next hflag =>
    rw [if_pos hflag, if_pos hflag]
    rw [drop_length_takeWhile] at h
    exact (ShownLike.takeWhile stops_isOperatorPart h).1
  · next hflag => rw [if_neg hflag, if_neg hflag]

private theorem extend_again {lexicon : Lexicon} {operator : Operator} {cs shown rest : List Char}
    {token : Token} (h : extend lexicon operator cs = (token, rest))
    (halike : ShownLike rest shown) :
    extend lexicon operator (tailOf lexicon operator cs ++ shown) = (token, shown) := by
  rw [extend_eq] at h
  cases h
  rw [extend_eq, tailOf_again halike, List.drop_left]

private theorem symbols_pairwise (lexicon : Lexicon) : (symbols lexicon).Pairwise fun first second ↦
    first.text.toList.isPrefixOf second.text.toList = false := by
  unfold symbols
  split
  · decide +kernel
  · decide +kernel

private theorem exists_next_symbol (lexicon : Lexicon) : ∀ operator ∈ symbols lexicon,
    ∀ longer ∈ symbols lexicon, operator.text.toList.isPrefixOf longer.text.toList = true →
      operator.text.toList.length < longer.text.toList.length →
      ∃ next ∈ symbols lexicon, next.text.toList.isPrefixOf longer.text.toList = true ∧
        next.text.toList.length = operator.text.toList.length + 1 := by
  unfold symbols
  split
  · decide +kernel
  · decide +kernel

private theorem eq_of_getLast?_mem (lexicon : Lexicon) : ∀ operator ∈ symbols lexicon,
    operator.text.toList.getLast?.any replacements.contains = true →
      operator.text.toList.length = 1 ∨ operator.text = "<<" := by
  unfold symbols
  split
  · decide +kernel
  · decide +kernel

private theorem exists_next_before {lexicon : Lexicon} {operator earlier : Operator}
    {before after : List Operator} {shown : List Char}
    (hsymbols : symbols lexicon = before ++ operator :: after) (hearlier : earlier ∈ before)
    (hnot : ¬ earlier.text.toList <+: operator.text.toList)
    (hstands : earlier.text.toList <+: operator.text.toList ++ shown) :
    ∃ next ∈ before, ∃ e rest, next.text.toList = operator.text.toList ++ [e] ∧
      shown = e :: rest := by
  have hlt : operator.text.toList.length < earlier.text.toList.length := by
    refine Nat.lt_of_not_le fun hle ↦ hnot ?_
    exact List.prefix_of_prefix_length_le hstands (List.prefix_append _ _) hle
  have hbegins : operator.text.toList <+: earlier.text.toList :=
    List.prefix_of_prefix_length_le (List.prefix_append _ _) hstands (Nat.le_of_lt hlt)
  have hmem : operator ∈ symbols lexicon := hsymbols ▸ List.mem_append_right _ List.mem_cons_self
  have hearlierMem : earlier ∈ symbols lexicon := hsymbols ▸ List.mem_append_left _ hearlier
  obtain ⟨next, hnext, hfront, hlength⟩ := exists_next_symbol lexicon operator hmem earlier
    hearlierMem (List.isPrefixOf_iff_prefix.2 hbegins) hlt
  have hfound := (List.isPrefixOf_iff_prefix.1 hfront).trans hstands
  have hnextBegins : operator.text.toList <+: next.text.toList :=
    List.prefix_of_prefix_length_le (List.prefix_append _ _) hfound (by omega)
  -- No symbol stands behind one that it goes on over.
  have hnextBefore : next ∈ before := by
    have hpairwise := symbols_pairwise lexicon
    rw [hsymbols] at hnext hpairwise
    rcases List.mem_append.1 hnext with hnext | hnext
    · exact hnext
    · rcases List.mem_cons.1 hnext with rfl | hnext
      · omega
      · have hlater := (List.pairwise_cons.1 (List.pairwise_append.1 hpairwise).2.1).1 next hnext
        rw [List.isPrefixOf_iff_prefix.2 hnextBegins] at hlater
        cases hlater
  obtain ⟨tail, htail⟩ := hnextBegins
  obtain ⟨e, rfl⟩ : ∃ e, tail = [e] := by
    refine List.length_eq_one_iff.1 ?_
    rw [← htail, List.length_append] at hlength
    omega
  rw [← htail, List.prefix_append_right_inj] at hfound
  obtain ⟨rest, hrest⟩ := hfound
  exact ⟨next, hnextBefore, e, rest, htail.symm, hrest.symm⟩

private theorem exists_cons_of_next {lexicon : Lexicon} {operator next : Operator} {e : Char}
    {more shown : List Char} (hmem : operator ∈ symbols lexicon) (hnext : next ∈ symbols lexicon)
    (htext : next.text.toList = operator.text.toList ++ [e]) (halike : ShownLike more (e :: shown))
    (hless : operator.text = "<" → e = '<' → more.head? = some '<') :
    ∃ after, more = e :: after := by
  by_cases he : e ∈ replacements
  · have hlast : next.text.toList.getLast?.any replacements.contains = true := by
      rw [htext, List.getLast?_concat, Option.any_some]
      exact List.contains_iff_mem.2 he
    rcases eq_of_getLast?_mem lexicon next hnext hlast with hone | htwice
    · have hpos := operator_text_pos lexicon operator hmem
      rw [← String.length_toList] at hpos
      rw [htext, List.length_append, List.length_singleton] at hone
      omega
    · rw [htwice] at htext
      have hboth : operator.text.toList ++ [e] = ['<'] ++ ['<'] := htext.symm
      obtain ⟨hoperator, hsecond⟩ := List.append_inj' hboth rfl
      cases hsecond
      exact List.head?_eq_some_iff.1 (hless (String.toList_inj.1 hoperator) rfl)
  · obtain ⟨after, hafter, -⟩ := halike.exists_cons he
    exact ⟨after, hafter⟩

private theorem find?_symbol_again {lexicon : Lexicon} {operator : Operator}
    {more shown : List Char}
    (hfind : (symbols lexicon).find? (fun symbol ↦
      symbol.text.toList.isPrefixOf (operator.text.toList ++ more)) = some operator)
    (halike : ShownLike more shown)
    (hless : operator.text = "<" → shown.head? = some '<' → more.head? = some '<') :
    (symbols lexicon).find? (fun symbol ↦
      symbol.text.toList.isPrefixOf (operator.text.toList ++ shown)) = some operator := by
  obtain ⟨-, before, after, hsymbols, hbefore⟩ := List.find?_eq_some_iff_append.1 hfind
  have hmem : operator ∈ symbols lexicon := List.mem_of_find?_eq_some hfind
  have hnot (earlier : Operator) (hearlier : earlier ∈ before) :
      ¬ earlier.text.toList <+: operator.text.toList ++ more := by
    simpa [← List.isPrefixOf_iff_prefix] using hbefore earlier hearlier
  rw [List.find?_eq_some_iff_append]
  refine ⟨List.isPrefixOf_iff_prefix.2 (List.prefix_append _ _), before, after, hsymbols, ?_⟩
  intro earlier hearlier
  rw [Bool.not_eq_true', Bool.eq_false_iff, Ne, List.isPrefixOf_iff_prefix]
  intro hstands
  -- A symbol that stands here now would bring one that stood here before.
  obtain ⟨next, hnext, e, rest, htext, rfl⟩ := exists_next_before hsymbols hearlier
    (fun hshort ↦ hnot earlier hearlier (hshort.trans (List.prefix_append _ _))) hstands
  have hnextMem : next ∈ symbols lexicon := hsymbols ▸ List.mem_append_left _ hnext
  obtain ⟨behind, rfl⟩ := exists_cons_of_next hmem hnextMem htext halike
    fun hoperator he ↦ hless hoperator (congrArg some he)
  refine hnot next hnext ?_
  rw [htext, List.prefix_append_right_inj]
  exact List.prefix_append [e] behind

/-- The tail of a symbol is at the front of what follows the symbol. -/
theorem tailOf_append_drop (lexicon : Lexicon) (operator : Operator) (rest : List Char) :
    tailOf lexicon operator rest ++ rest.drop (tailOf lexicon operator rest).length = rest := by
  unfold tailOf
  split
  · exact prefix_append_drop (List.takeWhile_prefix _)
  · rfl

private theorem operator?_again : Scanner.Again operator? := by
  intro lexicon c cs token rest back shown _ h hback halike hfits
  obtain ⟨operator, more, hfind, hcs, hextend⟩ := operator?_eq_some h
  have hwritten : c :: cs = token.render.toList ++ rest := by
    rcases operator?_cases h with ⟨hbang, rfl⟩ | ⟨hwritten, -⟩
    · rw [Token.render_ofSymbolText] at hback
      obtain ⟨rfl, -⟩ := List.cons_eq_cons.1 hback
      exact absurd (List.cons_eq_cons.1 hbang).1 (by decide)
    · exact hwritten
  have hextended := hextend
  rw [extend_eq] at hextended
  obtain ⟨htoken, rfl⟩ := Prod.mk.inj hextended
  have htail := tailOf_append_drop lexicon operator more
  have hagain := extend_again hextend halike
  generalize tailOf lexicon operator more = tail at *
  have hrender : token.render.toList = operator.text.toList ++ tail := by
    have hboth : token.render.toList ++ more.drop tail.length =
        operator.text.toList ++ tail ++ more.drop tail.length := by
      rw [← hwritten, hcs, List.append_assoc, htail]
    exact List.append_cancel_right hboth
  have hinput : c :: (back ++ shown) = operator.text.toList ++ (tail ++ shown) := by
    rw [← List.cons_append, ← hback, hrender, List.append_assoc]
  have halikeMore : ShownLike more (tail ++ shown) := by
    rw [← htail]
    exact halike.append tail
  -- A `!=` behind `<` would be shown with a second `<`; that the tokens fit rules it out.
  have hless : operator.text = "<" → (tail ++ shown).head? = some '<' → more.head? = some '<' := by
    intro hoperator hhead
    cases tail with
    | cons d tail =>
      rw [← htail]
      exact hhead
    | nil =>
      rw [hoperator, List.append_nil, String.toList_inj] at hrender
      have hsymbol : token = .ofSymbolText "<" := by
        rw [← hrender, ← htoken, Token.render_ofSymbolText]
      obtain ⟨after, hafter⟩ := List.head?_eq_some_iff.1 hhead
      rw [List.nil_append] at hafter
      simp [hsymbol, hafter, Token.fits, Token.absorbs, Token.ofSymbolText] at hfits
  rw [hcs] at hfind
  have hfound := find?_symbol_again hfind halikeMore hless
  unfold operator? operatorAt?
  rw [hinput, hfound, Option.map_some, Option.map_some, ← String.length_toList, List.drop_left,
    hagain]

private theorem hash?_eq_extend {lexicon : Lexicon} (hstart : lexicon.startsWord '#' = false)
    (cs : List Char) : hash? lexicon '#' cs = some (.ok (extend lexicon ⟨"#", "#", true⟩ cs)) := by
  cases cs with
  | nil =>
    unfold extend
    cases lexicon.customOperators with
    | false => rfl
    | true => rfl
  | cons d more =>
    unfold hash?
    rw [if_pos rfl]
    dsimp only
    split
    · next hspace =>
      subst hspace
      unfold extend
      cases lexicon.customOperators with
      | false => rfl
      | true => rfl
    · rw [hstart]
      rfl

private theorem hash?_again : Scanner.Again hash? := by
  intro lexicon c cs token rest back shown hstops h hback halike _
  obtain ⟨hwritten, -⟩ := hash?_verbatim h
  by_cases hc : c = '#'
  · subst hc
    rw [hback, List.cons_append] at hwritten
    obtain ⟨-, hcs⟩ := List.cons_eq_cons.1 hwritten
    cases hstart : lexicon.startsWord '#' with
    | false =>
      rw [hash?_eq_extend hstart] at h ⊢
      have hextend := Except.ok.inj (Option.some.inj h)
      have hagain := extend_again hextend halike
      have htail := tailOf_append_drop lexicon ⟨"#", "#", true⟩ cs
      rw [extend_eq] at hextend
      obtain ⟨-, rfl⟩ := Prod.mk.inj hextend
      obtain rfl := List.append_cancel_right (htail.trans hcs)
      rw [hagain]
    | true =>
      unfold hash? at h
      rw [if_pos rfl] at h
      split at h
      · cases h
        obtain rfl := halike.eq_nil
        obtain rfl : [] = back := (List.cons_eq_cons.1 hback).2
        rfl
      · next d more =>
        split at h
        · next hspace =>
          -- A space follows the sign, and a space is shown as itself.
          subst hspace
          cases h
          obtain rfl : [] = back := (List.cons_eq_cons.1 hback).2
          cases shown with
          | nil => rfl
          | cons e after =>
            obtain ⟨c, more, heq, hhead⟩ := halike.exists_head
            cases heq
            obtain rfl := hhead.eq_of_mem (by decide)
            rfl
        · next hspace =>
          obtain ⟨tail, rfl, hagain⟩ := wordFrom_again hstops h hback halike
          unfold hash?
          rw [if_pos rfl, List.singleton_append, List.cons_append]
          dsimp only
          rw [if_neg hspace, if_pos hstart, hagain]
  · unfold hash? at h
    rw [if_neg hc] at h
    cases h

private theorem at?_single {lexicon : Lexicon} {d : Char} (hd : d ≠ '@') (more : List Char) :
    at? lexicon '@' (d :: more) =
      if d ∉ [' ', '\'', '"', '\x60'] ∧ lexicon.startsWord '@' = true then
        some (.ok (wordFrom lexicon ['@', d] more))
      else some (.ok (.ofSymbolText "@", d :: more)) := by
  unfold at?
  rw [if_pos rfl]
  split
  · next heq => cases heq
  · next heq => exact absurd (List.cons_eq_cons.1 heq).1 hd
  · next heq => exact absurd (List.cons_eq_cons.1 heq).1 hd
  · next heq =>
    cases heq
    rfl

private theorem at?_double {lexicon : Lexicon} (d : Char) (more : List Char) :
    at? lexicon '@' ('@' :: d :: more) =
      if d ≠ ' ' ∧ lexicon.startsWord '@' = true then
        some (.ok (wordFrom lexicon ['@', '@', d] more))
      else some (.ok (.ofSymbolText "@@", d :: more)) := rfl

private theorem at?_single_again {lexicon : Lexicon} (hstops : Stops lexicon.continuesWord)
    {d : Char}
    (hd : d ≠ '@') {more rest back shown : List Char} {token : Token}
    (h : at? lexicon '@' (d :: more) = some (.ok (token, rest)))
    (hback : token.render.toList = '@' :: back) (halike : ShownLike rest shown) :
    at? lexicon '@' (back ++ shown) = some (.ok (token, shown)) := by
  rw [at?_single hd] at h
  split at h
  · next hword =>
    obtain ⟨tail, rfl, hagain⟩ := wordFrom_again hstops h hback halike
    rw [List.append_assoc, List.singleton_append, at?_single hd, if_pos hword, hagain]
  · next hword =>
    cases h
    obtain rfl : [] = back := (List.cons_eq_cons.1 hback).2
    cases shown with
    | nil => rfl
    | cons f others =>
      obtain ⟨c, more, heq, hhead⟩ := halike.exists_head
      cases heq
      have hf : f ≠ '@' := by
        rintro rfl
        exact hd (hhead.eq (by decide))
      have hnot : ¬ (f ∉ [' ', '\'', '"', '\x60'] ∧ lexicon.startsWord '@' = true) := by
        rintro ⟨hlist, hstart⟩
        refine hword ⟨fun hmem ↦ hlist ?_, hstart⟩
        rwa [← hhead.eq_of_mem hmem]
      rw [List.nil_append, at?_single hf, if_neg hnot]

private theorem at?_double_again {lexicon : Lexicon} (hstops : Stops lexicon.continuesWord)
    {d : Char}
    {more rest back shown : List Char} {token : Token}
    (h : at? lexicon '@' ('@' :: d :: more) = some (.ok (token, rest)))
    (hback : token.render.toList = '@' :: back) (halike : ShownLike rest shown) :
    at? lexicon '@' (back ++ shown) = some (.ok (token, shown)) := by
  rw [at?_double] at h
  split at h
  · next hword =>
    obtain ⟨tail, rfl, hagain⟩ := wordFrom_again hstops h hback halike
    rw [List.append_assoc, List.cons_append, List.singleton_append, at?_double, if_pos hword,
      hagain]
  · next hword =>
    cases h
    obtain rfl : ['@'] = back := (List.cons_eq_cons.1 hback).2
    cases shown with
    | nil => rfl
    | cons f others =>
      obtain ⟨c, more, heq, hhead⟩ := halike.exists_head
      cases heq
      have hnot : ¬ (f ≠ ' ' ∧ lexicon.startsWord '@' = true) := by
        rintro ⟨hspace, hstart⟩
        refine hword ⟨?_, hstart⟩
        rintro rfl
        exact hspace (hhead.eq_of_mem (by decide)).symm
      rw [List.singleton_append, at?_double, if_neg hnot]

private theorem at?_again : Scanner.Again at? := by
  intro lexicon c cs token rest back shown hstops h hback halike _
  by_cases hc : c = '@'
  · subst hc
    cases cs with
    | nil =>
      cases h
      obtain rfl := halike.eq_nil
      obtain rfl : [] = back := (List.cons_eq_cons.1 hback).2
      rfl
    | cons d more =>
      by_cases hd : d = '@'
      · subst hd
        cases more with
        | nil =>
          cases h
          obtain rfl := halike.eq_nil
          obtain rfl : ['@'] = back := (List.cons_eq_cons.1 hback).2
          rfl
        | cons e after => exact at?_double_again hstops h hback halike
      · exact at?_single_again hstops hd h hback halike
  · unfold at? at h
    rw [if_neg hc] at h
    cases h

/-! ### Numbers -/

private theorem number?_again : Scanner.Again number? := by
  intro lexicon c cs token rest back shown hstops h hback halike _
  rcases number?_cases h with ⟨digits, hhex, rfl⟩ | ⟨hwritten, -⟩
  · rw [toList_render_string] at hback
    obtain ⟨rfl, -⟩ := List.cons_eq_cons.1 hback
    exact absurd (List.cons_eq_cons.1 hhex).1 (by decide)
  · unfold number? at h ⊢
    split at h
    · next hc =>
      have hat := Except.ok.inj (Option.some.inj h)
      have hcs : ∀ more, c :: cs ≠ '0' :: 'x' :: more := by
        intro more heq
        rw [heq] at hat
        cases hat
        rw [toList_render_string] at hback
        obtain ⟨rfl, -⟩ := List.cons_eq_cons.1 hback
        exact absurd (List.cons_eq_cons.1 heq).1 (by decide)
      have hagain := numberAt_again hstops hcs hat hwritten halike
      rw [hback] at hagain
      rw [if_pos hc, ← List.cons_append, hagain]
    · cases h

/-! ### All tokens -/

/-- A token without quotes is read again at once, or by the same scanner where its first character
stands again and a text that goes on alike. -/
def Scanner.Rescans (scanner : Scanner) : Prop :=
  ∀ lexicon c cs token rest shown, Stops lexicon.continuesWord →
    scanner lexicon c cs = some (.ok (token, rest)) → token.isBare = true → ShownLike rest shown →
    token.fits lexicon shown = true →
    Scans lexicon (token.render.toList ++ shown) token shown ∨
      ∃ ds, token.render.toList ++ shown = c :: ds ∧ ShownLike cs ds ∧
        scanner lexicon c ds = some (.ok (token, shown))

private theorem exists_back {c : Char} {cs front rest : List Char} (h : c :: cs = front ++ rest)
    (hshort : rest.length ≤ cs.length) : ∃ back, front = c :: back ∧ cs = back ++ rest := by
  cases front with
  | nil =>
    have hlength := congrArg List.length h
    simp only [List.length_cons, List.nil_append] at hlength
    omega
  | cons d back =>
    obtain ⟨rfl, rfl⟩ := List.cons_eq_cons.1 h
    exact ⟨back, rfl, rfl⟩

/-- A scanner that finds tokens again finds again those that it took as they are shown. -/
theorem Scanner.Again.rescan {scanner : Scanner} (hagain : scanner.Again)
    (hshortens : scanner.Shortens) {lexicon : Lexicon} (hstops : Stops lexicon.continuesWord)
    {c : Char} {cs : List Char} {token : Token} {rest shown : List Char}
    (h : scanner lexicon c cs = some (.ok (token, rest)))
    (hwritten : c :: cs = token.render.toList ++ rest) (halike : ShownLike rest shown)
    (hfits : token.fits lexicon shown = true) :
    ∃ ds, token.render.toList ++ shown = c :: ds ∧ ShownLike cs ds ∧
      scanner lexicon c ds = some (.ok (token, shown)) := by
  obtain ⟨back, hback, rfl⟩ := exists_back hwritten (hshortens _ _ _ _ _ h)
  refine ⟨back ++ shown, by rw [hback, List.cons_append], halike.append back, ?_⟩
  exact hagain _ _ _ _ _ _ _ hstops h hback halike hfits

private theorem Scanner.Again.rescans {scanner : Scanner} (hagain : scanner.Again)
    (hverbatim : scanner.Verbatim) (hshortens : scanner.Shortens) : scanner.Rescans := by
  intro lexicon c cs token rest shown hstops h _ halike hfits
  exact .inr (hagain.rescan hshortens hstops h (hverbatim h).1 halike hfits)

private theorem blank?_rescans : Scanner.Rescans blank? := by
  intro lexicon c cs token rest shown _ h _ _ _
  left
  unfold blank? at h
  split at h
  · cases h
    exact scans_cons_iff.2 rfl
  · cases h
    exact scans_cons_iff.2 rfl
  iterate 3
    · cases h
      exact scans_cons_iff.2 rfl
  · cases h

private theorem Scanner.Quotes.rescans {scanner : Scanner} (h : scanner.Quotes) :
    scanner.Rescans := by
  intro lexicon c cs token rest shown _ hscan hbare _ _
  rw [(h hscan).1] at hbare
  cases hbare

private theorem number?_rescans : Scanner.Rescans number? := by
  intro lexicon c cs token rest shown hstops h hbare halike hfits
  rcases number?_cases h with ⟨digits, -, rfl⟩ | ⟨hwritten, -⟩
  · cases hbare
  · exact .inr (number?_again.rescan number?_shortens hstops h hwritten halike hfits)

private theorem question?_rescans : Scanner.Rescans question? := by
  intro lexicon c cs token rest shown hstops h hbare halike hfits
  rcases question?_cases h with ⟨rfl, rfl, rfl, hflag⟩ | ⟨hwritten, -⟩
  · right
    have hnil : shown = [] := by
      cases shown with
      | nil => rfl
      | cons d ds => simp [Token.fits, Token.absorbs, Token.ofSymbolText, hflag] at hfits
    subst hnil
    exact ⟨[], rfl, .done _, question?_again _ _ _ _ _ [] _ hstops h rfl halike hfits⟩
  · exact .inr (question?_again.rescan question?_shortens hstops h hwritten halike hfits)

/-- Where a symbol starts with a star or the sign of an inequality, it is read. -/
theorem scan_symbol {lexicon : Lexicon} {operator : Operator} {c : Char} {cs : List Char}
    (hc : c ∈ ['*', '<', '?']) (hfind : (symbols lexicon).find? (fun operator ↦
      operator.text.toList.isPrefixOf (c :: cs)) = some operator) :
    scan lexicon c cs =
      .ok (extend lexicon operator ((c :: cs).drop operator.text.length)) := by
  refine scan_eq _ rfl (eq_none_before_symbols hc lexicon cs) ?_
  unfold operator? operatorAt?
  rw [hfind]
  rfl

/-- What is read where `<>` stands. -/
theorem scan_unequal (lexicon : Lexicon) (rest : List Char) :
    scan lexicon '<' ('>' :: rest) = .ok (extend lexicon ⟨"<>", "<>", true⟩ rest) := by
  refine @scan_symbol lexicon ⟨"<>", "<>", true⟩ _ _ (by decide) ?_
  unfold symbols
  split
  · rfl
  · rfl

/-- What is read where `<<` stands. -/
theorem scan_shift (lexicon : Lexicon) (rest : List Char) :
    scan lexicon '<' ('<' :: rest) = .ok (extend lexicon ⟨"<<", "<<", true⟩ rest) := by
  refine @scan_symbol lexicon ⟨"<<", "<<", true⟩ _ _ (by decide) ?_
  unfold symbols
  split
  · rfl
  · rfl

private theorem operator?_rescans : Scanner.Rescans operator? := by
  intro lexicon c cs token rest shown hstops h hbare halike hfits
  rcases operator?_cases h with ⟨-, rfl⟩ | ⟨hwritten, -⟩
  · left
    have htail : tailOf lexicon ⟨"<>", "<>", true⟩ shown = [] := by
      cases hcustom : lexicon.customOperators with
      | false => simp [tailOf, hcustom]
      | true =>
        cases shown with
        | nil => simp [tailOf]
        | cons d ds =>
          have hd : isOperatorPart d = false := by
            simpa [Token.fits, Token.isPlain, Token.absorbs, Token.ofSymbolText, hcustom]
              using hfits
          simp [tailOf, hd]
    have hscan := scan_unequal lexicon shown
    rw [extend_eq, htail] at hscan
    rw [Token.render_ofSymbolText]
    exact scans_cons_iff.2 hscan
  · exact .inr (operator?_again.rescan operator?_shortens hstops h hwritten halike hfits)

private theorem scanners_rescan : ∀ scanner ∈ scanners, scanner.Rescans := by
  simp only [scanners, List.forall_mem_cons, List.not_mem_nil, false_implies, implies_true,
    and_true]
  exact ⟨blank?_rescans, letterString?_quotes.rescans, string?_quotes.rescans,
    quotedWord?_quotes.rescans, number?_rescans,
    comment?_again.rescans comment?_verbatim comment?_shortens,
    operator?_rescans, hash?_again.rescans hash?_verbatim hash?_shortens,
    at?_again.rescans at?_verbatim at?_shortens, question?_rescans,
    word?_again.rescans word?_verbatim word?_shortens,
    dollar?_again.rescans dollar?_verbatim dollar?_shortens⟩

/-- A token is read again as it is shown, before a text like the one that followed it, if it fits
there. -/
theorem rescan {lexicon : Lexicon} (hstops : Stops lexicon.continuesWord) {c : Char}
    {cs : List Char} {token : Token} {rest shown : List Char}
    (h : scan lexicon c cs = .ok (token, rest)) (halike : ShownLike rest shown)
    (hfits : token.fits lexicon shown = true) :
    Scans lexicon (token.render.toList ++ shown) token shown := by
  cases hbare : token.isBare with
  | false =>
    obtain ⟨written, -, hspelled⟩ := scan_spelled h
    obtain ⟨hplain, hstop⟩ := (Token.fits_iff_of_quoted hbare shown).1 hfits
    exact Token.scans_of_isPlain hbare hspelled.legible hplain hstop
  | true =>
    unfold scan at h
    cases hfind : scanners.findSome? fun scanner ↦ scanner lexicon c cs with
    | none =>
      rw [hfind] at h
      cases h
      have hnone := List.findSome?_eq_none_iff.1 hfind
      rcases other_cases (hnone blank? (by simp [scanners])) with ⟨heq, -, -⟩ | heq
      · rw [heq]
        exact scans_cons_iff.2 rfl
      · have hnone' : scanners.findSome? (fun scanner ↦ scanner lexicon c shown) = none :=
          List.findSome?_eq_none_iff.2 fun scanner hmem ↦
            scanners_mute scanner hmem _ _ _ _ halike (hnone scanner hmem)
        have hrender : (other c).render.toList = [c] := by
          rw [heq, Token.render_ofSymbolText, String.toList_singleton]
        rw [hrender, List.singleton_append, scans_cons_iff, scan, hnone']
        rfl
    | some outcome =>
      rw [hfind, Option.getD_some] at h
      subst h
      obtain ⟨before, scanner, after, hscanners, hscan, hbefore⟩ :=
        List.findSome?_eq_some_iff.1 hfind
      have hmem : scanner ∈ scanners := hscanners ▸ by simp
      rcases scanners_rescan scanner hmem _ _ _ _ _ _ hstops hscan hbare halike hfits with
        hscans | ⟨ds, hds, halikeRest, hagain⟩
      · exact hscans
      · rw [hds, scans_cons_iff]
        refine scan_eq before hscanners (fun other hother ↦ ?_) hagain
        have hotherMem : other ∈ scanners := hscanners ▸ List.mem_append_left _ hother
        exact scanners_mute other hotherMem _ _ _ _ halikeRest (hbefore other hother)

end Lexer

end SqlFootprint
