import SqlFootprint.Proofs.Spellings

/-!
# Numbers before a text like the one that followed them

Digits, mantissas and exponents are read again before a text like the one that ended them, and so
is the number they make (`numberAt_again`). A letter that could mark an exponent marks none then
either: the `E` of a string is followed by its quote.
-/

namespace SqlFootprint

namespace Lexer

/-- What is left behind a run of characters. -/
theorem drop_length_takeWhile (p : Char → Bool) (cs : List Char) :
    cs.drop (cs.takeWhile p).length = cs.dropWhile p := by
  have hdrop := congrArg (List.drop (cs.takeWhile p).length)
    (List.takeWhile_append_dropWhile (p := p) (l := cs))
  rw [List.drop_left] at hdrop
  exact hdrop.symm

private theorem digitsOf_again {cs shown : List Char}
    (h : ShownLike (cs.drop (digitsOf cs).length) shown) :
    digitsOf (digitsOf cs ++ shown) = digitsOf cs := by
  rw [digitsOf, drop_length_takeWhile] at h
  exact (ShownLike.takeWhile stops_isDigit h).1

private theorem digitsOf_eq_nil {cs shown : List Char} (h : ShownLike cs shown)
    (hcs : digitsOf cs = []) :
    digitsOf shown = [] := by
  have hagain := @digitsOf_again cs shown (by rwa [hcs])
  rwa [hcs] at hagain

private theorem digitsOf_append_point (cs rest : List Char) :
    digitsOf (digitsOf cs ++ '.' :: rest) = digitsOf cs := by
  have hall : ∀ c ∈ digitsOf cs, c.isDigit = true := List.all_eq_true.1 List.all_takeWhile
  have hnil : digitsOf ('.' :: rest) = [] := rfl
  have happend := @List.takeWhile_append_of_pos _ _ _ ('.' :: rest) hall
  rwa [show ('.' :: rest).takeWhile Char.isDigit = [] from rfl, List.append_nil] at happend

private theorem mantissaOf_point {cs rest : List Char}
    (h : cs.drop (digitsOf cs).length = '.' :: rest) :
    mantissaOf cs = digitsOf cs ++ '.' :: digitsOf rest := by
  unfold mantissaOf
  dsimp only
  rw [h]
  rfl

private theorem mantissaOf_whole {cs : List Char}
    (h : ∀ rest, cs.drop (digitsOf cs).length ≠ '.' :: rest) : mantissaOf cs = digitsOf cs := by
  unfold mantissaOf
  dsimp only
  split
  · next rest heq => exact absurd heq (h rest)
  · rfl

private theorem mantissaOf_again {cs shown : List Char}
    (h : ShownLike (cs.drop (mantissaOf cs).length) shown) :
    mantissaOf (mantissaOf cs ++ shown) = mantissaOf cs := by
  by_cases hpoint : ∃ rest, cs.drop (digitsOf cs).length = '.' :: rest
  · obtain ⟨rest, hrest⟩ := hpoint
    have hdrop : cs.drop (mantissaOf cs).length = rest.drop (digitsOf rest).length := by
      have hcs := prefix_append_drop (List.takeWhile_prefix (l := cs) Char.isDigit)
      rw [mantissaOf_point hrest, List.length_append, ← List.drop_drop, hrest]
      rfl
    rw [hdrop] at h
    rw [mantissaOf_point hrest, List.append_assoc, List.cons_append]
    have hagain := @mantissaOf_point (digitsOf cs ++ '.' :: (digitsOf rest ++ shown))
      (digitsOf rest ++ shown) (by rw [digitsOf_append_point, List.drop_left])
    rw [hagain, digitsOf_append_point, digitsOf_again h]
  · have hnot : ∀ rest, cs.drop (digitsOf cs).length ≠ '.' :: rest := fun rest hrest ↦
      hpoint ⟨rest, hrest⟩
    rw [mantissaOf_whole hnot] at h ⊢
    have hdigits := digitsOf_again h
    rw [mantissaOf_whole, hdigits]
    rw [hdigits, List.drop_left]
    rintro rest rfl
    obtain ⟨more, hmore, -⟩ := h.exists_cons (by decide)
    exact hnot more hmore

/-- The characters that mark an exponent. -/
def isExponentMark (c : Char) : Bool := c == 'e' || c == 'E'

/-- The characters that sign an exponent. -/
def isSign (c : Char) : Bool := c == '+' || c == '-'

/-- A sign is no digit. -/
theorem isDigit_eq_false_of_isSign {c : Char} (h : isSign c = true) : c.isDigit = false := by
  rcases Bool.or_eq_true_iff.1 h with hc | hc
  · exact beq_iff_eq.1 hc ▸ by decide
  · exact beq_iff_eq.1 hc ▸ by decide

/-- No digits stand before a character that is none. -/
theorem digitsOf_cons_eq_nil_iff {c : Char} {cs : List Char} :
    digitsOf (c :: cs) = [] ↔ c.isDigit = false := by
  rw [digitsOf, List.takeWhile_cons]
  cases c.isDigit with
  | true => simp
  | false => simp

/-- An exponent is marked with its sign. -/
theorem exponentMark_cons_cons (c d : Char) (cs : List Char) :
    exponentMark (c :: d :: cs) =
      if isExponentMark c then if isSign d then [c, d] else [c] else [] := rfl

/-- At the end of a text, an exponent is marked alone. -/
theorem exponentMark_singleton (c : Char) :
    exponentMark [c] = if isExponentMark c then [c] else [] := rfl

/-- No exponent is marked by any other character. -/
theorem exponentMark_eq_nil_iff {c : Char} {cs : List Char} :
    exponentMark (c :: cs) = [] ↔ isExponentMark c = false := by
  cases hmark : isExponentMark c with
  | false =>
    cases cs with
    | nil => simp [exponentMark_singleton, hmark]
    | cons d more => simp [exponentMark_cons_cons, hmark]
  | true =>
    cases cs with
    | nil => simp [exponentMark_singleton, hmark]
    | cons d more =>
      rw [exponentMark_cons_cons, if_pos hmark]
      split
      · simp
      · simp

/-- An exponent has a mark and digits. -/
theorem exponentOf_eq {cs : List Char} (hmark : exponentMark cs ≠ [])
    (hdigits : digitsOf (cs.drop (exponentMark cs).length) ≠ []) :
    exponentOf cs = exponentMark cs ++ digitsOf (cs.drop (exponentMark cs).length) := by
  unfold exponentOf
  dsimp only
  rw [if_neg (by rintro (h | h) <;> contradiction)]

/-- There is no exponent without a mark or without digits. -/
theorem exponentOf_eq_nil {cs : List Char}
    (h : exponentMark cs = [] ∨ digitsOf (cs.drop (exponentMark cs).length) = []) :
    exponentOf cs = [] := by
  unfold exponentOf
  dsimp only
  rw [if_pos h]

private theorem exponentOf_alike {cs shown : List Char} (h : ShownLike cs shown)
    (hcs : exponentOf cs = []) : exponentOf shown = [] := by
  have hdigits : exponentMark cs ≠ [] → digitsOf (cs.drop (exponentMark cs).length) = [] := by
    intro hmark
    refine Classical.byContradiction fun hdigits ↦ ?_
    rw [exponentOf_eq hmark hdigits] at hcs
    exact hmark (List.append_eq_nil_iff.1 hcs).1
  -- A mark in front was written there, and behind it stand digits only if it had digits before; or
  -- it opens an escaped string, and a quotation mark stands behind it.
  cases h with
  | done => rfl
  | @apart c d cs ds hhead hopens hescaped =>
    cases hmark : isExponentMark d with
    | false => exact exponentOf_eq_nil (.inl (exponentMark_eq_nil_iff.2 hmark))
    | true =>
      rcases Bool.or_eq_true_iff.1 hmark with hd | hd
      · obtain rfl := beq_iff_eq.1 hd
        exact absurd (hopens (hhead.eq (by decide))) (hhead.eq (by decide) ▸ by decide)
      · obtain rfl := beq_iff_eq.1 hd
        obtain ⟨more, rfl⟩ := List.head?_eq_some_iff.1 (hescaped rfl)
        exact exponentOf_eq_nil (.inr rfl)
  | @same c cs ds h =>
    cases hmark : isExponentMark c with
    | false => exact exponentOf_eq_nil (.inl (exponentMark_eq_nil_iff.2 hmark))
    | true =>
      refine exponentOf_eq_nil (.inr ?_)
      have hdigits := hdigits (by rw [Ne, exponentMark_eq_nil_iff, hmark]; decide)
      cases ds with
      | nil =>
        rw [exponentMark_singleton, if_pos hmark]
        rfl
      | cons d more =>
        obtain ⟨b, after, rfl, hhead⟩ := h.exists_head
        rw [exponentMark_cons_cons, if_pos hmark] at hdigits ⊢
        cases hsign : isSign d with
        | true =>
          have hd : d ∉ replacements ∧ d ∉ delimiters := by
            rcases Bool.or_eq_true_iff.1 hsign with hd | hd
            · exact beq_iff_eq.1 hd ▸ by decide
            · exact beq_iff_eq.1 hd ▸ by decide
          obtain ⟨others, heq, hothers⟩ := h.exists_cons hd.1
          cases heq
          rw [if_pos hsign] at hdigits
          exact digitsOf_eq_nil (hothers hd.2) hdigits
        | false =>
          rw [if_neg Bool.false_ne_true]
          have hb : b.isDigit = false := by
            cases hbefore : isSign b with
            | true => exact isDigit_eq_false_of_isSign hbefore
            | false =>
              rw [if_neg (by rw [hbefore]; decide)] at hdigits
              exact digitsOf_cons_eq_nil_iff.1 hdigits
          exact digitsOf_cons_eq_nil_iff.2 (stops_isDigit _ _ hhead hb)

private theorem exponentMark_append {cs rest : List Char} (hmark : exponentMark cs ≠ [])
    (hrest : digitsOf rest ≠ []) : exponentMark (exponentMark cs ++ rest) = exponentMark cs := by
  obtain ⟨x, after, rfl, hx⟩ : ∃ x after, rest = x :: after ∧ isSign x = false := by
    cases rest with
    | nil => exact absurd rfl hrest
    | cons x after =>
      refine ⟨x, after, rfl, Bool.eq_false_iff.2 fun hsign ↦ hrest ?_⟩
      exact digitsOf_cons_eq_nil_iff.2 (isDigit_eq_false_of_isSign hsign)
  cases cs with
  | nil => exact absurd rfl hmark
  | cons c more =>
    have hc : isExponentMark c = true := by
      rwa [Ne, exponentMark_eq_nil_iff, Bool.not_eq_false] at hmark
    have halone : exponentMark (c :: x :: after) = [c] := by
      rw [exponentMark_cons_cons, if_pos hc, if_neg (by rw [hx]; decide)]
    cases more with
    | nil =>
      rw [exponentMark_singleton, if_pos hc]
      exact halone
    | cons d more =>
      rw [exponentMark_cons_cons, if_pos hc]
      split
      · next hd =>
        rw [List.cons_append, List.cons_append, exponentMark_cons_cons, if_pos hc, if_pos hd]
      · exact halone

private theorem exponentOf_again {cs shown : List Char}
    (h : ShownLike (cs.drop (exponentOf cs).length) shown) :
    exponentOf (exponentOf cs ++ shown) = exponentOf cs := by
  by_cases hmark : exponentMark cs = []
  · have hnil := exponentOf_eq_nil (.inl hmark)
    rw [hnil] at h ⊢
    exact exponentOf_alike h hnil
  · by_cases hdigits : digitsOf (cs.drop (exponentMark cs).length) = []
    · have hnil := exponentOf_eq_nil (.inr hdigits)
      rw [hnil] at h ⊢
      exact exponentOf_alike h hnil
    · have heq := exponentOf_eq hmark hdigits
      rw [heq, List.length_append, ← List.drop_drop] at h
      have hagain := digitsOf_again h
      rw [heq, List.append_assoc]
      generalize digitsOf (cs.drop (exponentMark cs).length) = digits at *
      have hfront := @exponentMark_append cs (digits ++ shown) hmark (by rwa [hagain])
      rw [exponentOf_eq, hfront, List.drop_left, hagain]
      · rwa [hfront]
      · rwa [hfront, List.drop_left, hagain]

private theorem numberAfter_again {mantissa cs rest shown : List Char} {token : Token}
    (h : numberAfter mantissa cs = (token, rest)) (halike : ShownLike rest shown) :
    ∃ tail, cs = tail ++ rest ∧ token.render.toList = mantissa ++ tail ∧
      numberAfter mantissa (tail ++ shown) = (token, shown) := by
  have hcs := prefix_append_drop (prefix_exponentOf cs)
  unfold numberAfter at h
  dsimp only at h
  split at h
  · next after hlong =>
    cases h
    have hagain := @exponentOf_again cs ('L' :: shown) (by rw [hlong]; exact .same 'L' halike)
    rw [hlong] at hcs
    refine ⟨exponentOf cs ++ ['L'], ?_, ?_, ?_⟩
    · rw [List.append_assoc]
      exact hcs.symm
    · simp [Token.render]
    · rw [List.append_assoc, List.singleton_append]
      unfold numberAfter
      dsimp only
      rw [hagain, List.drop_left]
      rfl
  · next hlong =>
    -- An `L` is shown only where one was written, so none stands behind the exponent now.
    cases h
    have hagain := exponentOf_again halike
    refine ⟨exponentOf cs, hcs.symm, ?_, ?_⟩
    · simp [Token.render]
    · unfold numberAfter
      dsimp only
      rw [hagain, List.drop_left]
      split
      · obtain ⟨more, hmore, -⟩ := halike.exists_cons (by decide)
        exact absurd hmore (hlong more)
      · rfl

private theorem isExponentMark_of_asShown {c d : Char} (h : AsShown c d)
    (hc : isExponentMark c = true) :
    isExponentMark d = true := by
  have hc : c ∈ ['e', 'E'] := by simpa [isExponentMark] using hc
  cases h with
  | same => simpa [isExponentMark] using hc
  | blank hblank =>
    have hall : ∀ c ∈ ['e', 'E'], Text.isBlank c = false := forall_mem_of_all (by decide)
    rw [hall c hc] at hblank
    cases hblank
  | carriageReturn => exact absurd hc (by decide)
  | bang => exact absurd hc (by decide)
  | zero => exact absurd hc (by decide)
  | letter =>
    have hall : ∀ c ∈ ['e', 'E'], isExponentMark c.toUpper = true :=
      forall_mem_of_all (by decide)
    exact hall c hc

private theorem numberOrWord_again {lexicon : Lexicon} (hstops : Stops lexicon.continuesWord)
    {mantissa cs rest shown : List Char} {token : Token}
    (h : numberOrWord lexicon mantissa cs = (token, rest)) (halike : ShownLike rest shown) :
    ∃ tail, cs = tail ++ rest ∧ token.render.toList = mantissa ++ tail ∧
      numberOrWord lexicon mantissa (tail ++ shown) = (token, shown) := by
  unfold numberOrWord at h
  dsimp only at h
  split at h
  · next hword =>
    cases h
    have hcs := prefix_append_drop (List.takeWhile_prefix (l := cs) lexicon.continuesWord)
    rw [drop_length_takeWhile] at halike hcs ⊢
    obtain ⟨htake, hdrop⟩ := ShownLike.takeWhile hstops halike
    refine ⟨cs.takeWhile lexicon.continuesWord, hcs.symm, String.toList_ofList, ?_⟩
    have hmark : exponentMark (cs.takeWhile lexicon.continuesWord ++ shown) = [] := by
      obtain ⟨d, more, hd⟩ := List.exists_cons_of_ne_nil hword.2.2
      have hfirst := hword.2.1
      rw [← hcs, hd, List.cons_append, exponentMark_eq_nil_iff] at hfirst
      rwa [hd, List.cons_append, exponentMark_eq_nil_iff]
    unfold numberOrWord
    dsimp only
    rw [htake, if_pos ⟨hword.1, hmark, hword.2.2⟩, List.drop_left]
  · next hnumber =>
    obtain ⟨tail, rfl, hrender, hagain⟩ := numberAfter_again h halike
    refine ⟨tail, rfl, hrender, ?_⟩
    have hboth := halike.append tail
    unfold numberOrWord
    dsimp only
    rw [if_neg, hagain]
    -- Were the rest a word when read again, it had been one the first time.
    rintro ⟨hnumeric, hmark, hword⟩
    cases hshown : tail ++ shown with
    | nil => exact hword (by rw [hshown]; rfl)
    | cons d ds =>
      rw [hshown] at hboth hmark hword
      obtain ⟨c, more, hcs, hhead⟩ := hboth.exists_head
      refine hnumber ⟨hnumeric, ?_, fun hnil ↦ hword ?_⟩
      · rw [hcs, exponentMark_eq_nil_iff, Bool.eq_false_iff]
        intro hc
        rw [exponentMark_eq_nil_iff, isExponentMark_of_asShown hhead hc] at hmark
        cases hmark
      · have hc : lexicon.continuesWord c = false := by
          rw [hcs] at hnil
          exact Bool.eq_false_iff.2 fun hc ↦ by simp [hc] at hnil
        simp [hstops _ _ hhead hc]

private theorem numberAt_eq {cs : List Char} (lexicon : Lexicon)
    (h : ∀ rest, cs ≠ '0' :: 'x' :: rest) :
    numberAt lexicon cs = if mantissaOf cs = ['.'] then (.period, cs.drop 1)
      else numberOrWord lexicon (mantissaOf cs) (cs.drop (mantissaOf cs).length) := by
  unfold numberAt
  split
  · next rest => exact absurd rfl (h rest)
  · rfl

/-- A number is read again before what ends it. -/
theorem numberAt_again {lexicon : Lexicon} (hstops : Stops lexicon.continuesWord)
    {cs rest shown : List Char} {token : Token} (hcs : ∀ more, cs ≠ '0' :: 'x' :: more)
    (h : numberAt lexicon cs = (token, rest)) (hwritten : cs = token.render.toList ++ rest)
    (halike : ShownLike rest shown) :
    numberAt lexicon (token.render.toList ++ shown) = (token, shown) := by
  have hshown : ∀ more, token.render.toList ++ shown ≠ '0' :: 'x' :: more := by
    intro more heq
    have hboth := halike.append token.render.toList
    rw [← hwritten, heq] at hboth
    obtain ⟨after, hafter, hsecond⟩ := hboth.exists_cons (by decide)
    obtain ⟨others, rfl, -⟩ := (hsecond (by decide)).exists_cons (by decide)
    exact hcs others hafter
  rw [numberAt_eq lexicon hcs] at h
  split at h
  · next hperiod =>
    cases h
    have hagain : mantissaOf ('.' :: shown) = ['.'] := by
      have hmantissa := @mantissaOf_again cs shown (by rw [hperiod]; exact halike)
      rwa [hperiod] at hmantissa
    rw [numberAt_eq lexicon hshown]
    exact if_pos hagain
  · next hnumber =>
    obtain ⟨tail, htail, hrender, hagain⟩ := numberOrWord_again hstops h halike
    have hmantissa : mantissaOf (mantissaOf cs ++ (tail ++ shown)) = mantissaOf cs := by
      refine mantissaOf_again ?_
      rw [htail]
      exact halike.append tail
    rw [numberAt_eq lexicon hshown, hrender, List.append_assoc, hmantissa, if_neg hnumber,
      List.drop_left, hagain]

end Lexer

end SqlFootprint
