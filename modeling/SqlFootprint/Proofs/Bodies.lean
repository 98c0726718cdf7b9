import SqlFootprint.Lexer

/-!
# Reading bodies again

What a reader of bodies takes off the input, and when it reads a body as it is written. A body
between quotes is read as it is only if no quote and no escape stands in it (`ReadsQuoted`), the
text before a fence always (`fencedBody?_eq_some`), and so are comments (`commentBody?_eq_some`,
`lineBody_eq`).
-/

namespace SqlFootprint.Lexer

/-! ### Bodies between quotes -/

/-- A body and its closing quote are taken off the characters, and more where the body has a
mark. -/
def Takes (marked : Char → Bool) (cs : List Char) (body : Body) : Prop :=
  ∃ taken, cs = taken ++ body.2 ∧ body.1.length + 1 ≤ taken.length ∧
    (body.1.any marked = true → body.1.length + 1 < taken.length)

namespace Takes

variable {marked : Char → Bool} {c : Char} {cs rest : List Char} {body : Body}

/-- The closing quote alone. -/
theorem quote : Takes marked (c :: rest) ([], rest) := ⟨[c], rfl, Nat.le_refl _, nofun⟩

/-- One more character that stands for itself. -/
theorem cons (h : Takes marked cs body) (hc : marked c = false) :
    Takes marked (c :: cs) (body.cons c) := by
  obtain ⟨taken, rfl, hle, hlt⟩ := h
  refine ⟨c :: taken, rfl, Nat.succ_le_succ hle, fun hmarked ↦ ?_⟩
  rw [Body.cons, List.any_cons, hc, Bool.false_or] at hmarked
  exact Nat.succ_lt_succ (hlt hmarked)

/-- One more character, written with two characters or more. -/
theorem escape (h : Takes marked rest body) (hsuffix : rest <:+ cs)
    (hlength : rest.length + 2 ≤ cs.length) : Takes marked cs (body.cons c) := by
  obtain ⟨taken, rfl, hle, -⟩ := h
  obtain ⟨written, rfl⟩ := hsuffix
  have hlt : (body.cons c).1.length + 1 < (written ++ taken).length := by
    simp only [List.length_append, Body.cons, List.length_cons] at hlength ⊢
    omega
  exact ⟨written ++ taken, (List.append_assoc _ _ _).symm, Nat.le_of_lt hlt, fun _ ↦ hlt⟩

end Takes

/-- A reader of bodies up to a quote. It stops before no further quote, and reads a body without
marks as it is. -/
structure ReadsQuoted (read : List Char → Option Body) (quote : Char) (marked : Char → Bool) :
    Prop where
  takes : ∀ {cs body}, read cs = some body → Takes marked cs body
  stops : ∀ {cs body}, read cs = some body → body.2.head? ≠ some quote
  plain : ∀ {inner rest}, inner.any marked = false → rest.head? ≠ some quote →
    read (inner ++ quote :: rest) = some (inner, rest)

/-- A body is read again as it is shown exactly if it has no mark and no further quote follows. -/
theorem ReadsQuoted.reread_iff {read : List Char → Option Body} {quote : Char}
    {marked : Char → Bool} (h : ReadsQuoted read quote marked) {body rest : List Char} :
    read (body ++ quote :: rest) = some (body, rest) ↔
      body.any marked = false ∧ rest.head? ≠ some quote := by
  constructor
  · intro hread
    refine ⟨Bool.eq_false_iff.2 fun hmarked ↦ ?_, h.stops hread⟩
    obtain ⟨taken, htaken, -, hlt⟩ := h.takes hread
    have hlength := congrArg List.length htaken
    have hlonger := hlt hmarked
    simp only [List.length_append, List.length_cons] at hlength hlonger
    omega
  · exact fun ⟨hplain, hstop⟩ ↦ h.plain hplain hstop

/-- The characters that are not read as they are in a string with the given quote. -/
def isMark (quote : Char) (escapes : Bool) (c : Char) : Bool :=
  c == quote || (escapes && c == '\\')

private theorem quotedBody?_cons {quote : Char} {escapes : Bool} {c : Char} {cs : List Char}
    (hc : isMark quote escapes c = false) (hcs : cs ≠ []) :
    quotedBody? quote escapes (c :: cs) = (quotedBody? quote escapes cs).map (.cons c) := by
  obtain ⟨hquote, hescape⟩ := Bool.or_eq_false_iff.1 hc
  cases cs with
  | nil => exact absurd rfl hcs
  | cons d rest =>
    rw [quotedBody?, if_neg (beq_eq_false_iff_ne.1 hquote), if_neg (by simp [hescape])]

/-- Quoted bodies are read up to their quote. -/
theorem readsQuoted_quotedBody? (quote : Char) (escapes : Bool) :
    ReadsQuoted (quotedBody? quote escapes) quote (isMark quote escapes) where
  takes {cs body} h := by
    fun_induction quotedBody? quote escapes cs generalizing body with
    | case1 => cases h
    | case2 =>
      cases h
      exact .quote
    | case3 => cases h
    | case4 rest ih =>
      obtain ⟨inner, hinner, rfl⟩ := Option.map_eq_some_iff.1 h
      exact (ih hinner).escape ⟨[quote, quote], rfl⟩ (Nat.le_refl _)
    | case5 =>
      cases h
      exact .quote
    | case6 c d rest _ _ ih =>
      obtain ⟨inner, hinner, rfl⟩ := Option.map_eq_some_iff.1 h
      exact (ih hinner).escape ⟨[c, d], rfl⟩ (Nat.le_refl _)
    | case7 c d rest hquote hescape ih =>
      obtain ⟨inner, hinner, rfl⟩ := Option.map_eq_some_iff.1 h
      refine (ih hinner).cons ?_
      rw [isMark, Bool.eq_false_iff.2 hescape, Bool.or_false]
      exact beq_eq_false_iff_ne.2 hquote
  stops {cs body} h := by
    fun_induction quotedBody? quote escapes cs generalizing body with
    | case1 => cases h
    | case2 =>
      cases h
      exact (Option.some_ne_none quote).symm
    | case3 => cases h
    | case4 rest ih =>
      obtain ⟨inner, hinner, rfl⟩ := Option.map_eq_some_iff.1 h
      exact @ih inner hinner
    | case5 d rest hne =>
      cases h
      simpa using hne
    | case6 c d rest _ _ ih =>
      obtain ⟨inner, hinner, rfl⟩ := Option.map_eq_some_iff.1 h
      exact @ih inner hinner
    | case7 c d rest _ _ ih =>
      obtain ⟨inner, hinner, rfl⟩ := Option.map_eq_some_iff.1 h
      exact @ih inner hinner
  plain {inner rest} hinner hrest := by
    induction inner with
    | nil =>
      cases rest with
      | nil => simp [quotedBody?]
      | cons d rest =>
        have hne : d ≠ quote := by simpa using hrest
        simp [quotedBody?, hne]
    | cons c inner ih =>
      rw [List.any_cons, Bool.or_eq_false_iff] at hinner
      rw [List.cons_append, quotedBody?_cons hinner.1 (by simp), ih hinner.2]
      rfl

/-- A quote at the front of a body without escapes was doubled. -/
theorem prefix_of_quotedBody?_cons {quote : Char} {cs inner rest : List Char}
    (h : quotedBody? quote false cs = some (quote :: inner, rest)) : [quote, quote] <+: cs := by
  unfold quotedBody? at h
  split at h
  · cases h
  · split at h
    · cases h
    · cases h
  · next c d more =>
    split at h
    · next hc =>
      split at h
      · next hd =>
        subst hc hd
        exact List.prefix_append [d, d] more
      · cases h
    · next hc =>
      rw [if_neg (by simp)] at h
      obtain ⟨body, -, hbody⟩ := Option.map_eq_some_iff.1 h
      exact absurd (List.cons_eq_cons.1 (congrArg Prod.fst hbody)).1 hc

private theorem escape?_suffix {cs : List Char} {c : Char} {rest : List Char}
    (h : escape? cs = some (c, rest)) : rest <:+ cs := by
  have hpoint {width : Nat} {cs : List Char} (h : codePoint? width cs = some (c, rest)) :
      rest <:+ cs := by
    unfold codePoint? at h
    split at h
    · cases h
    · obtain ⟨d, -, hd⟩ := Option.map_eq_some_iff.1 h
      cases hd
      exact List.drop_suffix _ _
  have hdigits {found : Option Char} {count : Nat} {cs : List Char}
      (h : found.map (fun c ↦ (c, cs.drop count)) = some (c, rest)) : rest <:+ cs := by
    obtain ⟨d, -, hd⟩ := Option.map_eq_some_iff.1 h
    cases hd
    exact List.drop_suffix _ _
  unfold escape? at h
  split at h
  · cases h
  iterate 5
    · cases h
      exact List.suffix_cons _ _
  · exact (hpoint h).trans (List.suffix_cons _ _)
  · exact (hpoint h).trans (List.suffix_cons _ _)
  · unfold hexEscape? at h
    dsimp only at h
    split at h
    · cases h
      exact List.suffix_cons _ _
    · exact (hdigits h).trans (List.suffix_cons _ _)
  · split at h
    · exact (hdigits h).trans (List.suffix_cons _ _)
    · cases h
      exact List.suffix_cons _ _

/-- Bodies of `E` strings are read up to their quote. -/
theorem readsQuoted_escapedBody? : ReadsQuoted escapedBody? '\'' (isMark '\'' true) where
  takes {cs body} h := by
    fun_induction escapedBody? cs generalizing body with
    | case1 => cases h
    | case2 rest ih =>
      obtain ⟨inner, hinner, rfl⟩ := Option.map_eq_some_iff.1 h
      exact (ih hinner).escape ⟨['\'', '\''], rfl⟩ (Nat.le_refl _)
    | case3 rest =>
      cases h
      exact .quote
    | case4 => cases h
    | case5 cs c rest hescape hrest _ ih =>
      obtain ⟨inner, hinner, rfl⟩ := Option.map_eq_some_iff.1 h
      refine (ih hinner).escape ((escape?_suffix hescape).trans (List.suffix_cons _ _)) ?_
      simp only [List.length_cons]
      omega
    | case6 => cases h
    | case7 c rest hdouble hquote hescape ih =>
      obtain ⟨inner, hinner, rfl⟩ := Option.map_eq_some_iff.1 h
      refine (ih hinner).cons ?_
      rw [isMark, Bool.or_eq_false_iff, Bool.true_and]
      exact ⟨beq_eq_false_iff_ne.2 hquote, beq_eq_false_iff_ne.2 hescape⟩
  stops {cs body} h := by
    fun_induction escapedBody? cs generalizing body with
    | case1 => cases h
    | case2 rest ih =>
      obtain ⟨inner, hinner, rfl⟩ := Option.map_eq_some_iff.1 h
      exact @ih inner hinner
    | case3 rest hdouble =>
      cases h
      intro heq
      obtain ⟨more, hmore⟩ := List.head?_eq_some_iff.1 heq
      exact hdouble more hmore
    | case4 => cases h
    | case5 cs c rest _ _ _ ih =>
      obtain ⟨inner, hinner, rfl⟩ := Option.map_eq_some_iff.1 h
      exact @ih inner hinner
    | case6 => cases h
    | case7 c rest _ _ _ ih =>
      obtain ⟨inner, hinner, rfl⟩ := Option.map_eq_some_iff.1 h
      exact @ih inner hinner
  plain {inner rest} hinner hrest := by
    induction inner with
    | nil =>
      cases rest with
      | nil => simp [escapedBody?]
      | cons d rest =>
        have hne : d ≠ '\'' := by simpa using hrest
        simp [escapedBody?, hne]
    | cons c inner ih =>
      rw [List.any_cons, Bool.or_eq_false_iff] at hinner
      have hc : c ≠ '\'' ∧ c ≠ '\\' := by simpa [isMark] using hinner.1
      rw [List.cons_append, escapedBody?, ih hinner.2]
      · rfl
      · simp [hc.1]
      · simp [hc.1]
      · simp [hc.2]

private theorem hexCode_taken {digits value : Nat} {cs : List Char} {c : Char} {rest : List Char}
    (h : hexCode digits value cs = .ok (c, rest)) :
    ∃ taken, cs = taken ++ rest ∧ taken.length = digits := by
  fun_induction hexCode digits value cs with
  | case1 =>
    cases h
    exact ⟨[], rfl, rfl⟩
  | case2 => cases h
  | case3 => cases h
  | case4 _ _ c _ _ _ ih =>
    obtain ⟨taken, rfl, hlength⟩ := ih h
    exact ⟨c :: taken, rfl, congrArg Nat.succ hlength⟩
  | case5 => cases h

/-- A character was put before a body that has no fault. -/
theorem exists_of_map_ok {c : Char} {inner : Except Halt Body} {body : Body}
    (h : inner.map (.cons c) = .ok body) : ∃ b, inner = .ok b ∧ body = b.cons c := by
  cases inner with
  | error halt => cases h
  | ok b =>
    cases h
    exact ⟨b, rfl, rfl⟩

/-- Bodies without fault are found. -/
theorem toOption_eq_some_iff {read : Except Halt Body} {body : Body} :
    read.toOption = some body ↔ read = .ok body := by
  cases read with
  | error halt => exact ⟨nofun, nofun⟩
  | ok b => exact ⟨fun h ↦ congrArg _ (Option.some.inj h), fun h ↦ by rw [h]; rfl⟩

private theorem unicodeBody_takes {cs : List Char} {body : Body} (h : unicodeBody cs = .ok body) :
    Takes (isMark '\'' true) cs body := by
  fun_induction unicodeBody cs generalizing body with
  | case1 => cases h
  | case2 rest ih =>
    obtain ⟨inner, hinner, rfl⟩ := exists_of_map_ok h
    exact (ih hinner).escape ⟨['\'', '\''], rfl⟩ (Nat.le_refl _)
  | case3 rest =>
    cases h
    exact .quote
  | case4 rest ih =>
    obtain ⟨inner, hinner, rfl⟩ := exists_of_map_ok h
    exact (ih hinner).escape ⟨['\\', '\\'], rfl⟩ (Nat.le_refl _)
  | case5 cs c rest hcode _ ih =>
    obtain ⟨inner, hinner, rfl⟩ := exists_of_map_ok h
    obtain ⟨taken, rfl, -⟩ := hexCode_taken hcode
    refine (ih hinner).escape ⟨'\\' :: '+' :: taken, rfl⟩ ?_
    simp only [List.length_cons, List.length_append]
    omega
  | case6 => cases h
  | case7 cs _ _ c rest hcode _ ih =>
    obtain ⟨inner, hinner, rfl⟩ := exists_of_map_ok h
    obtain ⟨taken, rfl, hlength⟩ := hexCode_taken hcode
    refine (ih hinner).escape ⟨'\\' :: taken, rfl⟩ ?_
    simp only [List.length_cons, List.length_append]
    omega
  | case8 => cases h
  | case9 c rest _ hquote _ _ hescape ih =>
    obtain ⟨inner, hinner, rfl⟩ := exists_of_map_ok h
    refine (ih hinner).cons ?_
    rw [isMark, Bool.or_eq_false_iff, Bool.true_and]
    exact ⟨beq_eq_false_iff_ne.2 hquote, beq_eq_false_iff_ne.2 hescape⟩

private theorem unicodeBody_stops {cs : List Char} {body : Body} (h : unicodeBody cs = .ok body) :
    body.2.head? ≠ some '\'' := by
  fun_induction unicodeBody cs generalizing body with
  | case1 => cases h
  | case3 rest hdouble =>
    cases h
    intro heq
    obtain ⟨more, hmore⟩ := List.head?_eq_some_iff.1 heq
    exact hdouble more hmore
  | case6 => cases h
  | case8 => cases h
  | case2 _ ih | case4 _ ih | case5 _ _ _ _ _ ih | case7 _ _ _ _ _ _ _ ih
  | case9 _ _ _ _ _ _ _ ih =>
    obtain ⟨inner, hinner, rfl⟩ := exists_of_map_ok h
    exact @ih inner hinner

/-- Bodies of `U&` strings are read up to their quote. -/
theorem readsQuoted_unicodeBody :
    ReadsQuoted (fun cs ↦ (unicodeBody cs).toOption) '\'' (isMark '\'' true) where
  takes h := unicodeBody_takes (toOption_eq_some_iff.1 h)
  stops h := unicodeBody_stops (toOption_eq_some_iff.1 h)
  plain {inner rest} hinner hrest := by
    rw [toOption_eq_some_iff]
    induction inner with
    | nil =>
      cases rest with
      | nil => simp [unicodeBody]
      | cons d rest =>
        have hne : d ≠ '\'' := by simpa using hrest
        simp [unicodeBody, hne]
    | cons c inner ih =>
      rw [List.any_cons, Bool.or_eq_false_iff] at hinner
      have hc : c ≠ '\'' ∧ c ≠ '\\' := by simpa [isMark] using hinner.1
      rw [List.cons_append, unicodeBody, ih hinner.2]
      · rfl
      · simp [hc.1]
      · simp [hc.1]
      · simp [hc.2]
      · simp [hc.2]
      · simp [hc.2]

/-! ### Fences, comments and lines -/

/-- The text before a fence is read as it is. -/
theorem fencedBody?_eq_some {fence cs : List Char} {body : Body} (hfence : fence ≠ [])
    (h : fencedBody? fence cs = some body) : cs = body.1 ++ fence ++ body.2 ∧
      ∀ rest, fencedBody? fence (body.1 ++ fence ++ rest) = some (body.1, rest) := by
  fun_induction fencedBody? fence cs generalizing body with
  | case1 hempty => exact absurd (List.isEmpty_iff.1 hempty) hfence
  | case2 => cases h
  | case3 c cs hprefix =>
    cases h
    obtain ⟨after, hafter⟩ := List.isPrefixOf_iff_prefix.1 hprefix
    have hdrop : (c :: cs).drop fence.length = after := by rw [← hafter, List.drop_left]
    refine ⟨by rw [hdrop, List.nil_append, hafter], fun rest ↦ ?_⟩
    obtain ⟨first, more, rfl⟩ := List.exists_cons_of_ne_nil hfence
    have hself : (first :: more).isPrefixOf (first :: (more ++ rest)) = true :=
      List.isPrefixOf_iff_prefix.2 (List.prefix_append (first :: more) rest)
    rw [List.nil_append, List.cons_append, fencedBody?, if_pos hself, ← List.cons_append,
      List.drop_left]
  | case4 c cs hprefix ih =>
    obtain ⟨inner, hinner, rfl⟩ := Option.map_eq_some_iff.1 h
    obtain ⟨rfl, hrest⟩ := ih hinner
    refine ⟨rfl, fun rest ↦ ?_⟩
    -- A fence found too early would stand before what follows the fence that is there.
    have hnot : ¬ fence.isPrefixOf (c :: (inner.1 ++ fence ++ rest)) = true := by
      intro hfound
      refine hprefix (List.isPrefixOf_iff_prefix.2 ?_)
      have hshort : fence <+: c :: (inner.1 ++ fence) := by
        refine List.prefix_of_prefix_length_le (List.isPrefixOf_iff_prefix.1 hfound)
          (List.prefix_append (c :: (inner.1 ++ fence)) rest) ?_
        simp only [List.length_cons, List.length_append]
        omega
      exact hshort.trans (List.prefix_append (c :: (inner.1 ++ fence)) inner.2)
    show fencedBody? fence (c :: (inner.1 ++ fence ++ rest)) = some (c :: inner.1, rest)
    rw [fencedBody?, if_neg hnot, hrest]
    rfl

private theorem commentBody?_cons {nested : Bool} {depth : Nat} {c : Char} {cs : List Char}
    (hclose : c = '*' → cs.head? ≠ some '/') (hopen : c = '/' → cs.head? ≠ some '*') :
    commentBody? nested depth (c :: cs) = (commentBody? nested depth cs).map (.cons c) := by
  rw [commentBody?]
  · rintro rest rfl rfl
    exact hclose rfl rfl
  · rintro rest rfl rfl
    exact hopen rfl rfl

/-- The text of a comment is read as it is. -/
theorem commentBody?_eq_some {nested : Bool} {depth : Nat} {cs : List Char} {body : Body}
    (h : commentBody? nested depth cs = some body) : cs = body.1 ++ '*' :: '/' :: body.2 ∧
      ∀ rest, commentBody? nested depth (body.1 ++ '*' :: '/' :: rest) = some (body.1, rest) := by
  fun_induction commentBody? nested depth cs generalizing body with
  | case1 rest =>
    cases h
    exact ⟨rfl, fun _ ↦ by rw [List.nil_append, commentBody?]⟩
  | case2 rest depth ih =>
    obtain ⟨inner, hinner, rfl⟩ := Option.map_eq_some_iff.1 h
    obtain ⟨rfl, hrest⟩ := ih hinner
    refine ⟨rfl, fun rest ↦ ?_⟩
    show commentBody? nested (depth + 1) ('*' :: '/' :: (inner.1 ++ '*' :: '/' :: rest)) = _
    rw [commentBody?, hrest]
    rfl
  | case3 depth rest hnested ih =>
    obtain ⟨inner, hinner, rfl⟩ := Option.map_eq_some_iff.1 h
    obtain ⟨rfl, hrest⟩ := ih hinner
    refine ⟨rfl, fun rest ↦ ?_⟩
    show commentBody? nested depth ('/' :: '*' :: (inner.1 ++ '*' :: '/' :: rest)) = _
    rw [commentBody?, if_pos hnested, hrest]
    rfl
  | case4 depth rest hnested ih =>
    obtain ⟨inner, hinner, rfl⟩ := Option.map_eq_some_iff.1 h
    obtain ⟨hinside, hrest⟩ := ih hinner
    refine ⟨congrArg ('/' :: ·) hinside, fun after ↦ ?_⟩
    obtain ⟨more, hmore⟩ : ∃ more, inner.1 ++ '*' :: '/' :: after = '*' :: more := by
      cases hfirst : inner.1 with
      | nil => exact ⟨_, rfl⟩
      | cons first more =>
        rw [hfirst, List.cons_append] at hinside
        obtain ⟨rfl, -⟩ := List.cons_eq_cons.1 hinside
        exact ⟨_, rfl⟩
    have hafter := hrest after
    show commentBody? nested depth ('/' :: (inner.1 ++ '*' :: '/' :: after)) = _
    rw [hmore] at hafter ⊢
    rw [commentBody?, if_neg hnested, hafter]
    rfl
  | case5 depth c cs hclose hopen ih =>
    obtain ⟨inner, hinner, rfl⟩ := Option.map_eq_some_iff.1 h
    obtain ⟨rfl, hrest⟩ := ih hinner
    refine ⟨rfl, fun after ↦ ?_⟩
    have hhead (rest : List Char) :
        (inner.1 ++ '*' :: '/' :: rest).head? = (inner.1 ++ '*' :: '/' :: inner.2).head? := by
      rw [List.head?_append, List.head?_append]
      rfl
    show commentBody? nested depth (c :: (inner.1 ++ '*' :: '/' :: after)) = _
    rw [commentBody?_cons, hrest]
    · rfl
    · rintro rfl hfound
      rw [hhead] at hfound
      obtain ⟨more, hmore⟩ := List.head?_eq_some_iff.1 hfound
      exact hclose more rfl hmore
    · rintro rfl hfound
      rw [hhead] at hfound
      obtain ⟨more, hmore⟩ := List.head?_eq_some_iff.1 hfound
      exact hopen more rfl hmore
  | case6 => cases h

/-- A line is read as it is: it ends in a character that ends lines, or nothing follows. -/
theorem lineBody_eq (endsLine : Char → Bool) (cs : List Char) :
    cs = (lineBody endsLine cs).1 ++ (lineBody endsLine cs).2 ∧
      ∀ rest, ((lineBody endsLine cs).2 = [] → rest = []) →
        lineBody endsLine ((lineBody endsLine cs).1 ++ rest) =
          ((lineBody endsLine cs).1, rest) := by
  fun_induction lineBody endsLine cs with
  | case1 => exact ⟨rfl, fun rest h ↦ by rw [h rfl]; rfl⟩
  | case2 c rest hend =>
    refine ⟨rfl, fun rest _ ↦ ?_⟩
    rw [List.cons_append, lineBody, if_pos hend]
    rfl
  | case3 c cs hend ih =>
    refine ⟨congrArg (c :: ·) ih.1, fun rest h ↦ ?_⟩
    show lineBody endsLine (c :: ((lineBody endsLine cs).1 ++ rest)) = _
    rw [lineBody, if_neg hend, ih.2 rest h]
    rfl

end SqlFootprint.Lexer
