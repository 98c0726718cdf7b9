import SqlFootprint.Proofs.Restyling

/-!
# Words between other delimiters

Two statements that differ in the delimiters of quoted words only are read and grouped in lockstep:
their nodes are laid over pairs of tokens (`Paired`), where one side shows the first tokens and the
other side the second ones. What a step reads of nodes are their gists, place by place
(`ReadsPlaces`), and the gists on both sides are the same.
-/

namespace SqlFootprint

open Node Grouping

/-- The delimiters of a token, if it is a quoted word. -/
def Token.wordQuote? : Token → Option Quote
  | .word ⟨_, quote⟩ => quote
  | _ => none

/-- The other token is the same, or the same quoted word between other delimiters. -/
inductive Requotes : Token → Token → Prop
  | same (token : Token) : Requotes token token
  | word (value : String) (quote other : Quote) :
    Requotes (.word ⟨value, some quote⟩) (.word ⟨value, some other⟩)

/-- Tokens in pairs are the same but for the delimiters of quoted words. -/
def Requoted (pairs : List (Token × Token)) : Prop := ∀ pair ∈ pairs, Requotes pair.1 pair.2

namespace Requotes

variable {token other : Token}

/-- What has no delimiters stays as it is. -/
theorem eq_of_unquoted (h : Requotes token other) (hquote : token.wordQuote? = none) :
    other = token := by
  cases h with
  | same => rfl
  | word value quote other => cases hquote

/-- A word stays a word with its value, and it stays quoted if it is. -/
theorem exists_word {word : Word} (h : Requotes (.word word) other) :
    ∃ word', other = .word word' ∧ word'.value = word.value ∧
      word'.quote.isSome = word.quote.isSome := by
  cases h with
  | same => exact ⟨word, rfl, rfl, rfl⟩
  | word value quote other => exact ⟨⟨value, some other⟩, rfl, rfl, rfl⟩

private theorem symm (h : Requotes token other) : Requotes other token := by
  cases h with
  | same => exact .same _
  | word value quote other => exact .word value other quote

private theorem eq_of_isBlank (h : Requotes token other) (hblank : token.isBlank = true) :
    other = token := by
  apply h.eq_of_unquoted
  cases token with
  | word word => cases hblank
  | _ => rfl

end Requotes

namespace Requoted

variable {pairs more : List (Token × Token)} {token : Token} {rest : List Token}

/-- The first tokens of the pairs start with a token, so the pairs do. -/
theorem exists_cons (h : Requoted pairs) (hfirst : pairs.map Prod.fst = token :: rest) :
    ∃ other others, pairs = (token, other) :: others ∧ Requotes token other ∧ Requoted others ∧
      others.map Prod.fst = rest := by
  obtain ⟨pair, others, rfl, rfl, hrest⟩ := List.map_eq_cons_iff.1 hfirst
  obtain ⟨hpair, hothers⟩ := List.forall_mem_cons.1 h
  exact ⟨pair.2, others, rfl, hpair, hothers, hrest⟩

private theorem exists_cons_snd (h : Requoted pairs)
    (hsecond : pairs.map Prod.snd = token :: rest) :
    ∃ other others, pairs = (other, token) :: others ∧ Requotes token other ∧ Requoted others ∧
      others.map Prod.snd = rest := by
  obtain ⟨pair, others, rfl, rfl, hrest⟩ := List.map_eq_cons_iff.1 hsecond
  obtain ⟨hpair, hothers⟩ := List.forall_mem_cons.1 h
  exact ⟨pair.1, others, rfl, hpair.symm, hothers, hrest⟩

private theorem exists_openParen {blanks : List Token} (h : Requoted pairs)
    (hpairs : pairs.map Prod.fst = blanks ++ .openParen :: rest) :
    ∃ gap more, pairs = gap ++ (.openParen, .openParen) :: more ∧ gap.map Prod.fst = blanks ∧
      more.map Prod.fst = rest ∧ Requoted gap ∧ Requoted more := by
  obtain ⟨gap, after, rfl, rfl, hafter⟩ := List.map_eq_append_iff.1 hpairs
  obtain ⟨hgap, hrest⟩ := List.forall_mem_append.1 h
  obtain ⟨other, more, rfl, hother, hmore, hinside⟩ := exists_cons hrest hafter
  obtain rfl := hother.eq_of_unquoted rfl
  exact ⟨gap, more, rfl, rfl, hinside, hgap, hmore⟩

/-- A parenthesis that opens stands at the front of both sides or of neither. -/
theorem head?_beq_openParen (h : Requoted pairs) :
    ((pairs.map Prod.snd).head? == some .openParen) =
      ((pairs.map Prod.fst).head? == some .openParen) := by
  cases pairs with
  | nil => rfl
  | cons pair rest =>
    obtain ⟨token, other⟩ := pair
    cases (List.forall_mem_cons.1 h).1 with
    | same => rfl
    | word => rfl

/-- The role of a word is the same on both sides. -/
theorem wordRole_eq (h : Requoted pairs) {word other : Word} (hvalue : other.value = word.value)
    (hquote : other.quote.isSome = word.quote.isSome) :
    wordRole other (pairs.map Prod.snd) = wordRole word (pairs.map Prod.fst) := by
  rw [wordRole, wordRole, hvalue, hquote, h.head?_beq_openParen]

private theorem gapBefore_eq (h : Requoted pairs) :
    gapBefore (pairs.map Prod.snd) = gapBefore (pairs.map Prod.fst) := by
  induction pairs with
  | nil => rfl
  | cons pair rest ih =>
    obtain ⟨token, other⟩ := pair
    obtain ⟨hpair, hrest⟩ := List.forall_mem_cons.1 h
    have hgap := ih hrest
    rw [gapBefore, gapBefore] at hgap ⊢
    have hblank : other.isBlank = token.isBlank := by
      cases hpair with
      | same => rfl
      | word => rfl
    rw [List.map_cons, List.map_cons, List.takeWhile_cons, List.takeWhile_cons, hblank]
    split
    · rw [List.length_cons, List.length_cons, hgap]
    · rfl

private theorem furtherParts_eq (h : Requoted pairs) :
    (furtherParts (pairs.map Prod.snd)).map (fun part ↦ (part.value, part.quoted)) =
      (furtherParts (pairs.map Prod.fst)).map fun part ↦ (part.value, part.quoted) := by
  generalize hfirst : pairs.map Prod.fst = tokens
  induction tokens using furtherParts.induct generalizing pairs with
  | case1 word rest hstar =>
    obtain ⟨mark, others, rfl, hmark, hothers, hrest⟩ := h.exists_cons hfirst
    obtain ⟨other, more, rfl, hother, -, -⟩ := hothers.exists_cons hrest
    obtain rfl := hmark.eq_of_unquoted rfl
    obtain ⟨word', rfl, hvalue, hquote⟩ := hother.exists_word
    simp only [List.map_cons, furtherParts, hvalue, hstar, ↓reduceIte, NamePart.ofWord, hquote,
      List.map_nil]
  | case2 word rest hstar ih =>
    obtain ⟨mark, others, rfl, hmark, hothers, hrest⟩ := h.exists_cons hfirst
    obtain ⟨other, more, rfl, hother, hmore, htail⟩ := hothers.exists_cons hrest
    obtain rfl := hmark.eq_of_unquoted rfl
    obtain ⟨word', rfl, hvalue, hquote⟩ := hother.exists_word
    simp only [List.map_cons, furtherParts, hvalue, hstar, ↓reduceIte, NamePart.ofWord, hquote,
      ih hmore htail]
  | case3 rest =>
    obtain ⟨mark, others, rfl, hmark, hothers, hrest⟩ := h.exists_cons hfirst
    obtain ⟨other, more, rfl, hother, -, -⟩ := hothers.exists_cons hrest
    obtain rfl := hmark.eq_of_unquoted rfl
    obtain rfl := hother.eq_of_unquoted rfl
    rfl
  | case4 tokens hword hstar =>
    -- What goes on on the other side would go on here.
    have hnone : furtherParts (pairs.map Prod.snd) = [] := by
      apply furtherParts.eq_3
      · intro word others hsecond
        obtain ⟨mark, rest, rfl, hmark, hrest, hothers⟩ := h.exists_cons_snd hsecond
        obtain ⟨other, more, rfl, hother, -, -⟩ := hrest.exists_cons_snd hothers
        obtain rfl := hmark.eq_of_unquoted rfl
        obtain ⟨word', rfl, -, -⟩ := hother.exists_word
        exact hword _ _ hfirst.symm
      · intro others hsecond
        obtain ⟨mark, rest, rfl, hmark, hrest, hothers⟩ := h.exists_cons_snd hsecond
        obtain ⟨other, more, rfl, hother, -, -⟩ := hrest.exists_cons_snd hothers
        obtain rfl := hmark.eq_of_unquoted rfl
        obtain rfl := hother.eq_of_unquoted rfl
        exact hstar _ hfirst.symm
    rw [hnone, furtherParts.eq_3 tokens hword hstar]

/-- The same name is read on both sides, but for its text. -/
theorem read_eq (h : Requoted pairs) {word other : Word} (hvalue : other.value = word.value)
    (hquote : other.quote.isSome = word.quote.isSome) :
    let name := DottedName.read word (pairs.map Prod.fst)
    let name' := DottedName.read other (pairs.map Prod.snd)
    name'.identifier = name.identifier ∧ name'.last.quoted = name.last.quoted ∧
      name'.furtherTokens = name.furtherTokens := by
  intro name name'
  have hfurther := h.furtherParts_eq
  have hparts : name'.parts.map (fun part ↦ (part.value, part.quoted)) =
      name.parts.map fun part ↦ (part.value, part.quoted) := by
    simp only [DottedName.parts, List.map_cons, name, name', DottedName.read, hfurther,
      NamePart.ofWord, hvalue, hquote]
  rw [DottedName.parts_eq, DottedName.parts_eq, List.map_append, List.map_append,
    List.map_singleton, List.map_singleton] at hparts
  obtain ⟨hinitial, hlast⟩ := List.append_inj' hparts rfl
  obtain ⟨hlastValue, hlastQuoted⟩ := Prod.mk.inj (List.singleton_inj.1 hlast)
  have hvalues : name'.initial.map NamePart.value = name.initial.map NamePart.value := by
    have hfirst := congrArg (List.map Prod.fst) hinitial
    rwa [List.map_map, List.map_map] at hfirst
  have hempty : name'.initial = [] ↔ name.initial = [] := by
    rw [← List.map_eq_nil_iff, hinitial, List.map_eq_nil_iff]
  refine ⟨?_, hlastQuoted, ?_⟩
  · simp only [DottedName.identifier, hlastValue, hempty, hvalues]
  · have hlength := congrArg List.length hfurther
    rw [List.length_map, List.length_map] at hlength
    simp only [name, name', DottedName.furtherTokens, DottedName.read, hlength]

/-- A name is a call on both sides or on neither, with as many blanks before its arguments. -/
theorem callGap?_eq (h : Requoted pairs) (last : Option Node) {name name' : DottedName}
    (hidentifier : name'.identifier = name.identifier)
    (hquoted : name'.last.quoted = name.last.quoted) :
    callGap? last name' (pairs.map Prod.snd) = callGap? last name (pairs.map Prod.fst) := by
  have hdrop : Requoted (pairs.drop (gapBefore (pairs.map Prod.fst))) := fun pair hmem ↦
    h pair (List.mem_of_mem_drop hmem)
  have hopen : ((pairs.map Prod.snd).drop (gapBefore (pairs.map Prod.fst))).head? =
        some .openParen ↔
      ((pairs.map Prod.fst).drop (gapBefore (pairs.map Prod.fst))).head? = some .openParen := by
    rw [← List.map_drop, ← List.map_drop, ← beq_iff_eq, hdrop.head?_beq_openParen, beq_iff_eq]
  simp only [callGap?, hidentifier, hquoted, h.gapBefore_eq, hopen]

end Requoted

/-! ### Steps and gists -/

namespace Grouping

/-- A step reads no more of nodes than their gists, place by place. -/
def ReadsPlaces (step : Step) : Prop :=
  ∀ {node other : Node} {rest more : List Node} {kind : Kind Node} {count : Nat},
    node.gist = other.gist → rest.map gist = more.map gist → step node rest = some (kind, count) →
      ∃ kind', step other more = some (kind', count) ∧
        ∀ children others, gistOfAll children = gistOfAll others →
          (Node.group kind children).gist = (Node.group kind' others).gist

/-- The front of nodes with the same gists. -/
theorem significant?_map_gist (nodes : List Node) :
    significant? (nodes.map gist) =
      (significant? nodes).map fun found ↦ (found.1.gist, found.2) := by
  induction nodes with
  | nil => rfl
  | cons node rest ih =>
    rw [List.map_cons, significant?, significant?, isBlank_gist, ih]
    split
    · rw [Option.map_map, Option.map_map]
      rfl
    · rfl

private theorem aliasAfter?_map_gist (nodes : List Node) :
    aliasAfter? (nodes.map gist) = aliasAfter? nodes := by
  unfold aliasAfter?
  rw [significant?_map_gist]
  cases significant? nodes with
  | none => rfl
  | some first =>
    simp only [Option.map_some, isKeyword_gist, bareName?_gist, ← List.map_drop,
      significant?_map_gist]
    cases significant? (nodes.drop first.2) with
    | none => rfl
    | some second => simp only [Option.map_some, Option.bind_some, bareName?_gist]

private theorem comparisonAfter?_map_gist (nodes : List Node) :
    comparisonAfter? (nodes.map gist) =
      (comparisonAfter? nodes).map fun found ↦ (found.1, found.2.1.gist, found.2.2) := by
  unfold comparisonAfter?
  rw [significant?_map_gist]
  cases significant? nodes with
  | none => rfl
  | some first =>
    simp only [Option.map_some, isAnyPunctuation_gist, ← List.map_drop, significant?_map_gist]
    cases hmark : first.1.isAnyPunctuation with
    | false => rfl
    | true =>
      rw [text_gist hmark]
      split
      · cases significant? (nodes.drop first.2) with
        | none => rfl
        | some second =>
          simp only [Option.map_some, Option.bind_some, isOperand_gist]
          split <;> rfl
      · rfl

private theorem listSpan_map_gist (expectItem : Bool) (nodes : List Node) :
    listSpan expectItem (nodes.map gist) = listSpan expectItem nodes := by
  induction nodes generalizing expectItem with
  | nil => rfl
  | cons node rest ih =>
    simp only [List.map_cons, listSpan, isBlank_gist, isListItem_gist, isPunctuation_gist, ih]

private theorem readsPlaces_aliasStep : ReadsPlaces aliasStep := by
  intro node other rest more kind count hnode hrest hstep
  have hsame : aliasStep other more = aliasStep node rest := by
    rw [aliasStep, ← aliasedKind?_gist, ← hnode, aliasedKind?_gist, ← aliasAfter?_map_gist, ← hrest,
      aliasAfter?_map_gist, aliasStep]
  refine ⟨kind, hsame.trans hstep, fun children others _ ↦ ?_⟩
  exact gist_group_of_isOperand (isOperand_of_aliasStep hstep others) children

private theorem readsPlaces_comparisonStep : ReadsPlaces comparisonStep := by
  intro left left' rest more kind count hleft hrest hstep
  obtain ⟨operator, right, hoperand, hafter, rfl⟩ := comparisonStep_eq_some hstep
  have hother : (comparisonAfter? more).map (fun found ↦ (found.1, found.2.1.gist, found.2.2)) =
      some (operator, right.gist, count) := by
    rw [← comparisonAfter?_map_gist, ← hrest, comparisonAfter?_map_gist, hafter]
    rfl
  obtain ⟨⟨operator', right', count'⟩, hmore, hsame⟩ := Option.map_eq_some_iff.1 hother
  simp only [Prod.mk.injEq] at hsame
  obtain ⟨rfl, -, rfl⟩ := hsame
  have hoperand' : isOperand left' = true := by rwa [← isOperand_gist, ← hleft, isOperand_gist]
  refine ⟨.comparison left' operator' right', ?_, fun children others _ ↦ ?_⟩
  · rw [comparisonStep, if_pos hoperand', hmore]
    rfl
  · have hname : left.identifier? = left'.identifier? := by
      rw [← identifier?_gist, hleft, identifier?_gist]
    simp only [Node.group, gist, hname]

private theorem readsPlaces_listStep : ReadsPlaces listStep := by
  intro node other rest more kind count hnode hrest hstep
  have hsame : listStep other more = listStep node rest := by
    rw [listStep, ← isListItem_gist, ← hnode, isListItem_gist, ← listSpan_map_gist, ← hrest,
      listSpan_map_gist, listStep]
  obtain ⟨-, -, rfl, -⟩ := listStep_eq_some hstep
  refine ⟨.identifierList, hsame.trans hstep, fun children others hgists ↦ ?_⟩
  simp only [Node.group, gist, hgists]

private theorem ReadsPlaces.eq_none {step : Step} (h : ReadsPlaces step) {node other : Node}
    {rest more : List Node} (hnode : node.gist = other.gist) (hrest : rest.map gist = more.map gist)
    (hstep : step node rest = none) : step other more = none := by
  cases hother : step other more with
  | none => rfl
  | some found =>
    obtain ⟨kind, hsome, -⟩ := h hnode.symm hrest.symm hother
    cases hstep.symm.trans hsome

end Grouping

/-! ### Nodes over pairs of tokens -/

/-- The nodes on both sides lie over the tokens on their side, in their order. They have the same
gists, leaves show their tokens, and groups lie over those of their children. -/
inductive Paired : List (Token × Token) → List Node → List Node → Prop
  | nil : Paired [] [] []
  | leaf {run more : List (Token × Token)} {kind : Kind Node} {text other : String}
      {nodes others : List Node} :
    (Node.leaf kind text).gist = (Node.leaf kind other).gist →
    text = Token.shown (run.map Prod.fst) → other = Token.shown (run.map Prod.snd) →
    Paired more nodes others →
    Paired (run ++ more) (.leaf kind text :: nodes) (.leaf kind other :: others)
  | group {run more : List (Token × Token)} {kind kind' : Kind Node}
      {children children' nodes others : List Node} :
    (Node.group kind children).gist = (Node.group kind' children').gist →
    Paired run children children' → Paired more nodes others →
    Paired (run ++ more) (.group kind children :: nodes) (.group kind' children' :: others)

namespace Paired

variable {run more : List (Token × Token)} {nodes others : List Node}

/-- The gists are the same on both sides. -/
theorem map_gist (h : Paired run nodes others) : nodes.map gist = others.map gist := by
  induction h with
  | nil => rfl
  | leaf hgist _ _ _ ih => rw [List.map_cons, List.map_cons, hgist, ih]
  | group hgist _ _ _ ih => rw [List.map_cons, List.map_cons, hgist, ih]

/-- The gists without blanks are the same on both sides. -/
theorem gistOfAll_eq (h : Paired run nodes others) : gistOfAll nodes = gistOfAll others := by
  induction h with
  | nil => rfl
  | leaf hgist _ _ _ ih => exact gistOfAll_cons_congr hgist ih
  | group hgist _ _ _ ih => exact gistOfAll_cons_congr hgist ih

/-- The nodes show the tokens on their side. -/
theorem textOf_eq (h : Paired run nodes others) :
    textOf nodes = Token.shown (run.map Prod.fst) ∧
      textOf others = Token.shown (run.map Prod.snd) := by
  induction h with
  | nil => exact ⟨rfl, rfl⟩
  | leaf _ htext hother _ ih =>
    rw [textOf_cons, textOf_cons, List.map_append, List.map_append, Token.shown_append,
      Token.shown_append, ← ih.1, ← ih.2, text_leaf, text_leaf, htext, hother]
    exact ⟨rfl, rfl⟩
  | group _ _ _ ihChildren ih =>
    rw [textOf_cons, textOf_cons, List.map_append, List.map_append, Token.shown_append,
      Token.shown_append, ← ih.1, ← ih.2, text_group, text_group, ihChildren.1, ihChildren.2]
    exact ⟨rfl, rfl⟩

/-- Nodes in a row lie over pairs in a row. -/
theorem append {nodes' others' : List Node} (h : Paired run nodes others)
    (hmore : Paired more nodes' others') :
    Paired (run ++ more) (nodes ++ nodes') (others ++ others') := by
  induction h with
  | nil => exact hmore
  | leaf hgist htext hother _ ih =>
    rw [List.append_assoc]
    exact .leaf hgist htext hother ih
  | group hgist hchildren _ _ ih =>
    rw [List.append_assoc]
    exact .group hgist hchildren ih

/-- A single leaf. -/
theorem ofLeaf {kind : Kind Node} {text other : String}
    (hgist : (Node.leaf kind text).gist = (Node.leaf kind other).gist)
    (htext : text = Token.shown (run.map Prod.fst))
    (hother : other = Token.shown (run.map Prod.snd)) :
    Paired run [.leaf kind text] [.leaf kind other] := by
  have hleaf : Paired (run ++ []) [.leaf kind text] [.leaf kind other] :=
    .leaf hgist htext hother .nil
  rwa [List.append_nil] at hleaf

/-- A single group. -/
theorem ofGroup {kind kind' : Kind Node} (hgist : (Node.group kind nodes).gist =
    (Node.group kind' others).gist) (h : Paired run nodes others) :
    Paired run [.group kind nodes] [.group kind' others] := by
  have hgroup : Paired (run ++ []) [.group kind nodes] [.group kind' others] := .group hgist h .nil
  rwa [List.append_nil] at hgroup

/-- The token of a leaf that is the same on both sides. -/
theorem token (kind : Kind Node) (token : Token) :
    Paired [(token, token)] [.leaf kind token.render] [.leaf kind token.render] := by
  apply ofLeaf rfl
  · simp [Token.shown]
  · simp [Token.shown]

/-- The first node lies over the first pairs on both sides. -/
theorem exists_cons {node : Node} (h : Paired run (node :: nodes) others) :
    ∃ other rest front back, others = other :: rest ∧ run = front ++ back ∧
      node.gist = other.gist ∧ Paired front [node] [other] ∧ Paired back nodes rest := by
  cases h with
  | leaf hgist htext hother hrest =>
    exact ⟨_, _, _, _, rfl, rfl, hgist, ofLeaf hgist htext hother, hrest⟩
  | group hgist hchildren hrest =>
    exact ⟨_, _, _, _, rfl, rfl, hgist, ofGroup hgist hchildren, hrest⟩

private theorem exists_take_drop (h : Paired run nodes others) (count : Nat) :
    ∃ front back, run = front ++ back ∧ Paired front (nodes.take count) (others.take count) ∧
      Paired back (nodes.drop count) (others.drop count) := by
  induction count generalizing run nodes others with
  | zero => exact ⟨[], run, rfl, .nil, h⟩
  | succ count ih =>
    cases nodes with
    | nil =>
      cases h
      exact ⟨[], [], rfl, .nil, .nil⟩
    | cons node rest =>
      obtain ⟨other, more, first, second, rfl, rfl, -, hnode, hrest⟩ := h.exists_cons
      obtain ⟨front, back, rfl, hfront, hback⟩ := ih hrest
      exact ⟨first ++ front, back, (List.append_assoc _ _ _).symm, hnode.append hfront, hback⟩

end Paired

namespace Grouping

private theorem Folds.paired {step : Step} {pass : List Node → List Node} (h : Folds step pass)
    (hreads : ReadsPlaces step) {run : List (Token × Token)} {nodes others : List Node}
    (hnodes : Paired run nodes others) : Paired run (pass nodes) (pass others) := by
  induction nodes using h.induction generalizing run others with
  | nil =>
    cases hnodes
    rw [h.nil]
    exact .nil
  | keep hstep ih =>
    obtain ⟨other, more, front, back, rfl, rfl, hgist, hnode, hrest⟩ := hnodes.exists_cons
    rw [h.keep hstep, h.keep (hreads.eq_none hgist hrest.map_gist hstep)]
    exact hnode.append (ih hrest)
  | @fold node rest kind count hstep ih =>
    obtain ⟨other, more, front, back, rfl, rfl, hgist, hnode, hrest⟩ := hnodes.exists_cons
    obtain ⟨kind', hother, hkinds⟩ := hreads hgist hrest.map_gist hstep
    obtain ⟨inside, after, rfl, hinside, hafter⟩ := hrest.exists_take_drop count
    have hchildren : Paired (front ++ inside) (node :: rest.take count)
        (other :: more.take count) := hnode.append hinside
    rw [h.fold hstep, h.fold hother, ← List.append_assoc]
    exact .group (hkinds _ _ hchildren.gistOfAll_eq) hchildren (ih hafter)

/-- A level is regrouped in lockstep on both sides. -/
theorem paired_regroup {run : List (Token × Token)} {nodes others : List Node}
    (h : Paired run nodes others) : Paired run (regroup nodes) (regroup others) :=
  folds_groupLists.paired readsPlaces_listStep
    (folds_groupComparisons.paired readsPlaces_comparisonStep
      (folds_groupAliases.paired readsPlaces_aliasStep h))

end Grouping

/-! ### Reading in lockstep -/

/-- The pair is no end of input. -/
def isShown (pair : Token × Token) : Bool := pair.1 != .endOfInput

namespace Grouping

private theorem paired_blanks {gap : List (Token × Token)} (h : Requoted gap)
    (hblanks : ∀ blank ∈ gap.map Prod.fst, blank.isBlank = true) :
    gap.map Prod.snd = gap.map Prod.fst ∧
      Paired gap ((gap.map Prod.fst).map plainNode) ((gap.map Prod.snd).map plainNode) := by
  induction gap with
  | nil => exact ⟨rfl, .nil⟩
  | cons pair rest ih =>
    obtain ⟨blank, other⟩ := pair
    obtain ⟨hpair, hrest⟩ := List.forall_mem_cons.1 h
    obtain ⟨hblank, hothers⟩ := List.forall_mem_cons.1 hblanks
    obtain ⟨hsame, hpaired⟩ := ih hrest hothers
    obtain rfl : other = blank := hpair.eq_of_isBlank hblank
    have hnode : plainNode other = .leaf .blank other.render := by
      rw [plainNode, if_pos hblank]
    refine ⟨congrArg (other :: ·) hsame, ?_⟩
    simp only [List.map_cons, hnode]
    exact (Paired.token .blank other).append hpaired

private theorem filter_isShown_of_isBlank {gap : List (Token × Token)}
    (h : ∀ blank ∈ gap.map Prod.fst, blank.isBlank = true) : gap.filter isShown = gap := by
  rw [List.filter_eq_self]
  intro pair hmem
  have hblank := h pair.1 (List.mem_map_of_mem hmem)
  rw [isShown, bne_iff_ne]
  intro hend
  rw [hend] at hblank
  cases hblank

/-- A name on both sides, and what follows it. -/
theorem paired_name {rest : List (Token × Token)} (h : Requoted rest) {word other : Word}
    (hvalue : other.value = word.value) (hquote : other.quote.isSome = word.quote.isSome) :
    ∃ first back, (.word word, .word other) :: rest = first ++ back ∧ Requoted back ∧
      afterName word (rest.map Prod.fst) = back.map Prod.fst ∧
      afterName other (rest.map Prod.snd) = back.map Prod.snd ∧ first.filter isShown = first ∧
      Paired first [(DottedName.read word (rest.map Prod.fst)).node]
        [(DottedName.read other (rest.map Prod.snd)).node] := by
  obtain ⟨hidentifier, -, hfurther⟩ := h.read_eq hvalue hquote
  let count := (DottedName.read word (rest.map Prod.fst)).furtherTokens
  obtain ⟨htext, -, hend⟩ := (leafOf_name word (rest.map Prod.fst)).text_eq
  have hother := (leafOf_name other (rest.map Prod.snd)).text_eq.1
  rw [hfurther] at hother
  refine ⟨(.word word, .word other) :: rest.take count, rest.drop count, ?_, ?_, ?_, ?_, ?_, ?_⟩
  · rw [List.cons_append, List.take_append_drop]
  · exact fun pair hmem ↦ h pair (List.mem_of_mem_drop hmem)
  · rw [afterName, List.map_drop]
  · rw [afterName, hfurther, List.map_drop]
  · rw [List.filter_eq_self]
    intro pair hmem
    rw [isShown, bne_iff_ne]
    intro heq
    apply hend
    rw [← heq, ← List.map_take]
    exact List.mem_map_of_mem (f := Prod.fst) hmem
  · rw [← List.map_take] at htext hother
    have hnode : (DottedName.read other (rest.map Prod.snd)).node =
        .leaf (.identifier (DottedName.read word (rest.map Prod.fst)).identifier)
          (DottedName.read other (rest.map Prod.snd)).node.text := by
      rw [← hidentifier]
      rfl
    rw [hnode]
    exact Paired.ofLeaf rfl htext hother

/-- A call on both sides, over its name, the blanks after it, and its arguments. -/
theorem paired_callNode {first gap run close : List (Token × Token)} {name name' : DottedName}
    {arguments others : List Node} {closed : Bool} (hgap : Requoted gap)
    (hblanks : ∀ blank ∈ gap.map Prod.fst, blank.isBlank = true)
    (hidentifier : name'.identifier = name.identifier)
    (hname : Paired first [name.node] [name'.node]) (harguments : Paired run arguments others)
    (hclose : close = if closed then [(.closeParen, .closeParen)] else []) :
    Paired (first ++ (gap ++ (.openParen, .openParen) :: (run ++ close)))
      [callNode name (gap.map Prod.fst) arguments closed]
      [callNode name' (gap.map Prod.snd) others closed] := by
  have hmark : Paired close (if closed then [.punctuation ")"] else [])
      (if closed then [.punctuation ")"] else []) := by
    subst hclose
    cases closed with
    | true => exact .token .punctuation .closeParen
    | false => exact .nil
  have hinside := (paired_blanks hgap hblanks).2.append
    ((Paired.token .punctuation .openParen).append (harguments.append hmark))
  rw [callNode_eq, callNode_eq, hidentifier]
  exact .ofGroup rfl (hname.append hinside)

/-- The words of a call, the blanks after its name and its parenthesis are read on both sides; the
call lies over them and over what its arguments lie over. -/
structure CallLead (last : Option Node) (word other : Word)
    (rest first gap inside : List (Token × Token)) : Prop where
  split : (.word word, .word other) :: rest = first ++ (gap ++ (.openParen, .openParen) :: inside)
  shown : (first ++ gap).filter isShown = first ++ gap
  role : wordRole other (rest.map Prod.snd) = .name
  after : afterName other (rest.map Prod.snd) =
    gap.map Prod.snd ++ .openParen :: inside.map Prod.snd
  opens : callGap? last (.read other (rest.map Prod.snd))
    (gap.map Prod.snd ++ .openParen :: inside.map Prod.snd) = some (gap.map Prod.snd).length
  node : ∀ (closed : Bool) {run close : List (Token × Token)} {arguments others : List Node},
    Paired run arguments others → close = (if closed then [(.closeParen, .closeParen)] else []) →
    Paired (first ++ (gap ++ (.openParen, .openParen) :: (run ++ close)))
      [callNode (.read word (rest.map Prod.fst)) (gap.map Prod.fst) arguments closed]
      [callNode (.read other (rest.map Prod.snd)) (gap.map Prod.snd) others closed]

private theorem exists_callLead {last : Option Node} {word other : Word}
    {rest : List (Token × Token)}
    {blanks inside : List Token} (h : Requoted rest) (hvalue : other.value = word.value)
    (hquote : other.quote.isSome = word.quote.isSome)
    (hrole : wordRole word (rest.map Prod.fst) = .name)
    (hopen : afterName word (rest.map Prod.fst) = blanks ++ .openParen :: inside)
    (hgap : callGap? last (.read word (rest.map Prod.fst)) (blanks ++ .openParen :: inside) =
      some blanks.length) :
    ∃ first gap more, gap.map Prod.fst = blanks ∧ more.map Prod.fst = inside ∧ Requoted more ∧
      CallLead last word other rest first gap more := by
  obtain ⟨hidentifier, hlast, -⟩ := h.read_eq hvalue hquote
  obtain ⟨first, back, hsplit, hback, hafter, hafter', hfirst, hname⟩ := paired_name h hvalue hquote
  have hsame := hback.callGap?_eq last hidentifier hlast
  rw [← hafter, hopen, hgap] at hsame
  obtain ⟨gap, more, rfl, rfl, rfl, hblanks, hmore⟩ :=
    hback.exists_openParen (hafter.symm.trans hopen)
  have hisBlank := isBlank_of_callGap? hgap
  rw [List.map_append] at hafter' hsame
  refine ⟨first, gap, more, rfl, rfl, hmore, hsplit, ?_, ?_, hafter', ?_, ?_⟩
  · rw [List.filter_append, hfirst, filter_isShown_of_isBlank hisBlank]
  · exact (h.wordRole_eq hvalue hquote).trans hrole
  · rw [List.length_map] at hsame ⊢
    exact hsame
  · intro closed run close arguments others harguments hclose
    exact paired_callNode hblanks hisBlank hidentifier hname harguments hclose

private theorem tokenNode?_requoted {last : Option Node} {token other : Token} {node : Node}
    {rest : List (Token × Token)} (h : Requoted rest) (htoken : Requotes token other)
    (hnode : tokenNode? last (rest.map Prod.fst) token = some node) :
    other = token ∧ tokenNode? last (rest.map Prod.snd) token = some node := by
  -- A quoted word is a name, so it makes no node by itself.
  obtain rfl : other = token := by
    cases htoken with
    | same => rfl
    | word value quote other => cases hnode
  refine ⟨rfl, ?_⟩
  rw [← hnode]
  cases other with
  | word word => simp only [tokenNode?, h.wordRole_eq rfl rfl]
  | _ => rfl

/-- What the first tokens of pairs are read to, the second ones are read to in lockstep. -/
theorem Reads.paired {last : Option Node} {depth : Nat} {tokens left : List Token}
    {nodes : List Node} (h : Reads last depth tokens nodes left) {pairs : List (Token × Token)}
    (hpairs : Requoted pairs) (htokens : pairs.map Prod.fst = tokens) :
    ∃ others run unread, pairs = run ++ unread ∧ unread.map Prod.fst = left ∧
      Reads last depth (pairs.map Prod.snd) others (unread.map Prod.snd) ∧
      Paired (run.filter isShown) nodes others := by
  induction h generalizing pairs with
  | done =>
    obtain rfl := List.map_eq_nil_iff.1 htokens
    exact ⟨[], [], [], rfl, rfl, .done, .nil⟩
  | stop =>
    obtain ⟨other, more, rfl, hother, -, rfl⟩ := hpairs.exists_cons htokens
    obtain rfl := hother.eq_of_unquoted rfl
    exact ⟨[], [], _, rfl, rfl, .stop, .nil⟩
  | skip _ ih =>
    obtain ⟨other, more, rfl, hother, hmore, hrest⟩ := hpairs.exists_cons htokens
    obtain rfl := hother.eq_of_unquoted rfl
    obtain ⟨nodes, run, unread, rfl, hleft, hreads, hpaired⟩ := ih hmore hrest
    exact ⟨nodes, _ :: run, unread, rfl, hleft, .skip hreads, hpaired⟩
  | @leaf last depth inner token node rest left nodes hnode hnest _ ih =>
    obtain ⟨other, more, rfl, hother, hmore, rfl⟩ := hpairs.exists_cons htokens
    obtain ⟨rfl, htoken⟩ := tokenNode?_requoted hmore hother hnode
    obtain ⟨hend, kind, rfl, -⟩ := tokenNode?_eq_leaf hnode
    obtain ⟨others, run, unread, rfl, hleft, hreads, hpaired⟩ := ih hmore rfl
    refine ⟨_ :: others, _ :: run, unread, rfl, hleft, .leaf htoken hnest hreads, ?_⟩
    rw [List.filter_cons_of_pos (by simpa [isShown] using hend)]
    exact (Paired.token kind other).append hpaired
  | @name last depth word rest left nodes hrole hgap _ ih =>
    obtain ⟨other, more, rfl, hother, hmore, rfl⟩ := hpairs.exists_cons htokens
    obtain ⟨word', rfl, hvalue, hquote⟩ := hother.exists_word
    obtain ⟨hidentifier, hlast, -⟩ := hmore.read_eq hvalue hquote
    obtain ⟨first, back, hsplit, hback, hafter, hafter', hfirst, hname⟩ :=
      paired_name hmore hvalue hquote
    have hgap' := hback.callGap?_eq last hidentifier hlast
    obtain ⟨others, run, unread, rfl, hleft, hreads, hpaired⟩ := ih hback hafter.symm
    have hgist := List.singleton_inj.1 hname.map_gist
    rw [hsplit]
    refine ⟨(DottedName.read word' (more.map Prod.snd)).node :: others, first ++ run, unread,
      (List.append_assoc _ _ _).symm, hleft, ?_, ?_⟩
    · rw [← hsplit, List.map_cons]
      refine .name ((hmore.wordRole_eq hvalue hquote).trans hrole) ?_ ?_
      · rw [hafter', hgap', ← hafter, hgap]
      · rw [hafter']
        exact hreads.congr_gist (congrArg some hgist)
    · rw [List.filter_append, hfirst]
      exact hname.append hpaired
  | @call last depth word rest blanks inside after left arguments nodes node hrole hopen hgap _
      hnode _ ihArguments ih =>
    obtain ⟨other, more, rfl, hother, hmore, rfl⟩ := hpairs.exists_cons htokens
    obtain ⟨word', rfl, hvalue, hquote⟩ := hother.exists_word
    obtain ⟨first, gap, argumentPairs, rfl, rfl, hinside, hlead⟩ :=
      exists_callLead hmore hvalue hquote hrole hopen hgap
    obtain ⟨others, run, unread, rfl, hclose, hreads, hpaired⟩ := ihArguments hinside rfl
    obtain ⟨close, behind, rfl, hparen, hbehind, rfl⟩ :=
      Requoted.exists_cons (List.forall_mem_append.1 hinside).2 hclose
    obtain rfl := hparen.eq_of_unquoted rfl
    obtain ⟨rest, tail, unread, rfl, hleft, hrest, htail⟩ := ih hbehind rfl
    have hcall := hlead.node true (paired_regroup hpaired) rfl
    have hgist := List.singleton_inj.1 hcall.map_gist
    subst hnode
    refine ⟨callNode (.read word' (more.map Prod.snd)) (gap.map Prod.snd) (regroup others) true ::
      rest, first ++ gap ++ (.openParen, .openParen) :: (run ++ (.closeParen, .closeParen) :: tail),
      unread, ?_, hleft, ?_, ?_⟩
    · rw [hlead.split]
      simp
    · exact .call hlead.role hlead.after hlead.opens hreads rfl
        (hrest.congr_gist (congrArg some hgist))
    · have hall := hcall.append htail
      rw [List.filter_append, hlead.shown, List.filter_cons_of_pos rfl, List.filter_append,
        List.filter_cons_of_pos rfl]
      simpa using hall
  | @openCall last depth word rest blanks inside arguments node hrole hopen hgap _ hnode
      ihArguments =>
    obtain ⟨other, more, rfl, hother, hmore, rfl⟩ := hpairs.exists_cons htokens
    obtain ⟨word', rfl, hvalue, hquote⟩ := hother.exists_word
    obtain ⟨first, gap, argumentPairs, rfl, rfl, hinside, hlead⟩ :=
      exists_callLead hmore hvalue hquote hrole hopen hgap
    obtain ⟨others, run, unread, rfl, hend, hreads, hpaired⟩ := ihArguments hinside rfl
    obtain rfl := List.map_eq_nil_iff.1 hend
    have hcall := hlead.node false (paired_regroup hpaired) rfl
    subst hnode
    refine ⟨[callNode (.read word' (more.map Prod.snd)) (gap.map Prod.snd) (regroup others) false],
      first ++ gap ++ (.openParen, .openParen) :: run, [], ?_, rfl, ?_, ?_⟩
    · rw [hlead.split]
      simp
    · exact .openCall hlead.role hlead.after hlead.opens hreads rfl
    · rw [List.filter_append, hlead.shown, List.filter_cons_of_pos rfl]
      simpa using hcall

/-- Statements that differ in delimiters only are grouped in lockstep. -/
theorem paired_statementNodes {pairs : List (Token × Token)} (h : Requoted pairs) :
    Paired (pairs.filter isShown) (statementNodes (pairs.map Prod.fst))
      (statementNodes (pairs.map Prod.snd)) := by
  generalize htokens : pairs.map Prod.fst = tokens
  refine statementNodes_induction (motive := fun tokens nodes ↦ ∀ {pairs : List (Token × Token)},
    Requoted pairs → pairs.map Prod.fst = tokens →
      Paired (pairs.filter isShown) nodes (statementNodes (pairs.map Prod.snd)))
    ?_ ?_ tokens h htokens
  · intro tokens nodes hreads pairs hpairs htokens
    obtain ⟨others, run, unread, rfl, hend, hother, hpaired⟩ := hreads.paired hpairs htokens
    obtain rfl := List.map_eq_nil_iff.1 hend
    rw [hother.statementNodes_eq, List.append_nil]
    exact paired_regroup hpaired
  · intro tokens nodes more hreads ih pairs hpairs htokens
    obtain ⟨others, run, unread, rfl, hclose, hother, hpaired⟩ := hreads.paired hpairs htokens
    obtain ⟨close, behind, rfl, hparen, hbehind, rfl⟩ :=
      Requoted.exists_cons (List.forall_mem_append.1 hpairs).2 hclose
    obtain rfl := hparen.eq_of_unquoted rfl
    rw [hother.statementNodes_eq_append, List.filter_append, List.filter_cons_of_pos rfl]
    exact (paired_regroup hpaired).append
      ((Paired.token .punctuation .closeParen).append (ih hbehind rfl))

end Grouping

end SqlFootprint
