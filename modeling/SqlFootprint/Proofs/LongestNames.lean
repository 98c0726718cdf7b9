import SqlFootprint.Proofs.Links
import SqlFootprint.Proofs.Phrases
import SqlFootprint.Proofs.RoundTrips

/-!
# The longest name

A word that is neither a value nor a keyword is the first of a name, and the name goes on as long as
it can: over words, each right after a period, to a star at the most (`Token.LongestTail`).
`stores_longest_name` says so of every place at which a statement can be read, and that the entry
stored there has the parts of that name: their values as its full name, the last of them as what it
names, and their texts as its own. Where the name is a call, the entry is the first child of it.
-/

namespace SqlFootprint

namespace Token

/-! ### The tail of a name -/

/-- No word before the last token has a star for its value. Of the words of a text, only those
between delimiters can have one (`Lexer.quote_isSome_of_mem_tokens`). -/
def EndsAtStar (tail : List Token) : Prop :=
  ∀ word, .word word ∈ tail.dropLast → word.value ≠ "*"

/-- What the tokens start with goes on after the first word of a name, to a star at the most, and no
other start of theirs that does is longer. -/
structure LongestTail (tokens tail : List Token) : Prop where
  starts : tail <+: tokens
  form : NameTail tail
  ends : EndsAtStar tail
  longest : ∀ other, other <+: tokens → NameTail other → EndsAtStar other → other <+: tail

/-- The parts of a name, without the periods between them. -/
def nameParts (tokens : List Token) : List Token := tokens.filter (· ≠ .period)

/-- A period is no part of a name. -/
@[simp] theorem nameParts_period (tokens : List Token) :
    nameParts (.period :: tokens) = nameParts tokens := rfl

/-- A word is a part of a name. -/
@[simp] theorem nameParts_word (word : Word) (tokens : List Token) :
    nameParts (.word word :: tokens) = .word word :: nameParts tokens := rfl

/-- Where a name goes on behind a word, the word is no star. -/
theorem endsAtStar_cons_iff {word : Word} {tail : List Token} :
    EndsAtStar (.period :: .word word :: tail) ↔
      (tail ≠ [] → word.value ≠ "*") ∧ EndsAtStar tail := by
  cases tail with
  | nil => simp [EndsAtStar]
  | cons token tail => simp [EndsAtStar]

variable {tokens tail : List Token} {word : Word}

/-- There is one longest tail. -/
theorem LongestTail.unique {other : List Token} (h : LongestTail tokens tail)
    (hother : LongestTail tokens other) : tail = other := by
  have hle := h.longest other hother.starts hother.form hother.ends
  have hge := hother.longest tail h.starts h.form h.ends
  exact hge.eq_of_length_le hle.length_le

private theorem LongestTail.nil (hword : ∀ word rest, tokens ≠ .period :: .word word :: rest)
    (hstar : ∀ rest, tokens ≠ .period :: .star :: rest) : LongestTail tokens [] where
  starts := List.nil_prefix
  form := .nil
  ends := nofun
  longest := by
    rintro other ⟨rest, rfl⟩ hform -
    cases hform with
    | nil => exact List.prefix_refl _
    | star => exact absurd rfl (hstar rest)
    | word word => exact absurd rfl (hword word _)

private theorem LongestTail.star (rest : List Token) :
    LongestTail (.period :: .star :: rest) [.period, .star] where
  starts := ⟨rest, rfl⟩
  form := .star
  ends := by simp [EndsAtStar]
  longest := by
    rintro other ⟨more, hmore⟩ hform -
    cases hform with
    | nil => exact List.nil_prefix
    | star => exact List.prefix_refl _
    | word word => cases hmore

private theorem LongestTail.starWord (hvalue : word.value = "*") (rest : List Token) :
    LongestTail (.period :: .word word :: rest) [.period, .word word] where
  starts := ⟨rest, rfl⟩
  form := .word word .nil
  ends := by simp [EndsAtStar]
  longest := by
    rintro other ⟨more, hmore⟩ hform hends
    cases hform with
    | nil => exact List.nil_prefix
    | star => cases hmore
    | @word other tail _ =>
      obtain ⟨rfl, -⟩ : other = word ∧ tail ++ more = rest := by simpa using hmore
      cases tail with
      | nil => exact List.prefix_refl _
      | cons token tail =>
        exact absurd hvalue ((endsAtStar_cons_iff.1 hends).1 (List.cons_ne_nil _ _))

private theorem LongestTail.cons (hvalue : word.value ≠ "*") (h : LongestTail tokens tail) :
    LongestTail (.period :: .word word :: tokens) (.period :: .word word :: tail) where
  starts := by simpa [List.cons_prefix_cons] using h.starts
  form := .word word h.form
  ends := endsAtStar_cons_iff.2 ⟨fun _ ↦ hvalue, h.ends⟩
  longest := by
    intro other hother hform hends
    cases hform with
    | nil => exact List.nil_prefix
    | star => simp [List.cons_prefix_cons] at hother
    | word first hform =>
      simp only [List.cons_prefix_cons, Token.word.injEq, true_and] at hother ⊢
      exact ⟨hother.1, h.longest _ hother.2 hform (endsAtStar_cons_iff.1 hends).2⟩

end Token

namespace Lexer

private theorem scan_star (lexicon : Lexicon) (cs : List Char) : scan lexicon '*' cs = .ok
    (.star, cs) := by
  refine @scan_symbol lexicon ⟨"*", "*", false⟩ _ _ (by decide) ?_
  unfold symbols
  split
  · rfl
  · rfl

/-- Of the words that are read from a text, only one between delimiters has a star for its value. -/
theorem quote_isSome_of_mem_tokens {dialect : Dialect} {text : String} {found : List Token}
    {word : Word} (h : tokens dialect text = .ok found) (hmem : .word word ∈ found)
    (hstar : word.value = "*") : word.quote.isSome = true := by
  obtain ⟨value, quote⟩ := word
  obtain rfl : value = "*" := hstar
  cases quote with
  | some quote => rfl
  | none =>
    obtain ⟨before, after, rfl⟩ := List.append_of_mem hmem
    obtain ⟨-, cs, -, -, hword⟩ := exists_tokensOf_append (tokens_eq_ok_iff.1 h)
    obtain ⟨rest, ⟨c, more, rfl, hscan⟩, -⟩ := tokensOf_eq_cons_iff.1 hword
    obtain ⟨written, hwritten, hspelled⟩ := scan_spelled hscan
    -- A word without delimiters is shown by its value, so it was read where a star stands.
    obtain ⟨first, others, heq, hshown⟩ := (hspelled.alike (.done [])).exists_head
    obtain rfl : first = '*' := hshown.eq (by decide)
    rw [List.append_nil] at heq
    rw [heq, List.cons_append, List.cons.injEq] at hwritten
    rw [hwritten.1, scan_star] at hscan
    cases hscan

end Lexer

namespace Grouping

/-- The further parts of a name take the longest tail that stands there. -/
theorem longestTail_take_furtherParts (tokens : List Token) :
    Token.LongestTail tokens (tokens.take (2 * (furtherParts tokens).length)) := by
  induction tokens using furtherParts.induct with
  | case1 word rest hstar =>
    rw [furtherParts, if_pos hstar]
    exact .starWord hstar rest
  | case2 word rest hstar ih =>
    rw [furtherParts, if_neg hstar, List.length_cons, Nat.mul_succ, List.take_succ_cons,
      List.take_succ_cons]
    exact .cons hstar ih
  | case3 rest => exact .star rest
  | case4 tokens hword hstar =>
    rw [furtherParts.eq_3 tokens hword hstar]
    exact .nil hword hstar

/-- A star between delimiters ends a name as a star does. -/
example : furtherParts [.period, .word ⟨"*", some .double⟩, .period, .word ⟨"b", none⟩] =
    [⟨"*", "\"*\"", true⟩] := by decide +kernel

private theorem map_nameParts_furtherParts {α : Type} {f : Token → α} {g : NamePart → α}
    (hword : ∀ word, f (.word word) = g (.ofWord word)) (hstar : f .star = g ⟨"*", "*", false⟩)
    (tokens : List Token) :
    (Token.nameParts (tokens.take (2 * (furtherParts tokens).length))).map f =
      (furtherParts tokens).map g := by
  induction tokens using furtherParts.induct with
  | case1 word rest hvalue =>
    rw [furtherParts, if_pos hvalue]
    exact congrArg (· :: []) (hword word)
  | case2 word rest hvalue ih =>
    rw [furtherParts, if_neg hvalue, List.length_cons, Nat.mul_succ, List.take_succ_cons,
      List.take_succ_cons, Token.nameParts_period, Token.nameParts_word, List.map_cons, ih, hword,
      List.map_cons]
  | case3 rest => exact congrArg (· :: []) hstar
  | case4 tokens hnoWord hnoStar =>
    rw [furtherParts.eq_3 tokens hnoWord hnoStar]
    rfl

private theorem map_nameParts {α : Type} {f : Token → α} {g : NamePart → α}
    (hword : ∀ word, f (.word word) = g (.ofWord word)) (hstar : f .star = g ⟨"*", "*", false⟩)
    (word : Word) (rest : List Token) :
    (Token.nameParts
        (.word word :: rest.take (DottedName.read word rest).furtherTokens)).map f =
      (DottedName.read word rest).parts.map g := by
  rw [Token.nameParts_word, List.map_cons, DottedName.furtherTokens, DottedName.read,
    map_nameParts_furtherParts hword hstar, hword, DottedName.parts, List.map_cons]

/-- The name that starts with a word has the identifier and the text that its tokens give. -/
theorem name_eq_of_nameParts {word : Word} {rest initial : List Token} {final : Token}
    (h : Token.nameParts (.word word :: rest.take (DottedName.read word rest).furtherTokens) =
      initial ++ [final]) :
    (DottedName.read word rest).identifier =
        { name := final.value
          qualifier :=
            if initial = [] then none else some (".".intercalate (initial.map Token.value)) } ∧
      (DottedName.read word rest).joined NamePart.text =
        ".".intercalate ((initial ++ [final]).map Token.render) ∧
      (DottedName.read word rest).joined NamePart.value =
        ".".intercalate ((initial ++ [final]).map Token.value) := by
  have htexts := map_nameParts (f := Token.render) (g := NamePart.text) (fun _ ↦ rfl) rfl word rest
  have hvalues := map_nameParts (f := Token.value) (g := NamePart.value) (fun _ ↦ rfl) rfl word rest
  rw [h] at htexts hvalues
  refine ⟨?_, by rw [DottedName.joined, htexts], by rw [DottedName.joined, hvalues]⟩
  rw [DottedName.parts_eq, List.map_append, List.map_append] at hvalues
  obtain ⟨hinitial, hfinal⟩ := List.append_inj' hvalues rfl
  have hlast : final.value = (DottedName.read word rest).last.value :=
    List.head_eq_of_cons_eq hfinal
  have hnil : initial = [] ↔ (DottedName.read word rest).initial = [] := by
    rw [← List.map_eq_nil_iff (f := Token.value), hinitial, List.map_eq_nil_iff]
  rw [DottedName.identifier, hlast, hinitial]
  simp only [hnil]

end Grouping

/-! ### Tables that go on -/

namespace Builder

/-- What is in a table is at the same position in the other one, but for its parent. -/
def Extends (builder other : Builder) : Prop :=
  ∀ (position : Nat) (entry : Entry), builder.entries[position]? = some entry →
    ∃ parent, other.entries[position]? = some { entry with parent := parent }

variable {builder : Builder} {kind : Kind Node} {positions : List Nat} {position : Nat}
  {entry : Entry}

private theorem getElem?_addLeaf_of_some (h : builder.entries[position]? = some entry)
    (node : Node) :
    (builder.addLeaf node).entries[position]? = some entry := by
  have hlt : position < builder.entries.size := (Array.getElem?_eq_some_iff.1 h).1
  rw [addLeaf, leaf, Array.getElem?_push, if_neg (Nat.ne_of_lt hlt), h]

private theorem getElem?_addGroup_next :
    (builder.addGroup kind positions).entries[builder.next]? =
      some { kind := groupKind positions kind, text := builder.textOf positions,
             children := positions } := by
  rw [addGroup, group, Array.getElem?_push, if_pos]
  exact (size_adopt builder.entries builder.next positions).symm

/-- A group becomes the parent of what it is stored over, and leaves the others as they are. -/
theorem getElem?_addGroup_of_some (h : builder.entries[position]? = some entry) :
    (builder.addGroup kind positions).entries[position]? =
      some (if position ∈ positions then { entry with parent := some builder.next }
        else entry) := by
  have hlt : position < builder.entries.size := (Array.getElem?_eq_some_iff.1 h).1
  rw [addGroup, group, Array.getElem?_push, size_adopt, if_neg (Nat.ne_of_lt hlt),
    getElem?_adopt, h, Option.map_some]

private theorem extends_refl (builder : Builder) : builder.Extends builder :=
  fun _ entry h ↦ ⟨entry.parent, h⟩

/-- A table that goes on from one that goes on goes on from the first. -/
theorem Extends.trans {first second third : Builder} (h : first.Extends second)
    (hnext : second.Extends third) : first.Extends third := by
  intro position entry hentry
  obtain ⟨parent, hsecond⟩ := h position entry hentry
  exact hnext position { entry with parent := parent } hsecond

private theorem extends_addLeaf (builder : Builder) (node : Node) :
    builder.Extends (builder.addLeaf node) :=
  fun _ entry h ↦ ⟨entry.parent, getElem?_addLeaf_of_some h node⟩

private theorem extends_addGroup (builder : Builder) (kind : Kind Node) (positions : List Nat) :
    builder.Extends (builder.addGroup kind positions) := by
  intro position entry hentry
  rw [getElem?_addGroup_of_some hentry]
  split
  · exact ⟨_, rfl⟩
  · exact ⟨entry.parent, rfl⟩

private theorem invariant_extends (builder : Builder) :
    Grouping.Invariant fun other _ ↦ builder.Extends other where
  leaf h _ := h.trans (extends_addLeaf _ _)
  group h _ _ := h.trans (extends_addGroup _ _ _)

end Builder

namespace Grouping

/-! ### What is stored at a word -/

/-- What is stored at a word: the table, the node with its position in it, and how many tokens after
the word belong to the node. -/
structure WordReading where
  builder : Builder
  node : Node
  position : Nat
  taken : Nat

/-- Store a call over its name, blanks, and the arguments that start behind its parenthesis. -/
def storeArguments (builder : Builder) (name : DottedName) (blanks inside : List Token) :
    WordReading :=
  let head := storeHead builder name blanks
  let level := storeLevel head.builder none 0 inside
  let arguments := level.1.regroup
  let closed := (inside.drop level.2).head? == some .closeParen
  let node := callNode name blanks arguments.nodes closed
  let call := storeCall node.kind head arguments closed
  let read := level.2 + if closed then 1 else 0
  ⟨call.1, node, call.2, name.furtherTokens + (blanks.length + 1) + read⟩

/-- Store the name that starts with a word, and the call where the name is one. -/
def storeWord (builder : Builder) (last : Option Node) (word : Word) (rest : List Token) :
    WordReading :=
  let name := DottedName.read word rest
  let after := afterName word rest
  match callGap? last name after with
  | none => ⟨builder.addLeaf name.node, name.node, builder.next, name.furtherTokens⟩
  | some gap => storeArguments builder name (after.take gap) (after.drop (gap + 1))

/-- A name of `count` tokens behind its first word is stored at the next position, and `after` is
what follows it. It is the node that is read, or the first child of that node, which is then a call
with the full name of it. -/
inductive WordReading.StoresName (builder : Builder) (identifier : Identifier) (text : String)
    (count : Nat) (after : List Token) (read : WordReading) : Prop
  | leaf : read.position = builder.next → read.taken = count →
    read.builder.entries[builder.next]? = some { kind := .identifier identifier, text } →
    StoresName builder identifier text count after read
  | call {call : Entry} {blanks inside : List Token} : after = blanks ++ .openParen :: inside →
    (∀ blank ∈ blanks, blank.isBlank = true) → count + blanks.length < read.taken →
    read.builder.entries[builder.next]? =
      some { kind := .identifier identifier, text, parent := some read.position } →
    read.builder.entries[read.position]? = some call →
    call.kind = .function identifier.fullName none → call.children.head? = some builder.next →
    StoresName builder identifier text count after read

section

variable {builder : Builder} {last : Option Node} {depth : Nat} {word : Word}
  {rest blanks inside : List Token}

/-- A name that is no call is all that is stored. -/
theorem storeWord_name
    (hgap : callGap? last (.read word rest) (afterName word rest) = none) :
    storeWord builder last word rest =
      let name := DottedName.read word rest
      ⟨builder.addLeaf name.node, name.node, builder.next, name.furtherTokens⟩ := by
  simp only [storeWord, hgap]

/-- A call is stored with its arguments. -/
theorem storeWord_call (hafter : afterName word rest = blanks ++ .openParen :: inside)
    (hgap : callGap? last (.read word rest) (blanks ++ .openParen :: inside) =
      some blanks.length) :
    storeWord builder last word rest =
      storeArguments builder (.read word rest) blanks inside := by
  have hinside : (blanks ++ .openParen :: inside).drop (blanks.length + 1) = inside := by
    rw [← List.drop_drop, List.drop_left, List.drop_succ_cons, List.drop_zero]
  simp only [storeWord, hafter, hgap, List.take_left, hinside]

/-- At a word that starts a name, a level goes on behind what is stored there. -/
theorem storeLevel_word (hrole : wordRole word rest = .name) :
    storeLevel builder last depth (.word word :: rest) =
      let read := storeWord builder last word rest
      let more := storeLevel read.builder (some read.node) depth (rest.drop read.taken)
      (more.1.cons read.node read.position, more.2 + 1 + read.taken) := by
  cases hgap : callGap? last (.read word rest) (afterName word rest) with
  | none =>
    rw [storeLevel_name hrole hgap, storeWord_name hgap]
    rfl
  | some gap =>
    obtain ⟨blanks, inside, hafter, rfl, -⟩ := callGap?_eq_some hgap
    rw [hafter] at hgap
    have hdrop (count : Nat) : rest.drop
        ((DottedName.read word rest).furtherTokens + (blanks.length + 1) + count) =
          inside.drop count := by
      rw [← List.drop_drop, ← List.drop_drop, ← afterName, hafter, ← List.drop_drop,
        List.drop_left, List.drop_succ_cons, List.drop_zero]
    rw [storeLevel_call hrole hafter hgap, storeWord_call hafter hgap]
    simp only [storeArguments]
    rw [hdrop]
    simp only [Nat.add_assoc]

private theorem extends_storeLeaves (builder : Builder) (nodes : List Node) :
    builder.Extends (storeLeaves builder nodes).builder := by
  induction nodes generalizing builder with
  | nil => exact builder.extends_refl
  | cons node rest ih => exact (builder.extends_addLeaf node).trans (ih _)

private theorem extends_storeLevel (builder : Builder) (last : Option Node) (depth : Nat)
    (tokens : List Token) :
    builder.Extends (storeLevel builder last depth tokens).1.regroup.builder := by
  obtain ⟨nodes, left, hreads⟩ := exists_reads last depth tokens
  have hlevel : (storeLevel builder last depth tokens).1.Holds
      (fun other _ ↦ builder.Extends other) [] nodes :=
    (hreads.holds_storeLevel builder.invariant_extends builder.extends_refl).1
  exact (hlevel.regroup builder.invariant_extends).built

private theorem storesName_storeArguments (builder : Builder) (name : DottedName)
    {blanks : List Token} (hblank : ∀ blank ∈ blanks, blank.isBlank = true) (inside : List Token) :
    (storeArguments builder name blanks inside).StoresName builder name.identifier
      (name.joined NamePart.text) name.furtherTokens (blanks ++ .openParen :: inside) := by
  let named := builder.addLeaf name.node
  let head := storeHead builder name blanks
  let level := storeLevel head.builder none 0 inside
  let arguments := level.1.regroup
  let closed := (inside.drop level.2).head? == some .closeParen
  let mark := storeLeaves arguments.builder (if closed then [.punctuation ")"] else [])
  let positions := head.positions ++ arguments.positions ++ mark.positions
  -- The name is stored first, and the table only goes on until the call is stored over it.
  have hname : named.entries[builder.next]? =
      some { kind := .identifier name.identifier, text := name.joined NamePart.text } :=
    Array.getElem?_push_size
  have hhead : named.Extends head.builder := extends_storeLeaves named _
  have hmark : named.Extends mark.builder :=
    hhead.trans ((extends_storeLevel _ _ _ _).trans (extends_storeLeaves _ _))
  obtain ⟨parent, hentry⟩ := hmark _ _ hname
  have hfirst : builder.next ∈ positions := List.mem_cons_self
  refine .call rfl hblank ?_ ?_ Builder.getElem?_addGroup_next rfl rfl
  · simp only [storeArguments]
    omega
  · exact (Builder.getElem?_addGroup_of_some hentry).trans (by rw [if_pos hfirst]; rfl)

/-- At a word, the name that starts there is stored. -/
theorem storesName_storeWord (builder : Builder) (last : Option Node) (word : Word)
    (rest : List Token) :
    let name := DottedName.read word rest
    (storeWord builder last word rest).StoresName builder name.identifier
      (name.joined NamePart.text) name.furtherTokens (afterName word rest) := by
  cases hgap : callGap? last (.read word rest) (afterName word rest) with
  | none =>
    rw [storeWord_name hgap]
    exact .leaf rfl rfl Array.getElem?_push_size
  | some gap =>
    obtain ⟨blanks, inside, hafter, rfl, hblank⟩ := callGap?_eq_some hgap
    rw [hafter] at hgap
    rw [storeWord_call hafter hgap, hafter]
    exact storesName_storeArguments builder _ hblank inside

end

/-- Wherever a statement is read at a word that is neither a value nor a keyword, the longest name
that stands there is read, to a star at the most. It is stored at the next position with the values
and the texts of its parts: the last one as its name, those before it as its qualifier, and all of
them as its full name, which a call over the name has too. -/
theorem stores_longest_name {tokens : List Token} {start : Nat} {word : Word}
    (hcursor : tokens[start]? = some (.word word))
    (hname : word.quote.isSome = true ∨
      Keyword.isStructural word.value = false ∧ Keyword.isLiteral word.value = false)
    (builder : Builder) (last : Option Node) (depth : Nat) :
    let rest := tokens.drop (start + 1)
    let read := storeWord builder last word rest
    let more := storeLevel read.builder (some read.node) depth (rest.drop read.taken)
    storeLevel builder last depth (tokens.drop start) =
        (more.1.cons read.node read.position, more.2 + 1 + read.taken) ∧
      ∃ (tail initial : List Token) (final : Token) (identifier : Identifier),
        Token.LongestTail rest tail ∧
        Token.nameParts (.word word :: tail) = initial ++ [final] ∧
        identifier.name = final.value ∧
        identifier.qualifier =
          (if initial = [] then none else some (".".intercalate (initial.map Token.value))) ∧
        identifier.aliasName = none ∧
        identifier.fullName = ".".intercalate ((initial ++ [final]).map Token.value) ∧
        read.StoresName builder identifier (".".intercalate ((initial ++ [final]).map Token.render))
          tail.length (rest.drop tail.length) := by
  intro rest read more
  have htokens : tokens.drop start = .word word :: rest := by
    obtain ⟨hlt, hword⟩ := List.getElem?_eq_some_iff.1 hcursor
    rw [← hword, List.getElem_cons_drop]
  let name := DottedName.read word rest
  let tail := rest.take name.furtherTokens
  have hlength : tail.length = name.furtherTokens :=
    List.length_take_of_le (two_mul_length_furtherParts_le rest)
  have hparts : Token.nameParts (.word word :: tail) ≠ [] := List.cons_ne_nil _ _
  obtain ⟨initial, final, hsplit⟩ := List.eq_nil_or_concat _ |>.resolve_left hparts
  rw [List.concat_eq_append] at hsplit
  obtain ⟨hidentifier, htext, hvalue⟩ := name_eq_of_nameParts hsplit
  have hstores := storesName_storeWord builder last word rest
  refine ⟨?_, tail, initial, final, name.identifier, longestTail_take_furtherParts rest, hsplit,
    ?_, ?_, ?_, ?_, ?_⟩
  · rw [htokens]
    exact storeLevel_word (wordRole_eq_name hname rest)
  · exact congrArg Identifier.name hidentifier
  · exact congrArg Identifier.qualifier hidentifier
  · rfl
  · rw [name.identifier_fullName]
    exact hvalue
  · rw [hlength, ← htext]
    exact hstores

/-- Of `db.FROM."t"(*)` the keyword is a part of the name, and the parenthesis makes a call of
it. -/
theorem stores_longest_name_call :
    let rest : List Token := [.period, .word ⟨"FROM", none⟩, .period, .word ⟨"t", some .double⟩,
      .openParen, .star, .closeParen]
    let tokens : List Token := .word ⟨"SELECT", none⟩ :: .blank .space :: .word ⟨"db", none⟩ :: rest
    tokens[2]? = some (.word ⟨"db", none⟩) ∧
      Keyword.isStructural "db" = false ∧ Keyword.isLiteral "db" = false ∧
      (storeWord {} none ⟨"db", none⟩ rest).StoresName {} ⟨"t", some "db.FROM", none⟩
        "db.FROM.\"t\"" 4 [.openParen, .star, .closeParen] := by
  intro rest tokens
  have hcursor : tokens[2]? = some (.word ⟨"db", none⟩) := rfl
  have hname : Keyword.isStructural "db" = false ∧ Keyword.isLiteral "db" = false := by
    decide +kernel
  obtain ⟨-, tail, initial, final, ⟨name, qualifier, aliasName⟩, hlongest, hparts, hfinal,
    hqualifier, halias, -, hstores⟩ := stores_longest_name hcursor (.inr hname) {} none 0
  have htail : tail = rest.take 4 := hlongest.unique (longestTail_take_furtherParts rest)
  have hall : [Token.word ⟨"db", none⟩, .word ⟨"FROM", none⟩] ++ [.word ⟨"t", some .double⟩] =
      initial ++ [final] := by rw [← hparts, htail]; rfl
  obtain ⟨rfl, hlast⟩ := List.append_inj' hall rfl
  obtain rfl := List.head_eq_of_cons_eq hlast
  subst htail
  cases hfinal
  cases halias
  cases hqualifier
  exact ⟨hcursor, hname.1, hname.2, hstores⟩

end Grouping

end SqlFootprint
