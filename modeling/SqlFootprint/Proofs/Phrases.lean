import SqlFootprint.Proofs.Barriers
import SqlFootprint.Proofs.Front

/-!
# Words, names and calls

The small parts of statements, each with its tokens and the nodes that a level reads from them:
blanks, keywords in any case, words that are names, dotted names, calls and aliases.
`Front.plainName`, `Front.call` and `Alias.front` say that they are read so before whatever
stands apart.
-/

namespace SqlFootprint

/-! ### Blanks and keywords -/

/-- The tokens of blanks. -/
def Blank.tokens (blanks : List Blank) : List Token := blanks.map .blank

/-- The nodes of blanks. -/
def Blank.nodes (blanks : List Blank) : List Node :=
  blanks.map fun blank ↦ .leaf .blank blank.render

/-- What is so for the node of every blank is so for all nodes of blanks. -/
theorem Blank.forall_mem_nodes {P : Node → Prop}
    (h : ∀ blank : Blank, P (.leaf .blank blank.render)) (blanks : List Blank) :
    ∀ node ∈ nodes blanks, P node := by
  intro node hmem
  obtain ⟨blank, -, rfl⟩ := List.mem_map.1 hmem
  exact h blank

/-- The nodes of blanks are blanks. -/
theorem Blank.isBlank_nodes (blanks : List Blank) : ∀ node ∈ nodes blanks, node.isBlank = true :=
  forall_mem_nodes (fun _ ↦ rfl) blanks

/-- The front of a sequence is found behind its blanks. -/
theorem Node.significant?_blanks_append (blanks : List Blank) (node : Node) (rest : List Node)
    (hblank : node.isBlank = false) :
    significant? (Blank.nodes blanks ++ node :: rest) =
      some (node, (Blank.nodes blanks ++ [node]).length) := by
  refine significant?_eq_some_iff.2 ⟨_, rest, rfl, ?_, Blank.isBlank_nodes blanks, hblank⟩
  rw [List.length_append, List.length_singleton]

/-- What stands behind blanks and a node. -/
theorem Blank.drop_nodes_append (blanks : List Blank) (node : Node) (rest : List Node) :
    (Blank.nodes blanks ++ node :: rest).drop (Blank.nodes blanks ++ [node]).length = rest := by
  have hsplit : Blank.nodes blanks ++ node :: rest = (Blank.nodes blanks ++ [node]) ++ rest :=
    List.append_cons _ _ _
  rw [hsplit, List.drop_left]

namespace Grouping

/-- No alias starts at a blank. -/
theorem aliasStep_blanks (blanks : List Blank) :
    ∀ node ∈ Blank.nodes blanks, ∀ rest, aliasStep node rest = none :=
  Blank.forall_mem_nodes (fun _ _ ↦ rfl) blanks

/-- No comparison starts at a blank. -/
theorem comparisonStep_blanks (blanks : List Blank) :
    ∀ node ∈ Blank.nodes blanks, ∀ rest, comparisonStep node rest = none :=
  Blank.forall_mem_nodes (fun _ _ ↦ rfl) blanks

/-- No list starts at a blank. -/
theorem listStep_blanks (blanks : List Blank) :
    ∀ node ∈ Blank.nodes blanks, ∀ rest, listStep node rest = none :=
  Blank.forall_mem_nodes (fun _ _ ↦ rfl) blanks

/-- Blanks before nodes stay before what the nodes are grouped to. -/
theorem regroup_blanks_append (blanks : List Blank) (nodes : List Node) :
    regroup (Blank.nodes blanks ++ nodes) = Blank.nodes blanks ++ regroup nodes := by
  rw [regroup, folds_groupAliases.append_of_keeps (aliasStep_blanks blanks),
    folds_groupComparisons.append_of_keeps (comparisonStep_blanks blanks),
    folds_groupLists.append_of_keeps (listStep_blanks blanks)]
  rfl

/-- Blanks stay as they are. -/
theorem regroup_blanks (blanks : List Blank) :
    regroup (Blank.nodes blanks) = Blank.nodes blanks := by
  have happend := regroup_blanks_append blanks []
  rwa [regroup_nil, List.append_nil] at happend

/-- The nodes of blanks leave what stands before them as it is. -/
theorem lastOf_blanks (last : Option Node) (blanks : List Blank) :
    lastOf last (Blank.nodes blanks) = last :=
  lastOf_of_isBlank (Blank.isBlank_nodes blanks) last

end Grouping

/-- Whether a word is listed does not depend on the case of its letters. -/
theorem Text.listed_congr {first second : String} (h : folded first = folded second)
    (table : List String) : listed table first = listed table second := by
  simp only [listed, sameWord, h]

/-- No word that shapes clauses is a value. -/
theorem Keyword.isLiteral_of_isStructural {word : String} (h : isStructural word = true) :
    isLiteral word = false := by
  have hwords : ∀ entry ∈ structuralWords, isLiteral entry = false := by decide
  obtain ⟨entry, hmem, heq⟩ := Text.listed_iff.1 h
  rw [← hwords entry hmem]
  exact (Text.listed_congr heq literalWords).symm

/-- The equals sign. -/
def Symbol.equals : Symbol := ⟨"=", by decide⟩

/-- One of the given words, in any case. -/
structure Spelled (words : List String) where
  text : String
  listed : Text.listed words text = true

namespace Spelled

variable {words : List String}

/-- The word as a token. -/
def token (word : Spelled words) : Token := .word ⟨word.text, none⟩

/-- The word as a keyword of a statement. -/
def node (word : Spelled words) : Node := .leaf .keyword word.text

/-- The word as one of more words. -/
def widen {more : List String} (word : Spelled words) (h : ∀ entry ∈ words, entry ∈ more) :
    Spelled more where
  text := word.text
  listed := by
    obtain ⟨entry, hmem, heq⟩ := Text.listed_iff.1 word.listed
    exact Text.listed_iff.2 ⟨entry, h entry hmem, heq⟩

@[simp] theorem token_widen {more : List String} (word : Spelled words)
    (h : ∀ entry ∈ words, entry ∈ more) : (word.widen h).token = word.token := rfl

/-- What is the same for all given words, and in all cases, is so for the word. -/
theorem eq_of_forall {α : Type} (word : Spelled words) {f : String → α} {value : α}
    (hcase : ∀ first second, Text.folded first = Text.folded second → f first = f second)
    (h : ∀ entry ∈ words, f entry = value) : f word.text = value := by
  obtain ⟨entry, hmem, heq⟩ := Text.listed_iff.1 word.listed
  rw [← h entry hmem, hcase entry word.text heq]

/-- The word is in a table if all given words are, and not if none is. -/
theorem listed_eq (word : Spelled words) {table : List String} {b : Bool}
    (h : ∀ entry ∈ words, Text.listed table entry = b) : Text.listed table word.text = b :=
  word.eq_of_forall (fun _ _ heq ↦ Text.listed_congr heq table) h

/-- The word agrees with another if all given words do, and does not if none does. -/
theorem sameWord_eq (word : Spelled words) {other : String} {b : Bool}
    (h : ∀ entry ∈ words, Text.sameWord entry other = b) :
    Text.sameWord word.text other = b :=
  word.eq_of_forall (fun _ _ heq ↦ by rw [Text.sameWord, Text.sameWord, heq]) h

/-- The keyword is another one if all given words are, and is not if none is. -/
theorem isKeyword_eq (word : Spelled words) {other : String} {b : Bool}
    (h : ∀ entry ∈ words, Text.sameWord entry other = b) : word.node.isKeyword other = b :=
  word.sameWord_eq h

end Spelled

/-! ### Names -/

/-- A word that is a name wherever it stands. -/
structure NameWord where
  word : Word
  isName : word.quote.isSome = true ∨
    (Keyword.isStructural word.value = false ∧ Keyword.isLiteral word.value = false)
  notStar : word.value ≠ "*"

/-- A single word that is a name where it stands alone, be it a star. -/
structure SingleWord where
  word : Word
  isName : word.quote.isSome = true ∨
    (Keyword.isStructural word.value = false ∧ Keyword.isLiteral word.value = false)

/-- A dotted name: after the first part, one that is a star ends it. -/
structure NamePath where
  first : SingleWord
  further : List Word
  notStar : ∀ word ∈ further.dropLast, word.value ≠ "*"

namespace NamePath

open Grouping

/-- The periods and words after the first word. -/
def furtherTokens (name : NamePath) : List Token :=
  name.further.flatMap fun word ↦ [.period, .word word]

/-- The tokens of the name. -/
def tokens (name : NamePath) : List Token := .word name.first.word :: name.furtherTokens

/-- The name with its parts. -/
def dotted (name : NamePath) : DottedName := ⟨.ofWord name.first.word, name.further.map .ofWord⟩

/-- The node of the name. -/
def node (name : NamePath) : Node := name.dotted.node

/-- The last part without its delimiters. -/
def lastPart (name : NamePath) : String := (name.further.getLastD name.first.word).value

/-- The name of the identifier is the last part. -/
theorem identifier_name (name : NamePath) : name.dotted.identifier.name = name.lastPart := by
  simp only [DottedName.identifier, DottedName.last, dotted, lastPart, List.getLastD_eq_getLast?,
    List.getLast?_map]
  cases name.further.getLast? with
  | none => rfl
  | some word => rfl

end NamePath

/-- A dotted name, none of whose parts is a star. -/
structure PlainName where
  first : NameWord
  further : List Word
  notStar : ∀ word ∈ further, word.value ≠ "*"

namespace PlainName

open Grouping

/-- The name as one whose last part may be a star. -/
def path (name : PlainName) : NamePath where
  first := ⟨name.first.word, name.first.isName⟩
  further := name.further
  notStar word hmem := name.notStar word (List.dropLast_subset _ hmem)

/-- The periods and words after the first word. -/
def furtherTokens (name : PlainName) : List Token :=
  name.further.flatMap fun word ↦ [.period, .word word]

/-- The tokens of the name. -/
def tokens (name : PlainName) : List Token := .word name.first.word :: name.furtherTokens

/-- The name with its parts. -/
def dotted (name : PlainName) : DottedName := ⟨.ofWord name.first.word, name.further.map .ofWord⟩

/-- The node of the name. -/
def node (name : PlainName) : Node := name.dotted.node

/-- The last part without its delimiters. -/
def lastPart (name : PlainName) : String := (name.further.getLastD name.first.word).value

/-- The parts without their delimiters, with periods between them. -/
def fullName (name : PlainName) : String :=
  ".".intercalate ((name.first.word :: name.further).map Word.value)

/-- The name of the identifier is the last part. -/
theorem identifier_name (name : PlainName) : name.dotted.identifier.name = name.lastPart :=
  name.path.identifier_name

/-- The full name of the identifier is the full name. -/
theorem identifier_fullName (name : PlainName) :
    name.dotted.identifier.fullName = name.fullName := by
  have hvalues : name.dotted.parts.map NamePart.value =
      (name.first.word :: name.further).map Word.value := by
    simp only [DottedName.parts, dotted, List.map_cons, List.map_map]
    rfl
  rw [DottedName.identifier_fullName, DottedName.joined, hvalues, fullName]

private theorem getLast?_fullName (name : PlainName)
    (h : name.lastPart.toList.getLast? ≠ some '*') :
    name.fullName.toList.getLast? ≠ some '*' := by
  rw [← identifier_fullName, Identifier.fullName, identifier_name]
  split
  · rw [String.toList_append, String.toList_append, List.getLast?_append]
    cases hlast : name.lastPart.toList.getLast? with
    | none => simp
    | some c => simpa [hlast] using h
  · exact h

/-- No part is a star. -/
theorem lastPart_ne_star (name : PlainName) : name.lastPart ≠ "*" := by
  rw [lastPart, List.getLastD_eq_getLast?]
  cases hlast : name.further.getLast? with
  | none => exact name.first.notStar
  | some word => exact name.notStar word (List.mem_of_getLast? hlast)

end PlainName

/-- The name of one word. -/
def NameWord.plain (name : NameWord) : PlainName := ⟨name, [], nofun⟩

/-- A word without delimiters as a name. -/
def NameWord.bare (value : String)
    (isName : (Keyword.isStructural value || Keyword.isLiteral value || value == "*") = false) :
    NameWord where
  word := ⟨value, none⟩
  isName := by
    simp only [Bool.or_eq_false_iff] at isName
    exact .inr isName.1
  notStar := by
    simp only [Bool.or_eq_false_iff, beq_eq_false_iff_ne] at isName
    exact isName.2

namespace Grouping

/-- A word that shapes clauses is a keyword; before a parenthesis, if it names no function. -/
theorem wordRole_eq_keyword {text : String} {rest : List Token}
    (hstructural : Keyword.isStructural text = true)
    (hcall : rest.head? = some .openParen → Keyword.isCallable text = false) :
    wordRole ⟨text, none⟩ rest = .keyword := by
  have hliteral := Keyword.isLiteral_of_isStructural hstructural
  unfold wordRole
  by_cases hparen : rest.head? = some .openParen
  · simp [hstructural, hliteral, hcall hparen]
  · simp [hstructural, hliteral, hparen]

/-- Such a word makes a keyword. -/
theorem tokenNode?_keyword {text : String} {rest : List Token}
    (hstructural : Keyword.isStructural text = true)
    (hcall : rest.head? = some .openParen → Keyword.isCallable text = false)
    (last : Option Node) :
    tokenNode? last rest (.word ⟨text, none⟩) = some (.leaf .keyword text) := by
  simp only [tokenNode?, wordRole_eq_keyword hstructural hcall]

/-- A word with delimiters, and one that is neither a keyword nor a value, is a name everywhere. -/
theorem wordRole_eq_name {word : Word} (h : word.quote.isSome = true ∨
    (Keyword.isStructural word.value = false ∧ Keyword.isLiteral word.value = false))
    (rest : List Token) : wordRole word rest = .name := by
  unfold wordRole
  rcases h with hquote | ⟨hstructural, hliteral⟩
  · rw [if_pos hquote]
  · rw [hstructural, hliteral]
    simp

/-- A word that is a name is one wherever it stands. -/
theorem wordRole_nameWord (name : NameWord) (rest : List Token) :
    wordRole name.word rest = .name := wordRole_eq_name name.isName rest

/-- Words after periods are parts of a name, and so is what follows them. -/
theorem furtherParts_words {words : List Word} (hwords : ∀ word ∈ words, word.value ≠ "*")
    (rest : List Token) :
    furtherParts (words.flatMap (fun word ↦ [.period, .word word]) ++ rest) =
      words.map .ofWord ++ furtherParts rest := by
  induction words with
  | nil => rfl
  | cons word words ih =>
    rw [List.forall_mem_cons] at hwords
    simp only [List.flatMap_cons, List.cons_append, List.nil_append, furtherParts, hwords.1,
      ↓reduceIte, ih hwords.2, List.map_cons]

private theorem furtherParts_path (name : NamePath) {rest : List Token}
    (hrest : rest.head? ≠ some .period) :
    furtherParts (name.furtherTokens ++ rest) = name.further.map .ofWord := by
  have hnil : furtherParts rest = [] := by
    apply furtherParts_eq_nil
    intro more heq
    exact absurd (congrArg List.head? heq) hrest
  have hstar := name.notStar
  rw [NamePath.furtherTokens]
  rcases List.eq_nil_or_concat name.further with hfurther | ⟨words, word, hfurther⟩
  · rw [hfurther]
    exact hnil
  · rw [hfurther, List.concat_eq_append] at hstar ⊢
    rw [List.dropLast_concat] at hstar
    have hlast : furtherParts (.period :: .word word :: rest) = [.ofWord word] := by
      rw [furtherParts, hnil, ite_self]
    rw [List.flatMap_append, List.append_assoc, furtherParts_words hstar, List.map_append]
    exact congrArg _ hlast

/-- A name is read to its last part. -/
theorem read_path (name : NamePath) {rest : List Token} (hrest : rest.head? ≠ some .period) :
    DottedName.read name.first.word (name.furtherTokens ++ rest) = name.dotted := by
  rw [DottedName.read, furtherParts_path name hrest]
  rfl

/-- After a name is what follows its last part. -/
theorem afterName_path (name : NamePath) {rest : List Token}
    (hrest : rest.head? ≠ some .period) :
    afterName name.first.word (name.furtherTokens ++ rest) = rest := by
  have hlength : name.furtherTokens.length = name.dotted.furtherTokens := by
    simp [NamePath.furtherTokens, DottedName.furtherTokens, NamePath.dotted, List.map_const',
      Nat.mul_comm]
  rw [afterName, read_path name hrest, ← hlength, List.drop_left]

namespace Front

variable {last : Option Node} {rest : List Token}

/-- Blanks are read as blanks. -/
theorem blanks (blanks : List Blank) :
    Front last (Blank.tokens blanks) rest (Blank.nodes blanks) := by
  induction blanks generalizing last with
  | nil => exact .nil
  | cons blank blanks ih =>
    have hblank : Front last [.blank blank] (Blank.tokens blanks ++ rest)
        [.leaf .blank blank.render] := .leaf rfl Token.noConfusion Token.noConfusion
    exact hblank.append ih

/-- A keyword is read as one, but before a parenthesis only if it names no function. -/
theorem keyword {words : List String} (word : Spelled words)
    (hwords : ∀ entry ∈ words, Keyword.isStructural entry = true)
    (hcall : rest.head? = some .openParen → Keyword.isCallable word.text = false) :
    Front last [word.token] rest [word.node] := by
  have hnode := tokenNode?_keyword (word.listed_eq hwords) hcall last
  exact .leaf hnode Token.noConfusion Token.noConfusion

/-- A dotted name that is no call is read as one. -/
theorem name (name : NamePath) (hperiod : rest.head? ≠ some .period)
    (hgap : callGap? last name.dotted rest = none) : Front last name.tokens rest [name.node] := by
  intro depth more left h
  have hread := read_path name hperiod
  have hafter := afterName_path name hperiod
  rw [NamePath.tokens, List.cons_append, List.singleton_append, NamePath.node, ← hread]
  apply Reads.name
  · exact wordRole_eq_name name.first.isName _
  · rw [hread, hafter, hgap]
  · rw [hafter, hread]
    exact h

/-- A dotted name is read as one before what stands apart. -/
theorem path (name : NamePath) (hapart : Apart rest) :
    Front last name.tokens rest [name.node] :=
  .name name hapart.1 (callGap?_eq_none hapart.2)

/-- A name is read as one before what stands apart. -/
theorem plainName (name : PlainName) (hapart : Apart rest) :
    Front last name.tokens rest [name.node] :=
  .path name.path hapart

/-- After `INTO` a name is read as one, also before a parenthesis. -/
theorem target (name : PlainName) (hinto : follows last "INTO" = true)
    (hperiod : rest.head? ≠ some .period) : Front last name.tokens rest [name.node] :=
  .name name.path hperiod (by rw [callGap?, if_pos hinto])

/-- Parentheses that belong to no call are read as marks around what stands in them. -/
theorem parens {inner : List Token} {raw : List Node}
    (h : Front (some (.punctuation "(")) inner (.closeParen :: rest) raw) :
    Front last (.openParen :: (inner ++ [.closeParen])) rest
      (.punctuation "(" :: (raw ++ [.punctuation ")"])) := by
  intro depth more left hmore
  simp only [List.cons_append, List.append_assoc, List.nil_append]
  refine .leaf rfl rfl (h _ _ _ (.leaf rfl rfl ?_))
  rw [lastOf, List.foldl_cons, List.foldl_append] at hmore
  exact hmore

/-- Parentheses are read with the blanks before them and what follows them. -/
theorem enclosed {inner more : List Token} {raw others : List Node}
    (h : Front (some (.punctuation "(")) inner (.closeParen :: (more ++ rest)) raw)
    (hmore : Front (some (.punctuation ")")) more rest others) (blanks : List Blank) :
    Front last (Blank.tokens blanks ++ .openParen :: (inner ++ .closeParen :: more)) rest
      (Blank.nodes blanks ++ .punctuation "(" :: (raw ++ .punctuation ")" :: others)) := by
  have hlast (last : Option Node) :
      lastOf last (.punctuation "(" :: (raw ++ [.punctuation ")"])) = some (.punctuation ")") := by
    rw [← List.cons_append, lastOf_append]
    rfl
  have hparens (last : Option Node) := (@parens last _ _ _ h).append ((hlast last).symm ▸ hmore)
  refine (Front.blanks blanks).append ?_
  simpa using hparens _

/-- A name with arguments in parentheses right after it is read as a call. -/
theorem call (name : PlainName) {tokens : List Token} {arguments : List Node}
    (hinto : follows last "INTO" = false) (hstar : name.lastPart.toList.getLast? ≠ some '*')
    (harguments : Reads none 0 tokens arguments [])
    (hnesting : Token.nesting? 0 tokens = some 0) :
    Front last (name.tokens ++ .openParen :: tokens ++ [.closeParen]) rest
      [callNode name.dotted [] (regroup arguments) true] := by
  intro depth more left h
  have hclosed : Reads none 0 (tokens ++ .closeParen :: rest) arguments (.closeParen :: rest) := by
    have hparted : Parted tokens (.closeParen :: rest) :=
      ⟨apart_cons rest rfl Token.noConfusion Token.noConfusion, fun _ ↦ rfl⟩
    have hstop : Reads (lastOf none arguments) 0 (.closeParen :: rest) [] (.closeParen :: rest) :=
      .stop
    have happend := harguments.append hnesting hparted hstop
    rwa [List.append_nil] at happend
  let inside := tokens ++ .closeParen :: rest
  have hperiod : (Token.openParen :: inside).head? ≠ some .period := by simp
  have hread : DottedName.read name.first.word (name.furtherTokens ++ .openParen :: inside) =
      name.dotted := read_path name.path hperiod
  have hgap : callGap? last name.dotted (.openParen :: inside) = some 0 := by
    have hfull := name.getLast?_fullName hstar
    rw [← name.identifier_fullName] at hfull
    simp [callGap?, hinto, hfull, gapBefore, Token.isBlank]
  have htokens : name.tokens ++ .openParen :: tokens ++ [.closeParen] ++ rest =
      .word name.first.word :: (name.furtherTokens ++ .openParen :: inside) := by
    simp [PlainName.tokens, inside]
  rw [htokens]
  have hafter : afterName name.first.word (name.furtherTokens ++ .openParen :: inside) =
      [] ++ .openParen :: inside := afterName_path name.path hperiod
  refine .call (wordRole_nameWord name.first _) hafter ?_ hclosed ?_ h
  · rw [hread]
    exact hgap
  · rw [hread]

end Front

/-- A statement after blanks is grouped as it is without them. -/
theorem statementNodes_blanks_append (blanks : List Blank) (tokens : List Token) :
    statementNodes (Blank.tokens blanks ++ tokens) =
      Blank.nodes blanks ++ statementNodes tokens := by
  obtain ⟨nodes, left, hreads⟩ := exists_reads none 0 tokens
  have hblanks : Reads none 0 (Blank.tokens blanks ++ tokens) (Blank.nodes blanks ++ nodes)
      left := by
    apply Front.blanks blanks
    rwa [lastOf_blanks]
  rcases hreads.left_eq with rfl | ⟨more, rfl⟩
  · rw [hreads.statementNodes_eq, hblanks.statementNodes_eq, regroup_blanks_append]
  · rw [hreads.statementNodes_eq_append, hblanks.statementNodes_eq_append, regroup_blanks_append,
      List.append_assoc]

end Grouping

namespace SingleWord

open Grouping

/-- The node of the word. -/
def node (single : SingleWord) : Node := (DottedName.mk (.ofWord single.word) []).node

/-- The word as a dotted name. -/
def path (single : SingleWord) : NamePath := ⟨single, [], nofun⟩

/-- The word is read as a name before what stands apart. -/
theorem front (single : SingleWord) {last : Option Node} {rest : List Token} (hrest : Apart rest) :
    Front last [.word single.word] rest [single.node] :=
  .path single.path hrest

end SingleWord

/-! ### Aliases -/

/-- A single word that stands for what comes before it, with or without `AS`. -/
structure SingleAlias where
  before : List Blank
  /-- The keyword and the blanks after it. -/
  asWord : Option (Spelled ["AS"] × List Blank)
  name : SingleWord

namespace SingleAlias

open Grouping

/-- The tokens of the alias, from the blanks before it on. -/
def tokens (phrase : SingleAlias) : List Token :=
  Blank.tokens phrase.before ++
    match phrase.asWord with
    | some (word, blanks) => word.token :: (Blank.tokens blanks ++ [.word phrase.name.word])
    | none => [.word phrase.name.word]

/-- The nodes of the alias, from the blanks before it on. -/
def nodes (phrase : SingleAlias) : List Node :=
  Blank.nodes phrase.before ++
    match phrase.asWord with
    | some (word, blanks) => word.node :: (Blank.nodes blanks ++ [phrase.name.node])
    | none => [phrase.name.node]

/-- What the alias stands after stands apart from it. -/
theorem apart (phrase : SingleAlias) (rest : List Token) : Apart (phrase.tokens ++ rest) := by
  rw [tokens, List.append_assoc]
  apply Apart.append_blanks
  split
  · exact apart_cons _ rfl Token.noConfusion Token.noConfusion
  · exact apart_cons _ rfl Token.noConfusion Token.noConfusion

/-- An alias is read before what stands apart. -/
theorem front (phrase : SingleAlias) {last : Option Node} {rest : List Token}
    (hapart : Apart rest) : Front last phrase.tokens rest phrase.nodes := by
  rw [tokens, nodes]
  apply (Front.blanks phrase.before).append
  split
  · next word blanks _ =>
    have hword (last : Option Node) (rest : List Token) :
        Front last [word.token] rest [word.node] :=
      .keyword word (by decide) fun _ ↦ word.listed_eq (by decide)
    exact (hword _ _).append ((Front.blanks blanks).append (phrase.name.front hapart))
  · exact phrase.name.front hapart

private theorem aliasAfter?_name (blanks : List Blank) (name : SingleWord) (rest : List Node) :
    aliasAfter? (Blank.nodes blanks ++ name.node :: rest) =
      (bareName? name.node).map fun found ↦
        (found, (Blank.nodes blanks ++ [name.node]).length) := by
  have hname := Node.significant?_blanks_append blanks name.node rest rfl
  have has : name.node.isKeyword "AS" = false := rfl
  rw [aliasAfter?, hname]
  simp only [has, Bool.false_eq_true, ↓reduceIte]

private theorem aliasAfter?_as (blanks more : List Blank) (word : Spelled ["AS"])
    (name : SingleWord)
    (rest : List Node) :
    aliasAfter? (Blank.nodes blanks ++ word.node :: (Blank.nodes more ++ name.node :: rest)) =
      (bareName? name.node).map fun found ↦
        (found, (Blank.nodes blanks ++ word.node :: (Blank.nodes more ++ [name.node])).length) := by
  let found := Blank.nodes more ++ name.node :: rest
  have hword := Node.significant?_blanks_append blanks word.node found rfl
  have hname := Node.significant?_blanks_append more name.node rest rfl
  have has : word.node.isKeyword "AS" = true := word.isKeyword_eq (by decide)
  rw [aliasAfter?, hword]
  simp only [has, ↓reduceIte]
  rw [Blank.drop_nodes_append, hname]
  simp only [Option.bind_some, List.length_append, List.length_cons, List.length_nil]
  congr 1
  funext found
  rw [Prod.mk.injEq]
  exact ⟨rfl, by omega⟩

/-- The alias is found up to its name, unless the name is a star. -/
theorem aliasAfter?_nodes (phrase : SingleAlias) (rest : List Node) :
    aliasAfter? (phrase.nodes ++ rest) =
      (bareName? phrase.name.node).map fun name ↦ (name, phrase.nodes.length) := by
  rcases phrase with ⟨before, _ | ⟨word, blanks⟩, name⟩
  · rw [nodes, List.append_assoc]
    exact aliasAfter?_name before name rest
  · have has := aliasAfter?_as before blanks word name rest
    rw [nodes, List.append_assoc]
    simp only [List.cons_append, List.append_assoc, List.nil_append]
    exact has

end SingleAlias

/-- A name that stands for what comes before it, with or without `AS`. -/
structure Alias where
  before : List Blank
  /-- The keyword and the blanks after it. -/
  asWord : Option (Spelled ["AS"] × List Blank)
  name : NameWord

namespace Alias

open Grouping

/-- The tokens of the alias, from the blanks before it on. -/
def tokens (phrase : Alias) : List Token :=
  Blank.tokens phrase.before ++
    match phrase.asWord with
    | some (word, blanks) =>
      word.token :: (Blank.tokens blanks ++ [.word phrase.name.word])
    | none => [.word phrase.name.word]

/-- The nodes of the alias, from the blanks before it on. -/
def nodes (phrase : Alias) : List Node :=
  Blank.nodes phrase.before ++
    match phrase.asWord with
    | some (word, blanks) => word.node :: (Blank.nodes blanks ++ [phrase.name.plain.node])
    | none => [phrase.name.plain.node]

/-- The alias as one whose name may be a star. -/
def single (phrase : Alias) : SingleAlias :=
  ⟨phrase.before, phrase.asWord, ⟨phrase.name.word, phrase.name.isName⟩⟩

/-- What the alias stands after stands apart from it. -/
theorem apart (phrase : Alias) (rest : List Token) : Apart (phrase.tokens ++ rest) :=
  phrase.single.apart rest

/-- An alias is read before what stands apart. -/
theorem front (phrase : Alias) {last : Option Node} {rest : List Token} (hapart : Apart rest) :
    Front last phrase.tokens rest phrase.nodes :=
  phrase.single.front hapart

/-- The node of a single word offers it as an alias. -/
theorem bareName?_plain (name : NameWord) : bareName? name.plain.node = some name.word.value := by
  have hidentifier : name.plain.node.identifier? = some ⟨name.word.value, none, none⟩ := rfl
  rw [bareName?, hidentifier]
  exact if_neg name.notStar

/-- The alias is found up to its name. -/
theorem aliasAfter?_nodes (phrase : Alias) (rest : List Node) :
    aliasAfter? (phrase.nodes ++ rest) = some (phrase.name.word.value, phrase.nodes.length) := by
  have hfound : aliasAfter? (phrase.nodes ++ rest) =
      (bareName? phrase.name.plain.node).map fun name ↦ (name, phrase.nodes.length) :=
    phrase.single.aliasAfter?_nodes rest
  rw [hfound, bareName?_plain, Option.map_some]

end Alias

end SqlFootprint
