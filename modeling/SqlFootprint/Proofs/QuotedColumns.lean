import Mathlib.Data.List.Forall2
import SqlFootprint.Proofs.Requoting

/-!
# What the delimiters of words change

A statement is found to be of the same kind and to refer to the same tables and names whatever
delimiters its quoted words stand between. Columns that are derived show the text of tokens, from
which double quotes and backticks are removed and brackets are not: they are the same for other
delimiters exactly if no word among the tokens goes into brackets or out of them
(`findings_requoted`).
-/

namespace SqlFootprint

open List (Forall₂)
open Node Grouping Columns

/-! ### Columns from the same tokens -/

/-- Where a column of two statements in lockstep comes from: a name, or tokens on either side. -/
inductive ColumnSource where
  | named (name : String)
  | derived (run : List (Token × Token))

/-- The column on one of the sides. -/
def ColumnSource.column (side : Token × Token → Token) : ColumnSource → Column
  | named name => .named name
  | derived run => .derived (Columns.derived (Token.shown (run.map side)))

/-- The columns on both sides come from the same sources within the tokens. -/
def SameSources (pairs : List (Token × Token)) (columns others : List Column) : Prop :=
  ∃ sources : List ColumnSource, columns = sources.map (ColumnSource.column Prod.fst) ∧
    others = sources.map (ColumnSource.column Prod.snd) ∧
    ∀ run, .derived run ∈ sources → run <:+: pairs

namespace SameSources

variable {pairs : List (Token × Token)} {columns others rest tail : List Column}

/-- No columns come from no sources. -/
theorem nil : SameSources pairs [] [] := ⟨[], rfl, rfl, nofun⟩

/-- Names are the same on both sides. -/
theorem named (names : List String) :
    SameSources pairs (names.map .named) (names.map .named) := by
  refine ⟨names.map ColumnSource.named, ?_, ?_, ?_⟩
  · rw [List.map_map]
    rfl
  · rw [List.map_map]
    rfl
  · intro run hmem
    obtain ⟨name, -, hname⟩ := List.mem_map.1 hmem
    cases hname

/-- A text is cut from the same tokens on both sides. -/
theorem derived {run : List (Token × Token)} (h : run <:+: pairs) :
    SameSources pairs [.derived (Columns.derived (Token.shown (run.map Prod.fst)))]
      [.derived (Columns.derived (Token.shown (run.map Prod.snd)))] := by
  refine ⟨[.derived run], rfl, rfl, ?_⟩
  intro other hmem
  cases List.mem_singleton.1 hmem
  exact h

/-- The sources of columns in a row. -/
theorem append (h : SameSources pairs columns others) (hrest : SameSources pairs rest tail) :
    SameSources pairs (columns ++ rest) (others ++ tail) := by
  obtain ⟨sources, rfl, rfl, hsources⟩ := h
  obtain ⟨further, rfl, rfl, hfurther⟩ := hrest
  refine ⟨sources ++ further, List.map_append.symm, List.map_append.symm, ?_⟩
  intro run hmem
  rcases List.mem_append.1 hmem with hmem | hmem
  · exact hsources run hmem
  · exact hfurther run hmem

end SameSources

/-! ### Columns of nodes over the same tokens -/

/-- The nodes have the same gist, and their columns the same sources. -/
def SameColumns (pairs : List (Token × Token)) (node other : Node) : Prop :=
  node.gist = other.gist ∧ SameSources pairs (entriesOf node) (entriesOf other)

private theorem sameSources_entriesOfAll {pairs : List (Token × Token)} {nodes others : List Node}
    (h : Forall₂ (SameColumns pairs) nodes others) :
    SameSources pairs (entriesOfAll nodes) (entriesOfAll others) := by
  induction h with
  | nil => exact .nil
  | cons hnode _ ih => exact hnode.2.append ih

private theorem Node.kind_gist {node : Node}
    (h : ∀ left operator right, node.gist.kind ≠ .comparison left operator right) :
    node.gist.kind = node.kind := by
  cases node with
  | mk kind text children =>
    cases kind with
    | comparison => exact absurd rfl (h _ _ _)
    | _ => rfl

private theorem Columns.entriesOf_eq_nil {node left right : Node} {operator : String}
    (h : node.gist.kind = .comparison left operator right) : entriesOf node = [] := by
  cases node with
  | mk kind text children =>
    cases kind with
    | comparison => rfl
    | _ => cases h

private theorem Paired.text_eq {run : List (Token × Token)} {node other : Node}
    (h : Paired run [node] [other]) :
    node.text = Token.shown (run.map Prod.fst) ∧ other.text = Token.shown (run.map Prod.snd) := by
  have htext := h.textOf_eq
  simpa only [textOf_cons, textOf_nil, String.append_empty] using htext

private theorem sameSources_callColumn {pairs run : List (Token × Token)} {name : String}
    {aliasName : Option String} {children children' : List Node} (hrun : run <:+: pairs)
    (hpaired : Paired run children children') :
    SameSources pairs (entriesOf (.group (.function name aliasName) children))
      (entriesOf (.group (.function name aliasName) children')) := by
  have hwhole : SameSources pairs [.derived (Columns.derived (textOf children))]
      [.derived (Columns.derived (textOf children'))] := by
    rw [hpaired.textOf_eq.1, hpaired.textOf_eq.2]
    exact .derived hrun
  cases aliasName with
  | none => exact hwhole
  | some aliasName =>
    cases children with
    | nil =>
      cases hpaired
      exact hwhole
    | cons call rest =>
      obtain ⟨other, more, front, back, rfl, rfl, -, hcall, -⟩ := hpaired.exists_cons
      obtain ⟨htext, hother⟩ := hcall.text_eq
      have hfront : front <:+: pairs := (List.prefix_append front back).isInfix.trans hrun
      have hshown : SameSources pairs [.derived (Columns.derived call.text)]
          [.derived (Columns.derived other.text)] := by
        rw [htext, hother]
        exact .derived hfront
      exact hshown

private theorem sameColumns_group {pairs run : List (Token × Token)} {kind kind' : Kind Node}
    {children children' : List Node} (hrun : run <:+: pairs)
    (hgist : (Node.group kind children).gist = (Node.group kind' children').gist)
    (hpaired : Paired run children children')
    (hchildren : Forall₂ (SameColumns pairs) children children') :
    SameColumns pairs (.group kind children) (.group kind' children') := by
  refine ⟨hgist, ?_⟩
  by_cases hkind : ∃ left operator right,
      (Node.group kind children).gist.kind = .comparison left operator right
  · obtain ⟨left, operator, right, hcomparison⟩ := hkind
    rw [entriesOf_eq_nil hcomparison, entriesOf_eq_nil (hgist ▸ hcomparison)]
    exact .nil
  · simp only [not_exists] at hkind
    have hsame := kind_gist hkind
    rw [hgist, kind_gist (hgist ▸ hkind), kind_group, kind_group] at hsame
    subst hsame
    cases kind' with
    | identifier identifier => exact .named [identifier.fullName]
    | wildcard =>
      have htext : textOf children = textOf children' := congrArg Node.text hgist
      simp only [Node.group, entriesOf, htext]
      exact .named [textOf children']
    | function name aliasName => exact sameSources_callColumn hrun hpaired
    | identifierList => exact sameSources_entriesOfAll hchildren
    | _ => exact .nil

private theorem forall₂_filter_sameColumns {pairs : List (Token × Token)} {nodes others : List Node}
    (h : Forall₂ (SameColumns pairs) nodes others) :
    Forall₂ (SameColumns pairs) (nodes.filter fun node ↦ !node.isBlank && !node.isAnyPunctuation)
      (others.filter fun node ↦ !node.isBlank && !node.isAnyPunctuation) := by
  refine List.rel_filter ?_ h
  rintro node other ⟨hgist, -⟩
  show (!node.isBlank && !node.isAnyPunctuation) = true ↔
    (!other.isBlank && !other.isAnyPunctuation) = true
  rw [← isBlank_gist, ← isAnyPunctuation_gist node, hgist, isBlank_gist, isAnyPunctuation_gist]

private theorem sameColumns_leaf {pairs run : List (Token × Token)} {kind : Kind Node}
    {text other : String}
    (hrun : run <:+: pairs) (hgist : (Node.leaf kind text).gist = (Node.leaf kind other).gist)
    (htext : text = Token.shown (run.map Prod.fst))
    (hother : other = Token.shown (run.map Prod.snd)) :
    SameColumns pairs (.leaf kind text) (.leaf kind other) := by
  refine ⟨hgist, ?_⟩
  cases kind with
  | identifier identifier => exact .named [identifier.fullName]
  | wildcard =>
    obtain rfl : text = other := congrArg Node.text hgist
    exact .named [text]
  | function name aliasName =>
    subst htext hother
    cases aliasName <;> exact .derived hrun
  | _ => exact .nil

private theorem Paired.sameColumns {pairs run : List (Token × Token)} {nodes others : List Node}
    (h : Paired run nodes others) (hrun : run <:+: pairs) :
    Forall₂ (fun node other ↦ SameColumns pairs node other ∧
      Forall₂ (SameColumns pairs) node.items other.items) nodes others := by
  induction h with
  | nil => exact .nil
  | @leaf run more kind text other _ _ hgist htext hother _ ih =>
    have hleaf : SameColumns pairs (.leaf kind text) (.leaf kind other) :=
      sameColumns_leaf ((List.prefix_append run more).isInfix.trans hrun) hgist htext hother
    refine .cons ⟨hleaf, ?_⟩ (ih ((List.suffix_append run more).isInfix.trans hrun))
    cases kind with
    | identifierList => exact .nil
    | _ => exact .cons hleaf .nil
  | @group run more kind kind' children children' _ _ hgist hchildren _ ihChildren ih =>
    have hfront : run <:+: pairs := (List.prefix_append run more).isInfix.trans hrun
    have hinside : Forall₂ (SameColumns pairs) children children' :=
      (ihChildren hfront).imp fun _ _ h ↦ h.1
    have hgroup := sameColumns_group hfront hgist hchildren hinside
    refine .cons ⟨hgroup, ?_⟩ (ih ((List.suffix_append run more).isInfix.trans hrun))
    have hlist : (Node.group kind children).isList = (Node.group kind' children').isList := by
      rw [← isList_gist, hgist, isList_gist]
    rw [items, items, ← hlist]
    split
    · exact forall₂_filter_sameColumns hinside
    · exact .cons hgroup .nil

/-! ### Scans of the projection -/

/-- Two scans stand at the same place; the cases that they are in lie over the same tokens. -/
inductive ScansOver : List (Token × Token) → Scan → Scan → Prop
  | items : ScansOver [] .items .items
  | case {run : List (Token × Token)} {block others : List Node} (around : Nat) :
    Paired run block.reverse others.reverse →
      ScansOver run (.case block around) (.case others around)

private theorem ScansOver.cons {before front : List (Token × Token)} {block others : List Node}
    {node other : Node} (h : Paired before block.reverse others.reverse)
    (hnode : Paired front [node] [other]) :
    Paired (before ++ front) (node :: block).reverse (other :: others).reverse := by
  rw [List.reverse_cons, List.reverse_cons]
  exact h.append hnode

private theorem Paired.sameSources_items {pairs front : List (Token × Token)} {node other : Node}
    {last last' : Option Node} (h : Paired front [node] [other]) (hfront : front <:+: pairs)
    (hlast : last.map gist = last'.map gist) :
    SameSources pairs (entriesOfAll (itemsAfterAlias last node))
      (entriesOfAll (itemsAfterAlias last' other)) := by
  have hitems : Forall₂ (SameColumns pairs) node.items other.items := by
    cases h.sameColumns hfront with
    | cons hnode _ => exact hnode.2
  have halias : introducesAlias last = introducesAlias last' := by
    rw [← introducesAlias_gist, hlast, introducesAlias_gist]
  rw [itemsAfterAlias, itemsAfterAlias, halias]
  split
  · exact sameSources_entriesOfAll (List.forall₂_drop 1 hitems)
  · exact sameSources_entriesOfAll hitems

private theorem sameSources_scanEntries {pairs before run : List (Token × Token)}
    {scan scan' : Scan}
    {last last' : Option Node} {nodes others : List Node} (hscan : ScansOver before scan scan')
    (hlast : last.map gist = last'.map gist) (hnodes : Paired run nodes others)
    (hrun : before ++ run <:+: pairs) :
    SameSources pairs (scanEntries scan last nodes) (scanEntries scan' last' others) := by
  -- By the nodes: a case keeps the tokens that it lies over, an item gives its columns away.
  induction nodes generalizing before run scan scan' last last' others with
  | nil =>
    cases hnodes
    exact .nil
  | cons node rest ih =>
    obtain ⟨other, more, front, back, rfl, rfl, hgist, hnode, hrest⟩ := hnodes.exists_cons
    have hkeyword (word : String) : other.isKeyword word = node.isKeyword word := by
      rw [← isKeyword_gist, ← hgist, isKeyword_gist]
    have hlast' :
        (lastSignificant last node).map gist = (lastSignificant last' other).map gist := by
      rw [lastSignificant, lastSignificant, ← isBlank_gist other, ← hgist, isBlank_gist]
      split
      · exact hlast
      · exact congrArg some hgist
    rw [← List.append_assoc] at hrun
    have hback : [] ++ back <:+: pairs := (List.suffix_append _ back).isInfix.trans hrun
    have hbefore : before ++ front <:+: pairs := (List.prefix_append _ back).isInfix.trans hrun
    cases hscan with
    | items =>
      simp only [scanEntries, hkeyword]
      split
      · exact .nil
      · split
        · exact ih (.case 0 hnode) hlast' hrest hrun
        · exact (hnode.sameSources_items hbefore hlast).append (ih .items hlast' hrest hback)
    | case around hblock =>
      have hcase := ScansOver.cons hblock hnode
      simp only [scanEntries, hkeyword]
      split
      · exact ih (.case (around + 1) hcase) hlast' hrest hrun
      · split
        · cases around with
          | zero =>
            rw [hcase.textOf_eq.1, hcase.textOf_eq.2]
            exact (SameSources.derived hbefore).append (ih .items hlast' hrest hback)
          | succ around => exact ih (.case around hcase) hlast' hrest hrun
        · exact ih (.case around hcase) hlast' hrest hrun

private theorem Paired.afterKeyword? {run : List (Token × Token)} {nodes others : List Node}
    (h : Paired run nodes others) (word : String) :
    (Node.afterKeyword? word nodes = none ∧ Node.afterKeyword? word others = none) ∨
      ∃ back rest more, Node.afterKeyword? word nodes = some rest ∧
        Node.afterKeyword? word others = some more ∧ Paired back rest more ∧ back <:+ run := by
  induction nodes generalizing run others with
  | nil =>
    cases h
    exact .inl ⟨rfl, rfl⟩
  | cons node rest ih =>
    obtain ⟨other, more, front, back, rfl, rfl, hgist, -, hrest⟩ := h.exists_cons
    have hkeyword : other.isKeyword word = node.isKeyword word := by
      rw [← isKeyword_gist, ← hgist, isKeyword_gist]
    rw [Node.afterKeyword?, Node.afterKeyword?, hkeyword]
    split
    · exact .inr ⟨back, rest, more, rfl, rfl, hrest, List.suffix_append front back⟩
    · rcases ih hrest with hnone | ⟨tail, later, others, hrest, hmore, hpaired, htail⟩
      · exact .inl hnone
      · exact .inr ⟨tail, later, others, hrest, hmore, hpaired,
          htail.trans (List.suffix_append front back)⟩

private theorem sameSources_projectionEntries {run : List (Token × Token)}
    {nodes others : List Node}
    (h : Paired run nodes others) :
    SameSources run (projectionEntries nodes) (projectionEntries others) := by
  unfold projectionEntries
  rcases h.afterKeyword? "SELECT" with
    ⟨hnodes, hothers⟩ | ⟨back, rest, more, hnodes, hothers, hpaired, hback⟩
  · rw [hnodes, hothers]
    exact .nil
  · rw [hnodes, hothers]
    exact sameSources_scanEntries .items rfl hpaired hback.isInfix

private theorem sameSources_entries {run : List (Token × Token)} {nodes others : List Node}
    (h : Paired run nodes others) (kind : StatementKind) :
    SameSources run (entries kind nodes) (entries kind others) := by
  have hlist : insertList nodes = insertList others := by
    rw [← insertList_gistOfAll, h.gistOfAll_eq, insertList_gistOfAll]
  have hassigned : assigned nodes = assigned others := by
    rw [← assigned_gistOfAll, h.gistOfAll_eq, assigned_gistOfAll]
  cases kind with
  | select => exact sameSources_projectionEntries h
  | insert =>
    simp only [entries, hlist]
    split
    · exact .named _
    · exact (SameSources.named _).append (sameSources_projectionEntries h)
  | update =>
    simp only [entries, hassigned]
    exact .named _
  | delete => exact .nil
  | unknown => exact .nil

/-! ### Texts of derived columns -/

/-- The token is a word in brackets. -/
def Token.inBrackets : Token → Bool
  | .word ⟨_, some .bracket⟩ => true
  | _ => false

/-- The word has a value, in which no character is a delimiter of words. -/
def Word.Unmarked (word : Word) : Prop :=
  word.value ≠ "" ∧ ∀ c ∈ word.value.toList, c ∉ ['"', '\x60', '[', ']']

namespace Columns

/-- The character is neither a double quote nor a backtick. -/
def isKept (c : Char) : Bool := c != '"' && c != '\x60'

/-- A double quote in the place of a backtick. -/
def doubled (c : Char) : Char := if c = '\x60' then '"' else c

/-- A derived column shows the characters that are kept. -/
theorem toList_derived (text : String) :
    (derived text).toList = (Text.trimChars text.toList).filter isKept := by
  rw [derived, stripQuotes, Text.toList_trim, String.toList_ofList]
  rfl

private theorem isBlank_doubled (c : Char) : Text.isBlank (doubled c) = Text.isBlank c := by
  unfold doubled
  split
  · next h =>
    subst h
    rfl
  · rfl

/-- What is dropped at the front does not depend on backticks. -/
theorem dropWhile_map_doubled (cs : List Char) :
    (cs.map doubled).dropWhile Text.isBlank = (cs.dropWhile Text.isBlank).map doubled := by
  have hcomp : Text.isBlank ∘ doubled = Text.isBlank := funext isBlank_doubled
  rw [List.dropWhile_map, hcomp]

/-- What is kept does not depend on backticks. -/
theorem filter_isKept_map_doubled (cs : List Char) :
    (cs.map doubled).filter isKept = cs.filter isKept := by
  induction cs with
  | nil => rfl
  | cons c rest ih =>
    rw [List.map_cons, List.filter_cons, List.filter_cons, ih]
    by_cases h : c = '\x60'
    · subst h
      rfl
    · rw [doubled, if_neg h]

/-- Texts that are the same but for backticks and double quotes are shown as the same column. -/
theorem derived_congr {text other : String}
    (h : text.toList.map doubled = other.toList.map doubled) : derived text = derived other := by
  have htrim (cs : List Char) :
      (Text.trimChars (cs.map doubled)).filter isKept = (Text.trimChars cs).filter isKept := by
    rw [Text.trimChars, dropWhile_map_doubled, ← List.map_reverse, dropWhile_map_doubled,
      ← List.map_reverse, filter_isKept_map_doubled, Text.trimChars]
  rw [← String.toList_inj, toList_derived, toList_derived, ← htrim, h, htrim]

private theorem dropWhile_append_cons {c : Char} (hc : Text.isBlank c = false)
    (before after : List Char) :
    (before ++ c :: after).dropWhile Text.isBlank =
      before.dropWhile Text.isBlank ++ c :: after := by
  induction before with
  | nil => exact List.dropWhile_cons_of_neg (by simp [hc])
  | cons first before ih =>
    rw [List.cons_append, List.dropWhile_cons, List.dropWhile_cons, ih]
    split <;> rfl

private theorem trimChars_between {first last : Char} (hfirst : Text.isBlank first = false)
    (hlast : Text.isBlank last = false) (before between after : List Char) :
    Text.trimChars (before ++ first :: (between ++ last :: after)) =
      before.dropWhile Text.isBlank ++ first :: (between ++ last ::
        (after.reverse.dropWhile Text.isBlank).reverse) := by
  have hreverse : (before.dropWhile Text.isBlank ++ first :: (between ++ last :: after)).reverse =
      after.reverse ++ last :: (before.dropWhile Text.isBlank ++ first :: between).reverse := by
    simp
  rw [Text.trimChars, dropWhile_append_cons hfirst, hreverse, dropWhile_append_cons hlast]
  simp

private theorem derived_ne_of_bracket {text other : String} {word : Word} {quote : Quote}
    {before before' after after' : List Char} (hword : word.Unmarked) (hquote : quote ≠ .bracket)
    (hbefore : before.map doubled = before'.map doubled)
    (htext : text.toList = before ++ '[' :: (word.value.toList ++ ']' :: after))
    (hother : other.toList =
      before' ++ quote.opening :: (word.value.toList ++ quote.closing :: after')) :
    derived text ≠ derived other := by
  obtain ⟨hne, hfree⟩ := hword
  obtain ⟨first, rest, hvalue⟩ : ∃ first rest, word.value.toList = first :: rest := by
    apply List.exists_cons_of_ne_nil
    simpa using hne
  rw [hvalue] at htext hother
  -- Up to the word the same characters are kept; then there is a bracket on one side only.
  have hkept : (before.dropWhile Text.isBlank).filter isKept =
      (before'.dropWhile Text.isBlank).filter isKept := by
    rw [← filter_isKept_map_doubled, ← dropWhile_map_doubled, hbefore, dropWhile_map_doubled,
      filter_isKept_map_doubled]
  have hdelimiters : isKept quote.opening = false ∧ Text.isBlank quote.opening = false ∧
      Text.isBlank quote.closing = false := by
    cases quote with
    | bracket => exact absurd rfl hquote
    | _ => exact ⟨rfl, rfl, rfl⟩
  have hfirst := hfree first (by rw [hvalue]; exact List.mem_cons_self)
  simp only [List.mem_cons, List.not_mem_nil, or_false, not_or] at hfirst
  have hword (tail : List Char) :
      (first :: rest ++ tail).filter isKept = first :: (rest ++ tail).filter isKept :=
    List.filter_cons_of_pos (by simp [isKept, hfirst.1, hfirst.2.1])
  intro heq
  rw [← String.toList_inj, toList_derived, toList_derived, htext, hother,
    trimChars_between rfl rfl, trimChars_between hdelimiters.2.1 hdelimiters.2.2,
    List.filter_append, List.filter_append, hkept, List.append_cancel_left_eq,
    List.filter_cons_of_pos rfl,
    List.filter_cons_of_neg (by simp [hdelimiters.1]), hword, hword] at heq
  exact hfirst.2.2.1 (List.cons.inj heq).1.symm

end Columns

/-- A quoted word is shown between its delimiters. -/
theorem Token.toList_render_word (value : String) (quote : Quote) :
    (Token.word ⟨value, some quote⟩).render.toList =
      quote.opening :: (value.toList ++ [quote.closing]) := by
  simp [render, Word.render, String.toList_append, String.toList_singleton]

private theorem Token.toList_shown_word (before after : List Token) (value : String)
    (quote : Quote) :
    (shown (before ++ .word ⟨value, some quote⟩ :: after)).toList =
      (shown before).toList ++
        quote.opening :: (value.toList ++ quote.closing :: (shown after).toList) := by
  rw [shown_append, shown_cons, String.toList_append, String.toList_append, toList_render_word]
  simp

namespace Requoted

variable {run : List (Token × Token)}

/-- Where all words keep their brackets, both sides are the same but for backticks and double
quotes. -/
theorem map_doubled_shown (h : Requoted run)
    (hkept : ∀ pair ∈ run, pair.1.inBrackets = pair.2.inBrackets) :
    (Token.shown (run.map Prod.fst)).toList.map Columns.doubled =
      (Token.shown (run.map Prod.snd)).toList.map Columns.doubled := by
  induction run with
  | nil => rfl
  | cons pair rest ih =>
    obtain ⟨token, other⟩ := pair
    obtain ⟨hpair, hrest⟩ := List.forall_mem_cons.1 h
    obtain ⟨hbrackets, hothers⟩ := List.forall_mem_cons.1 hkept
    have htoken : token.render.toList.map Columns.doubled =
        other.render.toList.map Columns.doubled := by
      cases hpair with
      | same => rfl
      | word value quote other =>
        rw [Token.toList_render_word, Token.toList_render_word, List.map_cons, List.map_cons,
          List.map_append, List.map_append]
        cases quote <;> cases other <;> first | rfl | cases hbrackets
    rw [List.map_cons, List.map_cons, Token.shown_cons, Token.shown_cons, String.toList_append,
      String.toList_append, List.map_append, List.map_append, htoken, ih hrest hothers]

/-- Tokens are shown as the same column on both sides exactly if all words keep their brackets. -/
theorem derived_shown_eq_iff (h : Requoted run)
    (hwords : ∀ pair ∈ run, ∀ word : Word, pair.1 = .word word → word.quote.isSome = true →
      word.Unmarked) :
    Columns.derived (Token.shown (run.map Prod.fst)) =
        Columns.derived (Token.shown (run.map Prod.snd)) ↔
      ∀ pair ∈ run, pair.1.inBrackets = pair.2.inBrackets := by
  constructor
  · intro heq
    by_contra hsome
    -- The columns differ at the first word that goes into brackets or out of them.
    obtain ⟨pair, hfound⟩ : ∃ pair,
        run.find? (fun pair ↦ pair.1.inBrackets != pair.2.inBrackets) = some pair := by
      rw [← Option.isSome_iff_exists, List.find?_isSome]
      simpa using hsome
    obtain ⟨hpair, before, after, rfl, hbefore⟩ := List.find?_eq_some_iff_append.1 hfound
    have hsame := map_doubled_shown (fun pair hmem ↦ h pair (List.mem_append_left _ hmem))
      (by simpa using hbefore)
    obtain ⟨token, other⟩ := pair
    have hrequotes := h (token, other) (List.mem_append_right _ List.mem_cons_self)
    have hunmarked := hwords (token, other) (List.mem_append_right _ List.mem_cons_self)
    cases hrequotes with
    | same => simp at hpair
    | word value quote other =>
      have hclear := hunmarked _ rfl rfl
      rw [List.map_append, List.map_append, List.map_cons, List.map_cons] at heq
      have htext := Token.toList_shown_word (before.map Prod.fst) (after.map Prod.fst) value quote
      have hother := Token.toList_shown_word (before.map Prod.snd) (after.map Prod.snd) value other
      by_cases hquote : quote = .bracket
      · subst hquote
        have hne : other ≠ .bracket := by
          rintro rfl
          simp [Token.inBrackets] at hpair
        exact Columns.derived_ne_of_bracket hclear hne hsame htext hother heq
      · obtain rfl : other = .bracket := by
          cases quote <;> cases other <;> simp_all [Token.inBrackets]
        exact Columns.derived_ne_of_bracket hclear hquote hsame.symm hother htext heq.symm
  · exact fun hkept ↦ Columns.derived_congr (h.map_doubled_shown hkept)

end Requoted

/-! ### Statements -/

/-- Tokens in pairs, from two lists. -/
theorem requoted_zip {tokens others : List Token} (h : Forall₂ Requotes tokens others) :
    Requoted (tokens.zip others) ∧ (tokens.zip others).map Prod.fst = tokens ∧
      (tokens.zip others).map Prod.snd = others := by
  refine ⟨?_, List.map_fst_zip (Nat.le_of_eq h.length_eq),
    List.map_snd_zip (Nat.le_of_eq h.length_eq.symm)⟩
  intro pair hmem
  exact (List.forall₂_iff_zip.1 h).2 hmem

/-- Statements in lockstep are of the same kind, refer to the same tables, and have columns from the
same sources. -/
theorem Paired.findings {tokens others : List Token} {run : List (Token × Token)}
    (h : Paired run (statementNodes tokens) (statementNodes others)) :
    (groupStatement others).statementKind = (groupStatement tokens).statementKind ∧
      (groupStatement others).tableCandidates = (groupStatement tokens).tableCandidates ∧
      SameSources run (groupStatement tokens).columns (groupStatement others).columns := by
  have hgists := h.gistOfAll_eq
  have hkind :
      StatementKind.ofNodes (statementNodes others) = .ofNodes (statementNodes tokens) := by
    rw [← StatementKind.ofNodes_gistOfAll, ← hgists, StatementKind.ofNodes_gistOfAll]
  refine ⟨?_, ?_, ?_⟩
  · rw [statementKind_groupStatement rfl, statementKind_groupStatement rfl, hkind]
  · rw [tableCandidates_groupStatement rfl, tableCandidates_groupStatement rfl, hkind,
      ← Tables.candidates_gistOfAll, ← hgists, Tables.candidates_gistOfAll]
  · rw [columns_groupStatement rfl, columns_groupStatement rfl, hkind]
    exact sameSources_entries h _

/-- Columns from the same sources are reported by the same texts exactly if each text is the same on
both sides. -/
theorem map_text_eq_iff (sources : List ColumnSource) :
    ((sources.map (ColumnSource.column Prod.snd)).map Column.text =
        (sources.map (ColumnSource.column Prod.fst)).map Column.text) ↔
      ∀ run, .derived run ∈ sources →
        Columns.derived (Token.shown (run.map Prod.fst)) =
          Columns.derived (Token.shown (run.map Prod.snd)) := by
  rw [List.map_map, List.map_map, List.map_inj_left]
  constructor
  · intro h run hmem
    exact (h _ hmem).symm
  · intro h source hmem
    cases source with
    | named name => rfl
    | derived run => exact (h run hmem).symm

/-- The delimiters of quoted words have no influence on the kind of a statement, on its tables and
on its named columns. A derived column is cut from the same tokens; all columns are reported by the
same texts if no word of those tokens goes into brackets or out of them, and only then where no
quoted word is empty or has a delimiter in it. -/
theorem findings_requoted {tokens others : List Token} (h : Forall₂ Requotes tokens others) :
    (groupStatement others).statementKind = (groupStatement tokens).statementKind ∧
      (groupStatement others).tableCandidates = (groupStatement tokens).tableCandidates ∧
      ∃ sources : List ColumnSource,
        (groupStatement tokens).columns = sources.map (ColumnSource.column Prod.fst) ∧
        (groupStatement others).columns = sources.map (ColumnSource.column Prod.snd) ∧
        (∀ run, .derived run ∈ sources → run <:+: (tokens.zip others).filter isShown) ∧
        ((∀ run, .derived run ∈ sources → ∀ pair ∈ run, pair.1.inBrackets = pair.2.inBrackets) →
          (groupStatement others).columnCandidates = (groupStatement tokens).columnCandidates) ∧
        ((∀ word : Word, .word word ∈ tokens → word.quote.isSome = true → word.Unmarked) →
          (groupStatement others).columnCandidates = (groupStatement tokens).columnCandidates →
          ∀ run, .derived run ∈ sources → ∀ pair ∈ run, pair.1.inBrackets = pair.2.inBrackets) := by
  obtain ⟨hpairs, hfirst, hsecond⟩ := requoted_zip h
  have hpaired := paired_statementNodes hpairs
  rw [hfirst, hsecond] at hpaired
  obtain ⟨hkind, htables, sources, hcolumns, hothers, hruns⟩ := hpaired.findings
  have hrequoted {run : List (Token × Token)} (hmem : .derived run ∈ sources) : Requoted run :=
    fun pair hpair ↦ hpairs pair (List.mem_of_mem_filter ((hruns run hmem).subset hpair))
  rw [← TokenTree.map_text_columns, ← TokenTree.map_text_columns, hcolumns, hothers,
    map_text_eq_iff]
  refine ⟨hkind, htables, sources, rfl, rfl, hruns, ?_, ?_⟩
  · intro hkept run hmem
    exact Columns.derived_congr ((hrequoted hmem).map_doubled_shown (hkept run hmem))
  · intro hwords hsame run hmem
    refine ((hrequoted hmem).derived_shown_eq_iff fun pair hpair word hword ↦ ?_).1 (hsame run hmem)
    apply hwords word
    rw [← hword, ← hfirst]
    exact List.mem_map_of_mem (List.mem_of_mem_filter ((hruns run hmem).subset hpair))

/-- The query `SELECT COUNT(id) FROM t` with `id` between delimiters. -/
def Requotes.query (quote : Quote) : List Token :=
  [.word ⟨"SELECT", none⟩, .blank .space, .word ⟨"COUNT", none⟩, .openParen,
    .word ⟨"id", some quote⟩, .closeParen, .blank .space, .word ⟨"FROM", none⟩, .blank .space,
    .word ⟨"t", none⟩]

/-- The queries differ in delimiters only. -/
theorem Requotes.forall₂_query (quote other : Quote) :
    Forall₂ Requotes (query quote) (query other) := by
  have hrefl (tokens : List Token) : Forall₂ Requotes tokens tokens :=
    List.forall₂_same.2 fun token _ ↦ .same token
  exact List.rel_append (hrefl ((query quote).take 4))
    (.cons (.word "id" quote other) (hrefl ((query quote).drop 5)))

/-- Double quotes and backticks are shown alike. -/
theorem findings_requoted_backtick :
    Forall₂ Requotes (Requotes.query .double) (Requotes.query .backtick) ∧
      (groupStatement (Requotes.query .backtick)).columnCandidates =
        (groupStatement (Requotes.query .double)).columnCandidates := by
  have hrequotes := Requotes.forall₂_query .double .backtick
  obtain ⟨-, -, sources, -, -, hruns, hsame, -⟩ := findings_requoted hrequotes
  refine ⟨hrequotes, hsame fun run hmem pair hpair ↦ ?_⟩
  have hzip : ∀ pair ∈ (Requotes.query .double).zip (Requotes.query .backtick),
      pair.1.inBrackets = pair.2.inBrackets := by decide
  exact hzip pair (List.mem_of_mem_filter ((hruns run hmem).subset hpair))

/-- Brackets are shown in a derived column, and double quotes are not. -/
theorem columnCandidates_brackets :
    Forall₂ Requotes (Requotes.query .bracket) (Requotes.query .double) ∧
      (groupStatement (Requotes.query .bracket)).columnCandidates = ["COUNT([id])"] ∧
      (groupStatement (Requotes.query .double)).columnCandidates = ["COUNT(id)"] := by
  refine ⟨Requotes.forall₂_query .bracket .double, ?_, ?_⟩
  · decide +kernel
  · decide +kernel

end SqlFootprint
