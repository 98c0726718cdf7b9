import SqlFootprint.Analysis.Columns
import SqlFootprint.Analysis.Tables
import SqlFootprint.Proofs.Conservation
import SqlFootprint.Proofs.Cuts
import SqlFootprint.Proofs.Phrases

/-!
# Clauses of a statement

`Makes last tokens nodes` says that tokens are grouped to the given nodes wherever they stand after
the node `last` and before what stands apart. A barrier between two such parts makes one of them
(`Makes.append_cons`), and a keyword that starts a clause is a barrier, so a statement is grouped
clause by clause.
What a statement may refer to is read off the nodes (`tableCandidates_groupStatement`,
`columnCandidates_groupStatement`).
-/

namespace SqlFootprint

/-- The tables that the statement of a stored tree may refer to. -/
def TokenTree.tableCandidates (tree : TokenTree) : List String :=
  Tables.candidates (.ofNodes tree.nodes) tree.nodes

/-- The columns that the statement of a stored tree may refer to. -/
def TokenTree.columnCandidates (tree : TokenTree) : List String :=
  Columns.candidates (.ofNodes tree.nodes) tree.nodes

/-- The kind of the statement of a stored tree. -/
def TokenTree.statementKind (tree : TokenTree) : StatementKind := .ofNodes tree.nodes

/-- The kind of the statement of a stored tree with its tables and columns, in their order. -/
def TokenTree.findings (tree : TokenTree) : StatementKind × List String × List String :=
  (tree.statementKind, tree.tableCandidates, tree.columnCandidates)

/-- The kind of a statement is that of its nodes. -/
theorem statementKind_groupStatement {tokens : List Token} {nodes : List Node}
    (h : Grouping.statementNodes tokens = nodes) :
    (groupStatement tokens).statementKind = .ofNodes nodes := by
  rw [TokenTree.statementKind, nodes_groupStatement, h]

/-- The tables of a statement are those of its nodes. -/
theorem tableCandidates_groupStatement {tokens : List Token} {nodes : List Node}
    (h : Grouping.statementNodes tokens = nodes) :
    (groupStatement tokens).tableCandidates = Tables.candidates (.ofNodes nodes) nodes := by
  rw [TokenTree.tableCandidates, nodes_groupStatement, h]

/-- The columns of a statement are those of its nodes. -/
theorem columnCandidates_groupStatement {tokens : List Token} {nodes : List Node}
    (h : Grouping.statementNodes tokens = nodes) :
    (groupStatement tokens).columnCandidates = Columns.candidates (.ofNodes nodes) nodes := by
  rw [TokenTree.columnCandidates, nodes_groupStatement, h]

/-! ### The first keyword -/

private theorem StatementKind.isBlank_of_ofNode? {node : Node} {kind : StatementKind}
    (h : ofNode? node = some kind) : node.isBlank = false := by
  cases node with
  | mk own text children =>
    cases own with
    | blank => cases h
    | _ => rfl

/-- A statement is of the kind that its first node names. -/
theorem StatementKind.ofNodes_of_ofNode? {node : Node} {kind : StatementKind}
    (h : ofNode? node = some kind) (blanks : List Blank) (rest : List Node) :
    ofNodes (Blank.nodes blanks ++ node :: rest) = kind := by
  rw [ofNodes, List.dropWhile_append_of_pos (Blank.isBlank_nodes blanks),
    List.dropWhile_cons_of_neg (by simp [isBlank_of_ofNode? h])]
  simp only [h]

/-- A statement is of the kind that its first keyword names. -/
theorem StatementKind.ofNodes_keyword {words : List String} (word : Spelled words)
    {kind : StatementKind} (h : ∀ entry ∈ words, ofKeyword? entry = some kind)
    (blanks : List Blank) (rest : List Node) :
    ofNodes (Blank.nodes blanks ++ word.node :: rest) = kind := by
  have hkind : ofNode? word.node = some kind := by
    refine word.eq_of_forall ?_ h
    intro first second heq
    simp only [ofKeyword?, Text.sameWord, heq]
  exact ofNodes_of_ofNode? hkind blanks rest

/-- A keyword is no other word. -/
theorem Node.isKeyword_eq_false {node : Node} {word other : String} (h : node.isKeyword word = true)
    (hother : Text.sameWord word other = false) : node.isKeyword other = false := by
  obtain ⟨-, hsame⟩ := Bool.and_eq_true_iff.1 h
  rw [isKeyword, Text.sameWord, Text.sameWord_iff.1 hsame, ← Text.sameWord, hother, Bool.and_false]

/-- Behind nodes that are not the keyword, its first occurrence is searched further. -/
theorem Node.afterKeyword?_append {word : String} {before : List Node}
    (h : ∀ node ∈ before, node.isKeyword word = false) (rest : List Node) :
    afterKeyword? word (before ++ rest) = afterKeyword? word rest := by
  induction before with
  | nil => rfl
  | cons node before ih =>
    rw [List.forall_mem_cons] at h
    rw [List.cons_append, afterKeyword?, h.1, if_neg Bool.false_ne_true, ih h.2]

/-- What stands after a keyword is the end of the nodes, and the keyword stands before it. -/
theorem Node.afterKeyword?_eq_some {word : String} {nodes rest : List Node}
    (h : afterKeyword? word nodes = some rest) :
    ∃ before node, nodes = before ++ node :: rest ∧ node.isKeyword word = true := by
  induction nodes with
  | nil => cases h
  | cons node nodes ih =>
    unfold afterKeyword? at h
    split at h
    · next hword =>
      cases h
      exact ⟨[], node, rfl, hword⟩
    · obtain ⟨before, found, rfl, hword⟩ := ih h
      exact ⟨node :: before, found, rfl, hword⟩

/-- After blanks, the first occurrence of a keyword is searched further. -/
theorem Node.afterKeyword?_blanks (word : String) (blanks : List Blank) (rest : List Node) :
    afterKeyword? word (Blank.nodes blanks ++ rest) = afterKeyword? word rest :=
  afterKeyword?_append (Blank.forall_mem_nodes (fun _ ↦ rfl) blanks) rest

/-- After blanks, the first name is searched further. -/
theorem Node.findSome?_identifier?_blanks (blanks : List Blank) (rest : List Node) :
    (Blank.nodes blanks ++ rest).findSome? identifier? = rest.findSome? identifier? := by
  have hnone : (Blank.nodes blanks).findSome? identifier? = none :=
    List.findSome?_eq_none_iff.2 (Blank.forall_mem_nodes (fun _ ↦ rfl) blanks)
  rw [List.findSome?_append, hnone, Option.none_or]

/-- Behind any other node, a keyword is searched further. -/
theorem Node.afterKeyword?_cons {word : String} {node : Node} (h : node.isKeyword word = false)
    (rest : List Node) : afterKeyword? word (node :: rest) = afterKeyword? word rest := by
  rw [afterKeyword?, h, if_neg Bool.false_ne_true]

/-- What stands after a keyword goes on with what follows the nodes. -/
theorem Node.afterKeyword?_append_of_some {word : String} {nodes after : List Node}
    (h : afterKeyword? word nodes = some after) (rest : List Node) :
    afterKeyword? word (nodes ++ rest) = some (after ++ rest) := by
  induction nodes with
  | nil => cases h
  | cons node nodes ih =>
    rw [afterKeyword?] at h
    rw [List.cons_append, afterKeyword?]
    split at h
    · next hword =>
      cases h
      rw [if_pos hword]
    · next hword => rw [if_neg hword, ih h]

/-- A keyword is found where it stands. -/
theorem Node.afterKeyword?_keyword {words : List String} (word : Spelled words) {other : String}
    (h : ∀ entry ∈ words, Text.sameWord entry other = true) (rest : List Node) :
    afterKeyword? other (word.node :: rest) = some rest := by
  rw [afterKeyword?, if_pos (word.isKeyword_eq h)]

/-- The word starts a clause: it shapes the statement, names no function and is not `AS`. -/
def Keyword.startsClause (word : String) : Bool :=
  isStructural word && !isCallable word && !Text.sameWord word "AS"

/-- What a word that starts a clause is and is not. -/
theorem Keyword.of_startsClause {word : String} (h : startsClause word = true) :
    isStructural word = true ∧ isCallable word = false ∧ Text.sameWord word "AS" = false := by
  simpa [startsClause, and_assoc] using h

namespace Grouping

/-- A keyword stands apart with all that follows. -/
theorem apart_keyword {words : List String} (word : Spelled words) (rest : List Token) :
    Apart (word.token :: rest) :=
  apart_cons rest rfl Token.noConfusion Token.noConfusion

/-- A keyword that starts a clause is read as one before whatever follows. -/
theorem Front.clause {words : List String} (word : Spelled words)
    (hwords : ∀ entry ∈ words, Keyword.startsClause entry = true) (last : Option Node)
    (rest : List Token) : Front last [word.token] rest [word.node] := by
  refine .keyword word ?_ fun _ ↦ word.listed_eq ?_
  · exact fun entry hmem ↦ (Keyword.of_startsClause (hwords entry hmem)).1
  · exact fun entry hmem ↦ (Keyword.of_startsClause (hwords entry hmem)).2.1

/-- A keyword that starts a clause is a barrier. -/
theorem isBarrier_clause {words : List String} (word : Spelled words)
    (hwords : ∀ entry ∈ words, Keyword.startsClause entry = true) : IsBarrier word.node :=
  isBarrier_keyword (word.sameWord_eq fun entry hmem ↦
    (Keyword.of_startsClause (hwords entry hmem)).2.2)

/-- A keyword that starts a clause cuts a statement. -/
theorem Cuts.clause {words : List String} (word : Spelled words)
    (hwords : ∀ entry ∈ words, Keyword.startsClause entry = true) : Cuts word.token word.node where
  front last rest := .clause word hwords last rest
  barrier := isBarrier_clause word hwords
  solid := rfl
  apart := apart_keyword word

/-! ### Tokens that make nodes -/

/-- The tokens, after `last` and before what stands apart, are grouped to the nodes. -/
def Makes (last : Option Node) (tokens : List Token) (nodes : List Node) : Prop :=
  ∀ rest, Apart rest → ∃ raw, Front last tokens rest raw ∧ regroup raw = nodes

namespace Makes

variable {last : Option Node} {tokens : List Token} {nodes : List Node}

/-- Blanks make blanks. -/
theorem blanks (blanks : List Blank) : Makes last (Blank.tokens blanks) (Blank.nodes blanks) :=
  fun _ _ ↦ ⟨Blank.nodes blanks, .blanks blanks, regroup_blanks blanks⟩

/-- What stands before and after a barrier is grouped on its own. -/
theorem append_cons {token : Token} {node : Node} {more : List Token} {others : List Node}
    (hfirst : Makes last tokens nodes) (hbarrier : IsBarrier node) (hblank : node.isBlank = false)
    (hapart : ∀ rest, Apart (token :: rest))
    (htoken : ∀ last rest, Apart rest → Front last [token] (more ++ rest) [node])
    (hsecond : Makes (some node) more others) :
    Makes last (tokens ++ token :: more) (nodes ++ node :: others) := by
  intro rest hrest
  obtain ⟨raw, hraw, hnodes⟩ := hfirst (token :: (more ++ rest)) (hapart _)
  obtain ⟨after, hafter, hothers⟩ := hsecond rest hrest
  refine ⟨raw ++ node :: after, ?_, ?_⟩
  · have hlast (last : Option Node) : lastOf last [node] = some node := by
      simp [lastOf, Node.lastSignificant, hblank]
    refine hraw.append ((htoken _ rest hrest).append ?_)
    rwa [hlast]
  · rw [regroup_append_cons hbarrier, hnodes, hothers]

/-- A keyword, with what stands before it and after it. -/
theorem append_keyword {words : List String} {more : List Token} {others : List Node}
    (hfirst : Makes last tokens nodes) (word : Spelled words)
    (hwords : ∀ entry ∈ words, Keyword.isStructural entry = true)
    (has : ∀ entry ∈ words, Text.sameWord entry "AS" = false)
    (hcall : ∀ rest, Apart rest → (more ++ rest).head? = some .openParen →
      Keyword.isCallable word.text = false)
    (hsecond : Makes (some word.node) more others) :
    Makes last (tokens ++ word.token :: more) (nodes ++ word.node :: others) := by
  refine hfirst.append_cons (isBarrier_keyword (word.sameWord_eq has)) rfl ?_ ?_ hsecond
  · exact fun rest ↦ apart_cons rest rfl Token.noConfusion Token.noConfusion
  · exact fun _ rest hrest ↦ .keyword word hwords (hcall rest hrest)

/-- A keyword that starts a clause, with what stands before it and the clause. -/
theorem append_clause {words : List String} {more : List Token} {others : List Node}
    (hfirst : Makes last tokens nodes) (word : Spelled words)
    (hwords : ∀ entry ∈ words, Keyword.startsClause entry = true)
    (hsecond : Makes (some word.node) more others) :
    Makes last (tokens ++ word.token :: more) (nodes ++ word.node :: others) :=
  hfirst.append_cons (isBarrier_clause word hwords) rfl (apart_keyword word)
    (fun _ _ _ ↦ .clause word hwords _ _) hsecond

/-- A semicolon, if there is one, with what stands before it and blanks after it. -/
theorem append_semicolon (h : Makes last tokens nodes) (semicolon : Option (List Blank)) :
    Makes last (tokens ++ semicolon.elim [] fun blanks ↦ .semicolon :: Blank.tokens blanks)
      (nodes ++ semicolon.elim [] fun blanks ↦ .punctuation ";" :: Blank.nodes blanks) := by
  cases semicolon with
  | none => simpa using h
  | some blanks =>
    have hbarrier : IsBarrier (.punctuation ";") := isBarrier_punctuation (by decide) (by decide)
    refine h.append_cons hbarrier rfl ?_ ?_ (.blanks blanks)
    · exact fun rest ↦ apart_cons rest rfl Token.noConfusion Token.noConfusion
    · exact fun _ _ _ ↦ .leaf rfl Token.noConfusion Token.noConfusion

/-- Tokens that are the whole statement. -/
theorem statementNodes_eq (h : Makes none tokens nodes) : statementNodes tokens = nodes := by
  obtain ⟨raw, hraw, hnodes⟩ := h [] apart_nil
  rw [← hnodes]
  exact hraw.statementNodes_eq

/-- The last clause of a statement is grouped on its own. -/
theorem statementNodes_append_clause {words : List String} (h : Makes none tokens nodes)
    (word : Spelled words) (hwords : ∀ entry ∈ words, Keyword.startsClause entry = true)
    {more : List Token} {after : List Node} (hmore : Front (some word.node) more [] after) :
    statementNodes (tokens ++ word.token :: more) = nodes ++ word.node :: regroup after := by
  obtain ⟨raw, hraw, hnodes⟩ := h (word.token :: more ++ []) (apart_keyword word _)
  have hrest : Front (lastOf none raw) (word.token :: more) [] (word.node :: after) :=
    (Front.clause word hwords _ _).append hmore
  rw [(hraw.append hrest).statementNodes_eq, regroup_append_cons (isBarrier_clause word hwords),
    hnodes]

/-- Before a clause, tokens are grouped as if they stood alone, and so is the rest from it on. -/
theorem statementNodes_append {words : List String} (h : Makes none tokens nodes)
    (word : Spelled words) (hwords : ∀ entry ∈ words, Keyword.startsClause entry = true)
    (rest : List Token) :
    statementNodes (tokens ++ word.token :: rest) =
      nodes ++ statementNodes (word.token :: rest) := by
  obtain ⟨raw, hraw, hnodes⟩ := h (word.token :: rest) (apart_keyword word rest)
  rw [(Cuts.clause word hwords).statementNodes_of_front hraw, hnodes]

/-- Before a clause, tokens are grouped as if they stood alone, whatever the clause is. -/
theorem exists_statementNodes_eq {words : List String} (h : Makes none tokens nodes)
    (word : Spelled words) (hwords : ∀ entry ∈ words, Keyword.startsClause entry = true)
    (rest : List Token) :
    ∃ after, statementNodes (tokens ++ word.token :: rest) = nodes ++ word.node :: after := by
  obtain ⟨after, hafter⟩ := (Cuts.clause word hwords).exists_statementNodes_eq rest
  exact ⟨after, by rw [h.statementNodes_append word hwords, hafter]⟩

end Makes

/-- The tokens, in parentheses, are grouped to the nodes. -/
def MakesWithin (tokens : List Token) (nodes : List Node) : Prop :=
  ∀ rest, ∃ raw, Front (some (.punctuation "(")) tokens (.closeParen :: rest) raw ∧
    regroup raw = nodes

/-- What is grouped before whatever stands apart is grouped in parentheses. -/
theorem Makes.within {tokens : List Token} {nodes : List Node}
    (h : Makes (some (.punctuation "(")) tokens nodes) : MakesWithin tokens nodes :=
  fun rest ↦ h _ (apart_cons rest rfl Token.noConfusion Token.noConfusion)

/-- Parentheses part what stands in them from what stands around them. -/
theorem MakesWithin.parens {tokens more : List Token} {nodes others : List Node}
    (h : MakesWithin tokens nodes) (blanks : List Blank)
    (hmore : Makes (some (.punctuation ")")) more others) {last : Option Node} :
    Makes last (Blank.tokens blanks ++ .openParen :: (tokens ++ .closeParen :: more))
      (Blank.nodes blanks ++ .punctuation "(" :: (nodes ++ .punctuation ")" :: others)) := by
  have hopen : IsBarrier (.punctuation "(") := isBarrier_punctuation (by decide) (by decide)
  have hclose : IsBarrier (.punctuation ")") := isBarrier_punctuation (by decide) (by decide)
  intro rest hrest
  obtain ⟨raw, hraw, hnodes⟩ := h (more ++ rest)
  obtain ⟨after, hafter, hothers⟩ := hmore rest hrest
  refine ⟨_, .enclosed hraw hafter blanks, ?_⟩
  rw [regroup_append_cons hopen, regroup_append_cons hclose, regroup_blanks, hnodes, hothers]

end Grouping

end SqlFootprint
