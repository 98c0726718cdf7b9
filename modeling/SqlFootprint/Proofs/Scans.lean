import SqlFootprint.Proofs.Clauses

/-!
# Scanning for tables and columns

What each kind of node adds to the tables and to the columns of a projection, and where a scan
starts anew: it depends on what stands before it only by its state and by whether a name there is an
alias (`Tables.scanLists_congr`).
-/

namespace SqlFootprint

/-- Keywords are no blanks. -/
theorem Node.isBlank_of_isAnyKeyword {node : Node} (h : node.isAnyKeyword = true) :
    node.isBlank = false := by
  cases node with
  | mk kind text children =>
    cases kind with
    | keyword => rfl
    | _ => cases h

/-- A name or list is no blank. -/
theorem Node.isBlank_of_isName {node : Node} (h : node.isName = true) : node.isBlank = false := by
  cases node with
  | mk kind text children =>
    cases kind with
    | blank => cases h
    | _ => rfl

/-- A keyword other than `AS` and `END` introduces no alias. -/
theorem Node.introducesAlias_keyword {node : Node} {word : String}
    (hword : node.isKeyword word = true) (has : Text.sameWord word "AS" = false)
    (hend : Text.sameWord word "END" = false) : introducesAlias (some node) = false := by
  have hmark : node.isPunctuation ")" = false := by
    have hkeyword := (Bool.and_eq_true_iff.1 hword).1
    cases node with
    | mk kind text children =>
      cases kind with
      | punctuation => cases hkeyword
      | _ => rfl
  rw [introducesAlias, Option.any_some, isKeyword_eq_false hword has,
    isKeyword_eq_false hword hend, hmark]
  rfl

/-! ### Scanning for tables -/

namespace Tables

/-- A keyword says the same in any case. -/
theorem Scan.onKeyword_congr (scan : Scan) {first second : String}
    (h : Text.folded first = Text.folded second) :
    scan.onKeyword first = scan.onKeyword second := by
  unfold onKeyword Keyword.isJoinModifier
  rw [Text.listed_congr h, Text.listed_congr h, Text.listed_congr h]

/-- A keyword leads where all the words that it may be lead. -/
theorem Scan.onKeyword_spelled {words : List String} (word : Spelled words) {scan next : Scan}
    (h : ∀ entry ∈ words, scan.onKeyword entry = next) : scan.onKeyword word.text = next :=
  word.eq_of_forall (fun _ _ ↦ scan.onKeyword_congr) h

/-- A keyword says where the scan goes on. -/
theorem scanLists_keyword {words : List String} (scan : Scan) (last : Option Node)
    (word : Spelled words) (rest : List Node) :
    scanLists scan last (word.node :: rest) =
      scanLists (scan.onKeyword word.text) (some word.node) rest := by
  rw [scanLists]
  rfl

/-- A scan goes on behind blanks as before them. -/
theorem scanLists_blanks (scan : Scan) (last : Option Node) (blanks : List Blank)
    (rest : List Node) :
    scanLists scan last (Blank.nodes blanks ++ rest) = scanLists scan last rest := by
  induction blanks with
  | nil => rfl
  | cons blank blanks ih => exact ih

/-- Blanks alone give no tables. -/
theorem scanLists_blanks_nil (scan : Scan) (last : Option Node) (blanks : List Blank) :
    scanLists scan last (Blank.nodes blanks) = [] := by
  have hblanks := scanLists_blanks scan last blanks []
  rwa [List.append_nil] at hblanks

/-- A node that is no keyword and, in a list of tables, no name gives no table. -/
theorem scanLists_skip {scan : Scan} {node : Node} (hkeyword : node.isAnyKeyword = false)
    (hname : node.isName = true → scan = .outside) (last : Option Node) (rest : List Node) :
    scanLists scan last (node :: rest) =
      scanLists scan (Node.lastSignificant last node) rest := by
  have hskip : ¬(node.isName = true ∧ scan = .inList) := by
    intro h
    rw [hname h.1] at h
    exact Scan.noConfusion h.2
  rw [scanLists, hkeyword, if_neg hskip]
  rfl

/-- In a list of tables, a name or list gives its names. -/
theorem scanLists_named {node : Node} (hkeyword : node.isAnyKeyword = false)
    (hname : node.isName = true) (last : Option Node) (rest : List Node) :
    scanLists .inList last (node :: rest) =
      namesAt last node ++ scanLists .inList (some node) rest := by
  rw [scanLists, hkeyword, if_neg Bool.false_ne_true, if_pos ⟨hname, rfl⟩]

/-- After a keyword other than `AS` and `END`, no name is an alias. -/
theorem isAliasPlace_keyword {node : Node} {word : String} (hword : node.isKeyword word = true)
    (has : Text.sameWord word "AS" = false) (hend : Text.sameWord word "END" = false) :
    isAliasPlace (some node) = false := by
  have hname : node.identifier? = none := by
    have hkeyword := (Bool.and_eq_true_iff.1 hword).1
    cases node with
    | mk kind text children =>
      cases kind with
      | identifier => cases hkeyword
      | _ => rfl
  rw [isAliasPlace, Node.introducesAlias_keyword hword has hend, Option.any_some, hname]
  rfl

/-- After a keyword other than `AS` and `END`, in any case, no name is an alias. -/
theorem isAliasPlace_spelled {words : List String} (word : Spelled words)
    (has : ∀ entry ∈ words, Text.sameWord entry "AS" = false)
    (hend : ∀ entry ∈ words, Text.sameWord entry "END" = false) :
    isAliasPlace (some word.node) = false :=
  isAliasPlace_keyword (Text.sameWord_self word.text) (word.sameWord_eq has)
    (word.sameWord_eq hend)

/-- A name or list after `FROM` or `JOIN` gives all its names. -/
theorem scanLists_tables {node : Node} (hkeyword : node.isAnyKeyword = false)
    (hname : node.isName = true) (scan : Scan) (last : Option Node)
    (word : Spelled ["FROM", "JOIN"]) (blanks : List Blank) (rest : List Node) :
    scanLists scan last (word.node :: (Blank.nodes blanks ++ node :: rest)) =
      node.realNames ++ scanLists .inList (some node) rest := by
  have hscan : scan.onKeyword word.text = .inList :=
    Scan.onKeyword_spelled word (by cases scan <;> decide)
  have halias := isAliasPlace_spelled word (by decide) (by decide)
  rw [scanLists_keyword, hscan, scanLists_blanks, scanLists_named hkeyword hname, namesAt, halias,
    if_neg Bool.false_ne_true]

/-- Where a scan stands after nodes. -/
def Scan.after (scan : Scan) (nodes : List Node) : Scan :=
  nodes.foldl (fun scan node ↦ if node.isAnyKeyword then scan.onKeyword node.text else scan) scan

/-- A scan of nodes in a row goes on where it stands after the first. -/
theorem scanLists_append (scan : Scan) (last : Option Node) (nodes rest : List Node) :
    scanLists scan last (nodes ++ rest) =
      scanLists scan last nodes ++
        scanLists (scan.after nodes) (Grouping.lastOf last nodes) rest := by
  induction nodes generalizing scan last with
  | nil => rfl
  | cons node nodes ih =>
    have hafter : scan.after (node :: nodes) =
        (if node.isAnyKeyword then scan.onKeyword node.text else scan).after nodes := rfl
    have hlast : Grouping.lastOf last (node :: nodes) =
        Grouping.lastOf (Node.lastSignificant last node) nodes := rfl
    have hsolid (hblank : node.isBlank = false) : Node.lastSignificant last node = some node := by
      rw [Node.lastSignificant, hblank, if_neg Bool.false_ne_true]
    rw [List.cons_append, scanLists, scanLists, hafter, hlast]
    by_cases hkeyword : node.isAnyKeyword = true
    · rw [if_pos hkeyword, if_pos hkeyword, if_pos hkeyword,
        hsolid (Node.isBlank_of_isAnyKeyword hkeyword)]
      exact ih _ _
    · rw [if_neg hkeyword, if_neg hkeyword, if_neg hkeyword]
      by_cases hname : node.isName = true ∧ scan = .inList
      · rw [if_pos hname, if_pos hname, hsolid (Node.isBlank_of_isName hname.1), ih,
          List.append_assoc]
      · rw [if_neg hname, if_neg hname]
        exact ih _ _

/-- The node starts no list of tables. -/
def opensNoList (node : Node) : Bool := !node.isKeyword "FROM" && !node.isKeyword "JOIN"

/-- Words other than `FROM` and `JOIN` start no list of tables. -/
theorem opensNoList_spelled {words : List String} (word : Spelled words)
    (hfrom : ∀ entry ∈ words, Text.sameWord entry "FROM" = false)
    (hjoin : ∀ entry ∈ words, Text.sameWord entry "JOIN" = false) :
    opensNoList word.node = true := by
  rw [opensNoList, word.isKeyword_eq hfrom, word.isKeyword_eq hjoin]
  rfl

/-- No list of tables starts at a node that is no keyword. -/
theorem opensNoList_of_isAnyKeyword {node : Node} (h : node.isAnyKeyword = false) :
    opensNoList node = true := by
  simp [opensNoList, Node.isKeyword, h]

/-- No list of tables starts at blanks. -/
theorem opensNoList_blanks (blanks : List Blank) :
    ∀ node ∈ Blank.nodes blanks, opensNoList node = true :=
  Blank.forall_mem_nodes (fun _ ↦ rfl) blanks

private theorem Scan.onKeyword_outside {node : Node} (h : opensNoList node = true)
    (hkeyword : node.isAnyKeyword = true) : outside.onKeyword node.text = outside := by
  have hlisted : Text.listed ["FROM", "JOIN"] node.text = false := by
    simp only [opensNoList, Node.isKeyword, hkeyword, Bool.true_and] at h
    simpa [Text.listed, Text.sameWord_comm, and_comm] using h
  simp [onKeyword, hlisted]

/-- Outside any list of tables, a scan stays so and finds nothing up to the next list. -/
theorem scanLists_outside {nodes : List Node} (h : ∀ node ∈ nodes, opensNoList node = true)
    (last : Option Node) :
    scanLists .outside last nodes = [] ∧ Scan.outside.after nodes = .outside := by
  induction nodes generalizing last with
  | nil => exact ⟨rfl, rfl⟩
  | cons node nodes ih =>
    rw [List.forall_mem_cons] at h
    have hafter : Scan.outside.after (node :: nodes) =
        (if node.isAnyKeyword then Scan.outside.onKeyword node.text else .outside).after nodes :=
      rfl
    rw [scanLists, hafter]
    by_cases hkeyword : node.isAnyKeyword = true
    · rw [if_pos hkeyword, if_pos hkeyword, Scan.onKeyword_outside h.1 hkeyword]
      exact ih h.2 _
    · rw [if_neg hkeyword, if_neg hkeyword, if_neg (by simp)]
      exact ih h.2 _

/-- A scan depends on what stands before it only by whether a name there is an alias. -/
theorem scanLists_congr {last other : Option Node} (h : isAliasPlace last = isAliasPlace other)
    (scan : Scan) (nodes : List Node) : scanLists scan last nodes = scanLists scan other nodes := by
  induction nodes generalizing scan last other with
  | nil => rfl
  | cons node rest ih =>
    have hnames : namesAt last node = namesAt other node := by rw [namesAt, namesAt, h]
    have hlast : isAliasPlace (Node.lastSignificant last node) =
        isAliasPlace (Node.lastSignificant other node) := by
      unfold Node.lastSignificant
      split
      · exact h
      · rfl
    rw [scanLists, scanLists, hnames, ih hlast]

/-- A keyword that ends a list of tables, and after which no name is an alias, starts the scan
anew. -/
theorem scanLists_restart {node : Node} {word : String} (hword : node.isKeyword word = true)
    (hends : Scan.inList.onKeyword word = .outside) (has : Text.sameWord word "AS" = false)
    (hcase : Text.sameWord word "END" = false) (scan : Scan) (last : Option Node)
    (rest : List Node) : scanLists scan last (node :: rest) = scanLists .outside none rest := by
  obtain ⟨hkeyword, hsame⟩ := Bool.and_eq_true_iff.1 hword
  have hfolded := Text.sameWord_iff.1 hsame
  have hinList : Scan.inList.onKeyword node.text = .outside := by
    rw [← hends]
    exact Scan.onKeyword_congr .inList hfolded
  have hscan : scan.onKeyword node.text = .outside := by
    cases scan with
    | inList => exact hinList
    | outside =>
      unfold Scan.onKeyword at hinList ⊢
      split at hinList
      · cases hinList
      · next htables => rw [if_neg htables, if_neg (by simp)]
  have hplace : isAliasPlace (some node) = isAliasPlace none :=
    isAliasPlace_keyword hword has hcase
  rw [scanLists, if_pos hkeyword, hscan, scanLists_congr hplace]

/-- From a query on, a scan finds what it finds in the query alone. -/
theorem scanLists_append_query {node : Node} (hword : node.isKeyword "SELECT" = true) (scan : Scan)
    (last : Option Node) (before rest : List Node) :
    scanLists .outside none rest <:+ scanLists scan last (before ++ node :: rest) := by
  induction before generalizing scan last with
  | nil =>
    have hrestart := scanLists_restart hword (by decide) (by decide) (by decide) scan last rest
    exact ⟨[], hrestart.symm⟩
  | cons first before ih =>
    rw [List.cons_append, scanLists]
    split
    · exact ih _ _
    · split
      · exact (ih _ _).trans (List.suffix_append _ _)
      · exact ih _ _

/-- The first query after some nodes has, from the first query without them on, the same tables. -/
theorem exists_afterKeyword?_append {nodes rest : List Node}
    (h : Node.afterKeyword? "SELECT" nodes = some rest) (before : List Node) :
    ∃ more, Node.afterKeyword? "SELECT" (before ++ nodes) = some more ∧
      scanLists .outside none rest <:+ scanLists .outside none more := by
  induction before with
  | nil => exact ⟨rest, h, List.suffix_refl _⟩
  | cons node before ih =>
    rw [List.cons_append, Node.afterKeyword?]
    split
    · obtain ⟨between, query, rfl, hquery⟩ := Node.afterKeyword?_eq_some h
      refine ⟨_, rfl, ?_⟩
      rw [← List.append_assoc]
      exact scanLists_append_query hquery .outside none _ rest
    · exact ih

end Tables

/-! ### Scanning a projection -/

namespace Columns

private theorem columnsOfAll_eq_flatMap (nodes : List Node) :
    columnsOfAll nodes = nodes.flatMap columnsOf := by
  induction nodes with
  | nil => rfl
  | cons node rest ih => rw [columnsOfAll, ih, List.flatMap_cons]

/-- Outside any `CASE`, a node before `FROM` gives the columns of its items. -/
theorem scanItems_items {node : Node} (hfrom : node.isKeyword "FROM" = false)
    (hcase : node.isKeyword "CASE" = false) (last : Option Node) (rest : List Node) :
    scanItems .items last (node :: rest) =
      (Node.itemsAfterAlias last node).flatMap columnsOf ++
        scanItems .items (Node.lastSignificant last node) rest := by
  rw [scanItems, hfrom, hcase, if_neg Bool.false_ne_true, if_neg Bool.false_ne_true,
    columnsOfAll_eq_flatMap]

/-- A scan of a projection depends on what stands before it only by whether a name there is an
alias. -/
theorem scanItems_congr {last other : Option Node}
    (h : Node.introducesAlias last = Node.introducesAlias other) (scan : Scan)
    (nodes : List Node) : scanItems scan last nodes = scanItems scan other nodes := by
  induction nodes generalizing scan last other with
  | nil => rfl
  | cons node rest ih =>
    have hitems : Node.itemsAfterAlias last node = Node.itemsAfterAlias other node := by
      rw [Node.itemsAfterAlias, Node.itemsAfterAlias, h]
    have hlast : Node.introducesAlias (Node.lastSignificant last node) =
        Node.introducesAlias (Node.lastSignificant other node) := by
      unfold Node.lastSignificant
      split
      · exact h
      · rfl
    rw [scanItems.eq_def, scanItems.eq_def scan other]
    simp only [hitems, ih hlast]

/-- A node without items and columns gives none, an alias or not. -/
theorem flatMap_itemsAfterAlias {node : Node} (hlist : node.isList = false)
    (hcolumns : columnsOf node = []) (last : Option Node) :
    (Node.itemsAfterAlias last node).flatMap columnsOf = [] := by
  have hitems : node.items = [node] := by
    rw [Node.items, hlist]
    rfl
  unfold Node.itemsAfterAlias
  rw [hitems]
  split
  · rfl
  · rw [List.flatMap_singleton, hcolumns]

/-- A node without columns before `FROM` and outside any `CASE` is passed over. -/
theorem scanItems_skip {node : Node} (hfrom : node.isKeyword "FROM" = false)
    (hcase : node.isKeyword "CASE" = false) (hlist : node.isList = false)
    (hcolumns : columnsOf node = []) (last : Option Node) (rest : List Node) :
    scanItems .items last (node :: rest) =
      scanItems .items (Node.lastSignificant last node) rest := by
  rw [scanItems_items hfrom hcase, flatMap_itemsAfterAlias hlist hcolumns, List.nil_append]

/-- Blanks in a projection give no columns. -/
theorem scanItems_blanks (last : Option Node) (blanks : List Blank) (rest : List Node) :
    scanItems .items last (Blank.nodes blanks ++ rest) = scanItems .items last rest := by
  induction blanks with
  | nil => rfl
  | cons blank blanks ih =>
    have hblank : Blank.nodes (blank :: blanks) ++ rest =
        .leaf .blank blank.render :: (Blank.nodes blanks ++ rest) := rfl
    rw [hblank, scanItems_skip rfl rfl rfl rfl]
    exact ih

/-- A keyword before `FROM` and outside any `CASE` gives no columns. -/
theorem scanItems_keyword {words : List String} (word : Spelled words)
    (hfrom : ∀ entry ∈ words, Text.sameWord entry "FROM" = false)
    (hcase : ∀ entry ∈ words, Text.sameWord entry "CASE" = false)
    (last : Option Node) (rest : List Node) :
    scanItems .items last (word.node :: rest) = scanItems .items (some word.node) rest :=
  scanItems_skip (word.isKeyword_eq hfrom) (word.isKeyword_eq hcase) rfl rfl last rest

end Columns

end SqlFootprint
