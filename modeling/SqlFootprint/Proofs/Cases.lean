import SqlFootprint.Proofs.Parts
import SqlFootprint.Proofs.Scans

/-!
# Blocks from `CASE` to `END`

A scan of a projection gives one column for each block from a `CASE` to its `END`, and none for a
`CASE` that is not closed. `openCases` says how many are open after some nodes, and `closesCase`
whether an `END` among nodes closes one that is open before them; only the keywords count, so the
parts of a statement will do (`openCases_partsOfAll`). What the scan finds in what follows depends
only on how many are open there and on the last node (`Columns.scanItems_append_congr`).
-/

namespace SqlFootprint

namespace Node

/-- The node opens or closes a block. -/
def isCaseMark (node : Node) : Bool := node.isKeyword "CASE" || node.isKeyword "END"

/-- How many `CASE` are open after the nodes, of which `outer` are open before them; an `END` too
many closes nothing. -/
def openCases (outer : Nat) : List Node → Nat
  | [] => outer
  | node :: rest =>
    if node.isKeyword "CASE" then openCases (outer + 1) rest
    else if node.isKeyword "END" then openCases (outer - 1) rest
    else openCases outer rest

/-- An `END` among the nodes closes a `CASE` that is open before them; `inner` more are open inside
that one. -/
def closesCase (inner : Nat) : List Node → Bool
  | [] => false
  | node :: rest =>
    if node.isKeyword "CASE" then closesCase (inner + 1) rest
    else if node.isKeyword "END" then inner == 0 || closesCase (inner - 1) rest
    else closesCase inner rest

/-- Other nodes open and close nothing. -/
theorem openCases_cons {node : Node} (h : node.isCaseMark = false) (outer : Nat)
    (rest : List Node) : openCases outer (node :: rest) = openCases outer rest := by
  obtain ⟨hcase, hend⟩ := Bool.or_eq_false_iff.1 h
  rw [openCases, hcase, hend, if_neg Bool.false_ne_true, if_neg Bool.false_ne_true]

/-- Other nodes close nothing. -/
theorem closesCase_cons {node : Node} (h : node.isCaseMark = false) (inner : Nat)
    (rest : List Node) : closesCase inner (node :: rest) = closesCase inner rest := by
  obtain ⟨hcase, hend⟩ := Bool.or_eq_false_iff.1 h
  rw [closesCase, hcase, hend, if_neg Bool.false_ne_true, if_neg Bool.false_ne_true]

/-- Two lists of nodes open and close blocks one after the other. -/
theorem openCases_append (outer : Nat) (first second : List Node) :
    openCases outer (first ++ second) = openCases (openCases outer first) second := by
  induction first generalizing outer with
  | nil => rfl
  | cons node rest ih =>
    rw [List.cons_append, openCases, openCases]
    split
    · exact ih _
    · split
      · exact ih _
      · exact ih _

private theorem openCases_mono {outer more : Nat} (h : outer ≤ more) (nodes : List Node) :
    openCases outer nodes ≤ openCases more nodes := by
  induction nodes generalizing outer more with
  | nil => exact h
  | cons node rest ih =>
    rw [openCases, openCases]
    split
    · exact ih (Nat.succ_le_succ h)
    · split
      · exact ih (Nat.sub_le_sub_right h 1)
      · exact ih h

/-- As many blocks as are left open by the last nodes are so by all. -/
theorem openCases_le_append (first second : List Node) :
    openCases 0 second ≤ openCases 0 (first ++ second) := by
  rw [openCases_append]
  exact openCases_mono (Nat.zero_le _) second

/-- Only the keywords of blocks count. -/
theorem openCases_filter (outer : Nat) (nodes : List Node) :
    openCases outer (nodes.filter isCaseMark) = openCases outer nodes := by
  induction nodes generalizing outer with
  | nil => rfl
  | cons node rest ih =>
    by_cases hmark : node.isCaseMark = true
    · rw [List.filter_cons_of_pos hmark, openCases, openCases, ih, ih, ih]
    · rw [List.filter_cons_of_neg hmark, ih, openCases_cons (by simpa using hmark)]

/-- Only the keywords of blocks count. -/
theorem closesCase_filter (inner : Nat) (nodes : List Node) :
    closesCase inner (nodes.filter isCaseMark) = closesCase inner nodes := by
  induction nodes generalizing inner with
  | nil => rfl
  | cons node rest ih =>
    by_cases hmark : node.isCaseMark = true
    · rw [List.filter_cons_of_pos hmark, closesCase, closesCase, ih, ih, ih]
    · rw [List.filter_cons_of_neg hmark, ih, closesCase_cons (by simpa using hmark)]

/-- The keywords of blocks are keywords other than `AS`. -/
theorem of_isCaseMark {node : Node} (h : node.isCaseMark = true) :
    node.isAnyKeyword = true ∧ node.isKeyword "AS" = false := by
  rcases Bool.or_eq_true_iff.1 h with hcase | hend
  · exact ⟨(Bool.and_eq_true_iff.1 hcase).1, isKeyword_eq_false hcase (by decide)⟩
  · exact ⟨(Bool.and_eq_true_iff.1 hend).1, isKeyword_eq_false hend (by decide)⟩

/-- What is no keyword is no keyword of blocks. -/
theorem isCaseMark_eq_false {node : Node} (h : node.isAnyKeyword = false) :
    node.isCaseMark = false := by
  rw [isCaseMark, isKeyword, isKeyword, h]
  rfl

/-- The keywords of blocks are barriers. -/
theorem isBarrier_of_isCaseMark (node : Node) (h : node.isCaseMark = true) :
    Grouping.IsBarrier node :=
  Grouping.isBarrier_of_isAnyKeyword (of_isCaseMark h).1 (of_isCaseMark h).2

/-- The keywords of blocks are keywords. -/
theorem isAnyKeyword_of_isCaseMark (node : Node) (h : node.isCaseMark = true) :
    node.isAnyKeyword = true ∨ node.isAnyPunctuation = true :=
  .inl (of_isCaseMark h).1

/-- The parts of a statement open and close the same blocks as its nodes. -/
theorem openCases_partsOfAll (outer : Nat) (tokens : List Token) :
    openCases outer (partsOfAll (Grouping.statementNodes tokens)) =
      openCases outer (Grouping.statementNodes tokens) := by
  rw [← openCases_filter, Grouping.filter_partsOfAll_statementNodes fun _ ↦ of_isCaseMark,
    openCases_filter]

end Node

namespace Columns

open Node Grouping

/-- How many blocks are open where a scan stands. -/
def Scan.openCases : Scan → Nat
  | items => 0
  | case _ around => around + 1

/-- Inside a block, another `CASE` is open around what follows it. -/
theorem scanItems_open {node : Node} (hcase : node.isKeyword "CASE" = true) (block : List Node)
    (around : Nat) (last : Option Node) (rest : List Node) :
    scanItems (.case block around) last (node :: rest) =
      scanItems (.case (node :: block) (around + 1)) (lastSignificant last node) rest := by
  rw [scanItems.eq_def]
  simp only [hcase, ↓reduceIte]

/-- The `END` of the outermost block makes it a column. -/
theorem scanItems_close {node : Node} (hend : node.isKeyword "END" = true) (block : List Node)
    (last : Option Node) (rest : List Node) :
    scanItems (.case block 0) last (node :: rest) = derived (textOf (node :: block).reverse) ::
      scanItems .items (lastSignificant last node) rest := by
  have hcase : node.isKeyword "CASE" = false := isKeyword_eq_false hend (by decide)
  rw [scanItems.eq_def]
  simp only [hcase, hend, ↓reduceIte, Bool.false_eq_true]

/-- The `END` of a block inside another leaves the outer one open. -/
theorem scanItems_closeInner {node : Node} (hend : node.isKeyword "END" = true) (block : List Node)
    (around : Nat) (last : Option Node) (rest : List Node) :
    scanItems (.case block (around + 1)) last (node :: rest) =
      scanItems (.case (node :: block) around) (lastSignificant last node) rest := by
  have hcase : node.isKeyword "CASE" = false := isKeyword_eq_false hend (by decide)
  rw [scanItems.eq_def]
  simp only [hcase, hend, ↓reduceIte, Bool.false_eq_true]

/-- Inside a block, any other node is put to it. -/
theorem scanItems_inside {node : Node} (hmark : node.isCaseMark = false) (block : List Node)
    (around : Nat) (last : Option Node) (rest : List Node) :
    scanItems (.case block around) last (node :: rest) =
      scanItems (.case (node :: block) around) (lastSignificant last node) rest := by
  obtain ⟨hcase, hend⟩ := Bool.or_eq_false_iff.1 hmark
  rw [scanItems.eq_def]
  simp only [hcase, hend, ↓reduceIte, Bool.false_eq_true]

/-- Outside all blocks, a `CASE` opens one. -/
theorem scanItems_case {node : Node} (hcase : node.isKeyword "CASE" = true) (last : Option Node)
    (rest : List Node) : scanItems .items last (node :: rest) =
      scanItems (.case [node] 0) (lastSignificant last node) rest := by
  have hfrom : node.isKeyword "FROM" = false := isKeyword_eq_false hcase (by decide)
  rw [scanItems, hfrom, hcase, if_neg Bool.false_ne_true, if_pos rfl]

/-- What a scan finds is the same if it is so from where the first nodes end: with as many blocks
open as they leave open. -/
theorem scanItems_append_congr {before first second : List Node} {scan : Scan}
    {last : Option Node} (h : ∀ next : Scan, next.openCases = openCases scan.openCases before →
      scanItems next (lastOf last before) first = scanItems next (lastOf last before) second) :
    scanItems scan last (before ++ first) = scanItems scan last (before ++ second) := by
  induction before generalizing scan last with
  | nil => exact h scan rfl
  | cons node before ih =>
    rw [List.cons_append, List.cons_append]
    have hrest {next : Scan} (hopen : openCases next.openCases before =
        openCases scan.openCases (node :: before)) :
        scanItems next (lastSignificant last node) (before ++ first) =
          scanItems next (lastSignificant last node) (before ++ second) :=
      ih fun scan hscan ↦ h scan (hscan.trans hopen)
    by_cases hcase : node.isKeyword "CASE" = true
    · cases scan with
      | items =>
        rw [scanItems_case hcase, scanItems_case hcase]
        exact hrest (by rw [openCases, if_pos hcase]; rfl)
      | case block around =>
        rw [scanItems_open hcase, scanItems_open hcase]
        exact hrest (by rw [openCases, if_pos hcase]; rfl)
    · by_cases hend : node.isKeyword "END" = true
      · have hfrom : node.isKeyword "FROM" = false := isKeyword_eq_false hend (by decide)
        rw [openCases, if_neg hcase, if_pos hend] at hrest
        cases scan with
        | items =>
          rw [scanItems_items hfrom (by simpa using hcase), hrest rfl,
            scanItems_items hfrom (by simpa using hcase)]
        | case block around =>
          cases around with
          | zero => rw [scanItems_close hend, scanItems_close hend, hrest rfl]
          | succ around =>
            rw [scanItems_closeInner hend, scanItems_closeInner hend]
            exact hrest rfl
      · have hmark : node.isCaseMark = false := by simp [isCaseMark, hcase, hend]
        rw [openCases_cons hmark] at hrest
        cases scan with
        | items =>
          by_cases hfrom : node.isKeyword "FROM" = true
          · rw [scanItems, if_pos hfrom, scanItems, if_pos hfrom]
          · rw [scanItems_items (by simpa using hfrom) (by simpa using hcase), hrest rfl,
              scanItems_items (by simpa using hfrom) (by simpa using hcase)]
        | case block around =>
          rw [scanItems_inside hmark, scanItems_inside hmark]
          exact hrest rfl

/-- A block that is not closed gives no column, and nothing after it does. -/
theorem scanItems_unclosed {nodes : List Node} {inner around : Nat}
    (h : closesCase inner nodes = false) (hle : inner ≤ around) (block : List Node)
    (last : Option Node) : scanItems (.case block around) last nodes = [] := by
  induction nodes generalizing inner around block last with
  | nil => rfl
  | cons node rest ih =>
    rw [closesCase] at h
    by_cases hcase : node.isKeyword "CASE" = true
    · rw [if_pos hcase] at h
      rw [scanItems_open hcase]
      exact ih h (Nat.succ_le_succ hle) _ _
    · by_cases hend : node.isKeyword "END" = true
      · rw [if_neg hcase, if_pos hend, Bool.or_eq_false_iff] at h
        obtain ⟨hinner, hrest⟩ := h
        have hpositive : inner ≠ 0 := by simpa using hinner
        obtain ⟨around, rfl⟩ : ∃ more, around = more + 1 := ⟨around - 1, by omega⟩
        rw [scanItems_closeInner hend]
        exact ih hrest (by omega) _ _
      · rw [if_neg hcase, if_neg hend] at h
        rw [scanItems_inside (by simp [isCaseMark, hcase, hend])]
        exact ih h hle _ _

end Columns

end SqlFootprint
