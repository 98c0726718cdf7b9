import Mathlib.Data.List.Forall2
import SqlFootprint.CommandLine
import SqlFootprint.Proofs.Decoding

/-!
# A failing file affects only itself

A command that analyses files ends in one of two ways. An error in the collecting of files or in
the text of the command line ends it before anything is printed (`StartError`). Otherwise the
outcomes of the files are reported together, and each of them shows in its own report or in its own
block only (`Isolated`): what is printed is what the same command prints of the files that could be
analysed (`run_isolated`).
-/

open List

namespace SqlFootprint

/-- A file that could be analysed. -/
def FileAnalysis.isOk (file : FileAnalysis) : Bool := file.result.isOk

/-- A file that is read can be analysed if its text can. -/
theorem isOk_analyzeFile {tree : FileTree} {path text : String} (options : Options)
    (h : readScript tree path = .ok text) :
    (analyzeFile tree options path).isOk = (analyzeScript options text).isOk := by
  rw [FileAnalysis.isOk, analyzeFile, h]
  show ((analyzeScript options text).mapError Error.lexing).isOk = _
  cases analyzeScript options text with
  | error error => rfl
  | ok statements => rfl

/-- A file that is not read cannot be analysed. -/
theorem isOk_analyzeFile_of_error {tree : FileTree} {path : String} {error : Error}
    (options : Options) (h : readScript tree path = .error error) :
    (analyzeFile tree options path).isOk = false := by
  rw [FileAnalysis.isOk, analyzeFile, h]
  rfl

/-- The files of a batch that could be analysed are the batch of their paths. -/
theorem filter_isOk_analyzeFiles (tree : FileTree) (options : Options) (paths : List String) :
    (analyzeFiles tree options paths).filter FileAnalysis.isOk =
      analyzeFiles tree options (paths.filter fun path ↦ (analyzeFile tree options path).isOk) := by
  rw [analyzeFiles, analyzeFiles, List.filter_map]
  rfl

namespace CommandLine

/-! ### The outcomes of files -/

/-- The report of a file that could not be analysed. -/
def Reported (file : FileAnalysis) (line : String) : Prop :=
  ∃ error, file.result = .error error ∧ line = "Error: " ++ file.path ++ ": " ++ error.chain

/-- The block of a file that could be analysed. -/
def Printed (file : FileAnalysis) (block : String) : Prop :=
  ∃ statements, file.result = .ok statements ∧
    block = "File: " ++ file.path ++ "\n" ++ Report.blocks statements

/-- A file that could be analysed has a block and no report. -/
theorem printed_of_isOk {file : FileAnalysis} (h : file.isOk = true) :
    fileError? file = none ∧ ∃ block, fileBlock? file = some block ∧ Printed file block := by
  obtain ⟨path, result⟩ := file
  cases result with
  | error error => cases h
  | ok statements => exact ⟨rfl, _, rfl, statements, rfl, rfl⟩

/-- A file that could not be analysed has a report and no block. -/
theorem reported_of_not_isOk {file : FileAnalysis} (h : file.isOk = false) :
    fileBlock? file = none ∧ ∃ line, fileError? file = some line ∧ Reported file line := by
  obtain ⟨path, result⟩ := file
  cases result with
  | error error => exact ⟨rfl, _, rfl, error, rfl, rfl⟩
  | ok statements => cases h

/-- What is made of some members only stands in the order of these members. -/
theorem forall₂_filterMap {α β : Type} {p : α → Bool} {f : α → Option β} {R : α → β → Prop}
    (hsome : ∀ a, p a = true → ∃ b, f a = some b ∧ R a b)
    (hnone : ∀ a, p a = false → f a = none) (members : List α) :
    Forall₂ R (members.filter p) (members.filterMap f) := by
  induction members with
  | nil => exact .nil
  | cons a members ih =>
    cases ha : p a with
    | true =>
      obtain ⟨b, hb, hrelated⟩ := hsome a ha
      rw [List.filter_cons_of_pos ha, List.filterMap_cons_some hb]
      exact .cons hrelated ih
    | false =>
      rw [List.filter_cons_of_neg (by simp [ha]), List.filterMap_cons_none (hnone a ha)]
      exact ih

/-- The reports are those of the files that could not be analysed. -/
theorem forall₂_reported (files : List FileAnalysis) :
    Forall₂ Reported (files.filter fun file ↦ !file.isOk) (files.filterMap fileError?) := by
  apply forall₂_filterMap
  · intro file hfile
    exact (reported_of_not_isOk (by simpa using hfile)).2
  · intro file hfile
    exact (printed_of_isOk (by simpa using hfile)).1

private theorem forall₂_printed (files : List FileAnalysis) :
    Forall₂ Printed (files.filter FileAnalysis.isOk) (files.filterMap fileBlock?) := by
  apply forall₂_filterMap
  · intro file hfile
    exact (printed_of_isOk hfile).2
  · intro file hfile
    exact (reported_of_not_isOk hfile).1

private theorem filterMap_fileBlock?_filter (files : List FileAnalysis) :
    (files.filter FileAnalysis.isOk).filterMap fileBlock? = files.filterMap fileBlock? := by
  rw [List.filterMap_filter]
  apply List.filterMap_congr
  intro file _
  cases hfile : file.isOk with
  | true => rfl
  | false => exact (reported_of_not_isOk hfile).1.symm

/-! ### Reports -/

/-- The end of a command in which no file affects what is said of the others: one report for each
file that could not be analysed, one block for each other file after that of the text, and nothing
printed that would not be printed without the failing files. -/
structure Isolated (text : Option (List StatementAnalysis)) (files : List FileAnalysis)
    (outcome : Outcome) : Prop where
  code : outcome.code = if ∃ file ∈ files, file.isOk = false then 1 else 0
  errors : Forall₂ Reported (files.filter fun file ↦ !file.isOk) outcome.errors
  blocks : ∃ blocks, Forall₂ Printed (files.filter FileAnalysis.isOk) blocks ∧
    outcome.output = "\n".intercalate ((text.map Report.blocks).toList ++ blocks)
  alone : outcome.output = (report text (files.filter FileAnalysis.isOk)).output

private theorem report_code (text : Option (List StatementAnalysis)) (files : List FileAnalysis) :
    (report text files).code = if ∃ file ∈ files, file.isOk = false then 1 else 0 := by
  have hempty : (files.filterMap fileError?).isEmpty = true ↔
      ¬ ∃ file ∈ files, file.isOk = false := by
    have hlength := (forall₂_reported files).length_eq
    rw [List.isEmpty_iff, ← List.length_eq_zero_iff, ← hlength, List.length_eq_zero_iff,
      List.filter_eq_nil_iff]
    simp
  rw [report]
  by_cases hfailed : ∃ file ∈ files, file.isOk = false
  · simp [hempty, hfailed]
  · simp [hempty, hfailed]

/-- Whatever becomes of the files, a report keeps them apart. -/
theorem report_isolated (text : Option (List StatementAnalysis)) (files : List FileAnalysis) :
    Isolated text files (report text files) where
  code := report_code text files
  errors := forall₂_reported files
  blocks := ⟨_, forall₂_printed files, rfl⟩
  alone := by
    show "\n".intercalate _ = "\n".intercalate _
    rw [filterMap_fileBlock?_filter]

/-! ### The start of a command -/

/-- What can go wrong before the first file: with the directory, with the pattern, or with the text
of the command line. -/
inductive StartError (tree : FileTree) (request : AnalyzeRequest) : Error → Prop where
  | directory {path error} (hpath : request.directory = some path)
      (herror : collectFiles tree path = .error error) : StartError tree request error
  | pattern {pattern error} (hpattern : request.pattern = some pattern)
      (herror : matchFiles tree pattern = .error error) : StartError tree request error
  | text {sql error} (hsql : request.sql = some sql)
      (herror : analyzeScript request.options sql = .error error) :
      StartError tree request (.lexing error)

/-- The same request for other files: those given, and none of a directory or a pattern. -/
def AnalyzeRequest.onFiles (request : AnalyzeRequest) (paths : List String) : AnalyzeRequest :=
  { request with files := paths, directory := none, pattern := none }

/-- What a source of files gives, if one is named. -/
def filesOf (collect : String → Except Error (List String)) :
    Option String → Except Error (List String)
  | some name => collect name
  | none => .ok []

/-- Only a source that is named can be at fault. -/
theorem filesOf_eq_error_iff {collect : String → Except Error (List String)}
    {source : Option String} {error : Error} :
    filesOf collect source = .error error ↔
      ∃ name, source = some name ∧ collect name = .error error := by
  cases source with
  | none => simp [filesOf]
  | some name => simp [filesOf]

/-- The files named come before those of the directory, and these before those of the pattern. -/
theorem gather_eq (tree : FileTree) (request : AnalyzeRequest) :
    gather tree request =
      (filesOf (collectFiles tree) request.directory).bind fun below ↦
        (filesOf (matchFiles tree) request.pattern).bind fun matching ↦
          .ok (request.files ++ below ++ matching) := by
  rw [gather]
  cases request.directory <;> cases request.pattern <;> rfl

private theorem gather_onFiles (tree : FileTree) (request : AnalyzeRequest) (paths : List String) :
    gather tree (request.onFiles paths) = .ok paths := by
  rw [gather_eq]
  show Except.ok (paths ++ [] ++ []) = _
  simp

/-- An error in collecting the files is that of the directory or of the pattern. -/
theorem startError_of_gather {tree : FileTree} {request : AnalyzeRequest} {error : Error}
    (h : gather tree request = .error error) : StartError tree request error := by
  rw [gather_eq] at h
  cases hbelow : filesOf (collectFiles tree) request.directory with
  | error fault =>
    rw [hbelow] at h
    cases h
    obtain ⟨path, hpath, herror⟩ := filesOf_eq_error_iff.1 hbelow
    exact .directory hpath herror
  | ok below =>
    rw [hbelow] at h
    cases hmatching : filesOf (matchFiles tree) request.pattern with
    | error fault =>
      simp only [Except.bind, hmatching] at h
      cases h
      obtain ⟨pattern, hpattern, herror⟩ := filesOf_eq_error_iff.1 hmatching
      exact .pattern hpattern herror
    | ok matching =>
      simp only [Except.bind, hmatching] at h
      cases h

/-- An error in the text is one of the command line. -/
theorem startError_of_text (tree : FileTree) {request : AnalyzeRequest} {error : Error}
    (h : analyzeText request = .error error) :
    request.sql ≠ none ∧ StartError tree request error := by
  rw [analyzeText] at h
  cases hsql : request.sql with
  | none =>
    rw [hsql] at h
    cases h
  | some sql =>
    simp only [hsql] at h
    cases hscript : analyzeScript request.options sql with
    | ok statements =>
      rw [hscript] at h
      cases h
    | error fault =>
      rw [hscript] at h
      cases h
      exact ⟨by simp, .text hsql hscript⟩

/-- Where the files are collected and the text is analysed, nothing went wrong before. -/
theorem not_startError {tree : FileTree} {request : AnalyzeRequest} {paths : List String}
    {text : Option (List StatementAnalysis)} {error : Error}
    (hpaths : gather tree request = .ok paths) (htext : analyzeText request = .ok text) :
    ¬ StartError tree request error := by
  intro h
  rw [gather_eq] at hpaths
  cases h with
  | directory hpath herror =>
    rw [filesOf_eq_error_iff.2 ⟨_, hpath, herror⟩] at hpaths
    cases hpaths
  | pattern hpattern herror =>
    rw [filesOf_eq_error_iff.2 ⟨_, hpattern, herror⟩] at hpaths
    cases hbelow : filesOf (collectFiles tree) request.directory with
    | error fault =>
      rw [hbelow] at hpaths
      cases hpaths
    | ok below =>
      rw [hbelow] at hpaths
      cases hpaths
  | text hsql herror =>
    simp only [analyzeText, hsql, herror] at htext
    cases htext

/-! ### Runs -/

/-- An error before the first file ends the command. -/
theorem analyze_of_startError {tree : FileTree} {request : AnalyzeRequest} {error : Error}
    (h : StartError tree request error) :
    ∃ first, StartError tree request first ∧ analyze tree request = failure first.chain := by
  cases hpaths : gather tree request with
  | error fault => exact ⟨fault, startError_of_gather hpaths, by rw [analyze, hpaths]⟩
  | ok paths =>
    cases htext : analyzeText request with
    | error fault =>
      obtain ⟨hsql, hstart⟩ := startError_of_text tree htext
      refine ⟨fault, hstart, ?_⟩
      simp only [analyze, hpaths, htext, hsql, false_and, ↓reduceIte]
    | ok text => exact absurd h (not_startError hpaths htext)

/-- A command that can start analyses every file it collected, if there is anything to analyse. -/
theorem analyze_eq_report {tree : FileTree} {request : AnalyzeRequest} {paths : List String}
    {text : Option (List StatementAnalysis)} (hpaths : gather tree request = .ok paths)
    (htext : analyzeText request = .ok text) (hinput : request.sql ≠ none ∨ paths ≠ []) :
    analyze tree request = report text (analyzeFiles tree request.options paths) := by
  have hsome : ¬ (request.sql = none ∧ paths = []) := by tauto
  simp only [analyze, hpaths, htext, if_neg hsome]

/-- Nothing to analyse is an error of its own. -/
theorem analyze_of_no_input {tree : FileTree} {request : AnalyzeRequest}
    (hpaths : gather tree request = .ok []) (hsql : request.sql = none) :
    analyze tree request = failure "nothing to analyze: pass --sql, files, --dir or --glob" := by
  simp only [analyze, hpaths, hsql, and_self, ↓reduceIte]

/-- What is printed of given files is in their report, also where there is nothing to analyse. -/
theorem output_onFiles {request : AnalyzeRequest} {text : Option (List StatementAnalysis)}
    (htext : analyzeText request = .ok text) (tree : FileTree) (paths : List String) :
    (analyze tree (request.onFiles paths)).output =
      (report text (analyzeFiles tree request.options paths)).output := by
  have hpaths := gather_onFiles tree request paths
  by_cases hinput : request.sql ≠ none ∨ paths ≠ []
  · rw [analyze_eq_report hpaths htext hinput]
    rfl
  · obtain ⟨hsql, rfl⟩ : request.sql = none ∧ paths = [] := by tauto
    rw [analyzeText, hsql] at htext
    cases htext
    rw [analyze_of_no_input hpaths hsql]
    rfl

/-- A failing file affects only itself. An error before the first file ends a run with nothing
printed, and so does a run with nothing to analyse. Every other run reports each failing file once,
prints the others in their order after the text, and prints what it would print without the failing
files; and so it is whatever the outcomes of the files are. -/
theorem run_isolated {tree : FileTree} {words : List String} {request : AnalyzeRequest}
    (hrequest : request? words = some (.analyze request)) :
    ((∃ error, StartError tree request error) →
      ∃ error, StartError tree request error ∧
        run tree words = { code := 1, output := "", errors := ["Error: " ++ error.chain] }) ∧
    ((¬ ∃ error, StartError tree request error) →
      ∃ paths text, gather tree request = .ok paths ∧ analyzeText request = .ok text ∧
        (request.sql = none ∧ paths = [] →
          run tree words = {
            code := 1
            output := ""
            errors := ["Error: nothing to analyze: pass --sql, files, --dir or --glob"] }) ∧
        (request.sql ≠ none ∨ paths ≠ [] →
          Isolated text (analyzeFiles tree request.options paths) (run tree words) ∧
          (run tree words).output = (analyze tree (request.onFiles (paths.filter fun path ↦
            (analyzeFile tree request.options path).isOk))).output)) ∧
    ∀ text files, Isolated text files (report text files) := by
  have hrun : run tree words = analyze tree request := by rw [run, hrequest]
  rw [hrun]
  refine ⟨?_, ?_, report_isolated⟩
  · rintro ⟨error, hstart⟩
    exact analyze_of_startError hstart
  · intro hstart
    cases hpaths : gather tree request with
    | error error => exact absurd ⟨error, startError_of_gather hpaths⟩ hstart
    | ok paths =>
      cases htext : analyzeText request with
      | error error => exact absurd ⟨error, (startError_of_text tree htext).2⟩ hstart
      | ok text =>
        refine ⟨paths, text, rfl, rfl, ?_, ?_⟩
        · rintro ⟨hsql, rfl⟩
          exact analyze_of_no_input hpaths hsql
        · intro hinput
          have hisolated := report_isolated text (analyzeFiles tree request.options paths)
          rw [analyze_eq_report hpaths htext hinput]
          constructor
          · exact hisolated
          · rw [output_onFiles htext, hisolated.alone, filter_isOk_analyzeFiles]

/-- A missing file leaves what is printed of the other one as it is. -/
theorem run_isolated_missing :
    let tree : FileTree := { items := [(["a.sql"], .file "SELECT a FROM t".toUTF8)] }
    let words := ["analyze", "a.sql", "b.sql"]
    let request : AnalyzeRequest :=
      { files := ["a.sql", "b.sql"], options := { firstOnly := true } }
    request? words = some (.analyze request) ∧ (run tree words).code = 1 ∧
      (run tree words).output = (analyze tree (request.onFiles ["a.sql"])).output := by
  intro tree words request
  have hrequest : request? words = some (.analyze request) := by decide
  have hread : tree.read "a.sql" = .ok "SELECT a FROM t".toUTF8 :=
    FileTree.read_name (by decide) rfl rfl
  have hmissing : tree.read "b.sql" = .error .missing :=
    FileTree.read_missing (by decide) rfl rfl
  have hfirst : (analyzeFile tree request.options "a.sql").isOk = true := by
    have htext : readScript tree "a.sql" = .ok "SELECT a FROM t" := by
      rw [readScript_eq hread, Decoding.text?_toUTF8]
      rfl
    rw [isOk_analyzeFile _ htext]
    decide +kernel
  have hsecond : (analyzeFile tree request.options "b.sql").isOk = false := by
    have herror : readScript tree "b.sql" = .error (.unreadable "b.sql" .missing) := by
      rw [readScript, hmissing]
    exact isOk_analyzeFile_of_error _ herror
  have hpaths : gather tree request = .ok ["a.sql", "b.sql"] := rfl
  have hstart : ¬ ∃ error, StartError tree request error := by
    rintro ⟨error, h⟩
    exact not_startError hpaths rfl h
  obtain ⟨paths, text, hpaths', -, -, hrun⟩ := (run_isolated hrequest).2.1 hstart
  obtain rfl : ["a.sql", "b.sql"] = paths := Except.ok.inj (hpaths.symm.trans hpaths')
  obtain ⟨hisolated, houtput⟩ := hrun (.inr (by simp))
  refine ⟨hrequest, ?_, ?_⟩
  · rw [hisolated.code, if_pos ⟨_, List.mem_map_of_mem (by simp), hsecond⟩]
  · rw [houtput]
    simp only [List.filter_cons, hfirst, hsecond, List.filter_nil, ↓reduceIte, Bool.false_eq_true]

/-- A run that nothing is given to ends with code 1, though nothing goes wrong in its start and no
file fails. -/
theorem run_of_no_input :
    let request : AnalyzeRequest := { options := { firstOnly := true } }
    request? ["analyze"] = some (.analyze request) ∧
      (¬ ∃ error, StartError {} request error) ∧ gather {} request = .ok [] ∧
      ¬ ((run {} ["analyze"]).code = 1 ↔
        ∃ file ∈ analyzeFiles {} request.options [], file.isOk = false) := by
  intro request
  have hrequest : request? ["analyze"] = some (.analyze request) := by decide
  have hpaths : gather {} request = .ok [] := rfl
  refine ⟨hrequest, ?_, hpaths, ?_⟩
  · rintro ⟨error, h⟩
    exact not_startError hpaths rfl h
  · have hcode : (run {} ["analyze"]).code = 1 := by
      rw [run, hrequest]
      rfl
    rw [hcode]
    simp [analyzeFiles]

end CommandLine

end SqlFootprint
