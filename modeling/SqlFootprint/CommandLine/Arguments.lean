import SqlFootprint.Dialect

/-!
# Arguments of a command

The words after a command are flags, options with a value, and operands. An option takes its value
after `=`, from the rest of a cluster of short names, or from the next word unless that starts with
a dash; after `--` every word is an operand. Nothing may be given twice but operands. Arguments
count from left to right: of a fault and a call for help the first decides, which is the
`verdict`. `verdict_eq_accepted_iff` says when all arguments are accepted.
-/

namespace SqlFootprint.CommandLine

/-- What a name on the command line is. -/
inductive OptionName where
  | sql
  | directory
  | pattern
  | dialect
  | allStatements
  | verbose
  | help
  | version
  deriving DecidableEq, Repr

namespace OptionName

/-- The option needs a value. -/
def takesValue : OptionName → Bool
  | sql | directory | pattern | dialect => true
  | allStatements | verbose | help | version => false

/-- The name after two dashes. -/
def long : OptionName → String
  | sql => "sql"
  | directory => "dir"
  | pattern => "glob"
  | dialect => "dialect"
  | allStatements => "all-statements"
  | verbose => "verbose"
  | help => "help"
  | version => "version"

/-- The name after one dash. -/
def short? : OptionName → Option Char
  | directory => some 'd'
  | pattern => some 'g'
  | allStatements => some 'a'
  | verbose => some 'v'
  | help => some 'h'
  | version => some 'V'
  | sql | dialect => none

end OptionName

/-- What stands on a command line. -/
inductive Argument where
  | flag (name : OptionName)
  | value (name : OptionName) (text : String)
  | operand (text : String)
  deriving DecidableEq, Repr

/-- The option that an argument names; an operand names none. -/
def Argument.name? : Argument → Option OptionName
  | flag name => some name
  | value name _ => some name
  | operand _ => none

/-- A word is a flag or an option and no value: it starts with a dash and has more. -/
def isDashed (word : String) : Bool :=
  match word.toList with
  | '-' :: _ :: _ => true
  | _ => false

/-- How the reading of a word that starts with a dash ends. -/
inductive WordEnd where
  | complete
  /-- An option still needs its value. -/
  | needsValue (name : OptionName)
  /-- Something is no option of the command, or a flag has a value. -/
  | unreadable
  deriving DecidableEq, Repr

/-- The flags and the option of a cluster of short names; the rest of the cluster is the value of
the option. -/
def readCluster (known : List OptionName) : List Char → List Argument × WordEnd
  | [] => ([], .complete)
  | c :: rest =>
    match known.find? fun name ↦ name.short? == some c with
    | none => ([], .unreadable)
    | some name =>
      if name.takesValue then
        match rest with
        | [] => ([], .needsValue name)
        | '=' :: text => ([.value name (String.ofList text)], .complete)
        | text => ([.value name (String.ofList text)], .complete)
      else
        let (more, ending) := readCluster known rest
        (.flag name :: more, ending)

/-- A long name with or without a value after `=`. -/
def readLong (known : List OptionName) (text : List Char) : List Argument × WordEnd :=
  match known.find? fun option ↦ option.long == String.ofList (text.takeWhile (· != '=')) with
  | none => ([], .unreadable)
  | some name =>
    match text.dropWhile (· != '='), name.takesValue with
    | _ :: value, true => ([.value name (String.ofList value)], .complete)
    | _ :: _, false => ([], .unreadable)
    | [], true => ([], .needsValue name)
    | [], false => ([.flag name], .complete)

/-- The arguments of a word that starts with a dash. -/
def readDashed (known : List OptionName) (word : String) : List Argument × WordEnd :=
  match word.toList with
  | '-' :: '-' :: text => readLong known text
  | cs => readCluster known (cs.drop 1)

/-- The arguments of a command line up to the first word that cannot be read. -/
structure Reading where
  arguments : List Argument
  /-- All words could be read. -/
  complete : Bool
  deriving DecidableEq, Repr

/-- A reading with arguments before it. -/
def Reading.after (reading : Reading) (arguments : List Argument) : Reading :=
  { reading with arguments := arguments ++ reading.arguments }

/-- The arguments that words stand for. -/
def readWords (known : List OptionName) : List String → Reading
  | [] => ⟨[], true⟩
  | word :: rest =>
    if word = "--" then ⟨rest.map .operand, true⟩
    else if isDashed word then
      let (arguments, ending) := readDashed known word
      match ending, rest with
      | .complete, rest => (readWords known rest).after arguments
      | .needsValue name, value :: rest =>
        if isDashed value then ⟨arguments, false⟩
        else (readWords known rest).after (arguments ++ [.value name value])
      | _, _ => ⟨arguments, false⟩
    else (readWords known rest).after [.operand word]

/-- What the arguments of a command line come to. -/
inductive Verdict where
  | accepted
  | help
  | misuse
  deriving DecidableEq, Repr

/-- No argument names its option before. -/
def isFresh (earlier : List Argument) (argument : Argument) : Bool :=
  argument.name?.all fun name ↦ !earlier.any fun other ↦ other.name? == some name

/-- What arguments come to that follow `earlier` ones, the last of these first. `accepts` says of
an argument whether it may stand after others. -/
def verdict (accepts : List Argument → Argument → Bool) (complete : Bool)
    (earlier : List Argument) : List Argument → Verdict
  | [] => if complete then .accepted else .misuse
  | argument :: rest =>
    if !(isFresh earlier argument && accepts earlier argument) then .misuse
    else if argument = .flag .help then .help
    else verdict accepts complete (argument :: earlier) rest

/-- The values given to an option. -/
def valuesOf (name : OptionName) (arguments : List Argument) : List String :=
  arguments.filterMap fun
    | .value other text => if other = name then some text else none
    | _ => none

/-- The operands. -/
def operandsOf (arguments : List Argument) : List String :=
  arguments.filterMap fun
    | .operand text => some text
    | _ => none

/-- A flag is given. -/
def hasFlag (name : OptionName) (arguments : List Argument) : Bool :=
  arguments.contains (.flag name)

/-- Arguments are accepted when all words could be read, each argument may stand where it does, and
none calls for help. -/
theorem verdict_eq_accepted_iff {accepts : List Argument → Argument → Bool} {complete : Bool}
    {earlier arguments : List Argument} :
    verdict accepts complete earlier arguments = .accepted ↔
      complete = true ∧ ∀ before argument after, arguments = before ++ argument :: after →
        isFresh (before.reverse ++ earlier) argument = true ∧
          accepts (before.reverse ++ earlier) argument = true ∧ argument ≠ .flag .help := by
  induction arguments generalizing earlier with
  | nil => cases complete <;> simp [verdict]
  | cons first rest ih =>
    unfold verdict
    split
    · next h =>
      simp only [reduceCtorEq, false_iff, not_and]
      intro _ hall
      have := hall [] first rest rfl
      simp_all
    · next h =>
      split
      · next hhelp =>
        simp only [reduceCtorEq, false_iff, not_and]
        intro _ hall
        exact (hall [] first rest rfl).2.2 hhelp
      · next hhelp =>
        rw [ih]
        refine and_congr_right fun _ ↦ ⟨fun hall before argument after heq ↦ ?_,
          fun hall before argument after heq ↦ ?_⟩
        · cases before with
          | nil =>
            cases heq
            simp_all
          | cons head before =>
            cases heq
            simpa using hall before argument after rfl
        · simpa using hall (first :: before) argument after (by rw [heq]; rfl)

end SqlFootprint.CommandLine
