import SqlFootprint.CommandLine

/-!
# The program

Reads the files that a command line asks for into a file tree, runs the command on it, and prints
how it ends. Symbolic links are read as what they lead to.
-/

namespace SqlFootprint.CommandLine

/-- Add what is at a path, and with `deep` all that is below it. Of files that are no scripts only
their being there counts. -/
partial def capture (deep : Bool) (visiting : List String) (tree : FileTree) (place : Location)
    (path : String) : IO FileTree := do
  let real? ← try some <$> IO.FS.realPath path catch _ => pure none
  match real? with
  | none => return tree
  | some real =>
    if ← real.isDir then
      let tree := tree.add place .directory
      if !deep || visiting.contains real.toString then return tree
      let entries ← try real.readDir catch _ => pure #[]
      entries.foldlM (fun tree entry ↦
        capture deep (real.toString :: visiting) tree (place ++ [entry.fileName])
          entry.path.toString) tree
    else
      let bytes ← if !deep || isSqlPath path then
          try IO.FS.readBinFile path catch _ => pure ByteArray.empty
        else pure ByteArray.empty
      return tree.add place (.file bytes)

/-- The directory below which everything that a pattern matches stands. -/
def fixedPart (pattern : String) : String :=
  let isFixed (text : String) : Bool := !text.toList.any fun c ↦ c == '*' || c == '?' || c == '['
  let texts := (Path.pieces pattern).takeWhile isFixed
  let start := if Path.isAbsolute pattern then "/" else "."
  (texts.filter (· != "")).foldl Path.join start

/-- The file tree that a command line needs. -/
def captureFor (words : List String) : IO FileTree := do
  let here ← IO.currentDir
  let start : FileTree := {}
  let place := start.placeOf here.toString
  let start := { start.add place .directory with workingDirectory := place }
  match request? words with
  | some (.analyze request) =>
    let tree ← request.files.foldlM (fun tree path ↦
      capture false [] tree (tree.placeOf path) path) start
    let deep := request.directory.toList ++ (request.pattern.map fixedPart).toList
    deep.foldlM (fun tree path ↦ capture true [] tree (tree.placeOf path) path) tree
  | _ => return start

end SqlFootprint.CommandLine

/-- Run the command line; misuse is answered with how the program is used. -/
def main (words : List String) : IO UInt32 := do
  let outcome := SqlFootprint.CommandLine.run (← SqlFootprint.CommandLine.captureFor words) words
  IO.print outcome.output
  outcome.errors.forM IO.eprintln
  if outcome.code = 2 then IO.eprint SqlFootprint.CommandLine.Topic.program.page
  return outcome.code.toUInt32
