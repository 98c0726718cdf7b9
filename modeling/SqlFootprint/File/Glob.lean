import SqlFootprint.File.Collect
import SqlFootprint.File.Pattern

/-!
# SQL files that match a pattern

A pattern of paths is matched part by part. A part without wildcards is followed as it is, `.` and
`..` among them; a part with wildcards is held against the names in a directory; `**` stands for
any number of directories. Of what matches, the files with the extension `sql` are kept, in the
order of their paths.
-/

namespace SqlFootprint.Glob

/-- A part of a pattern between slashes. -/
structure PatternPart where
  text : String
  elements : List Pattern.Element

/-- The part has wildcards. -/
def PatternPart.isWild (part : PatternPart) : Bool :=
  part.elements.any fun
    | .char _ => false
    | _ => true

/-- The part stands for any number of directories. -/
def PatternPart.isRecursive (part : PatternPart) : Bool :=
  part.elements.contains .anyDirectories

/-- The part matches a name. -/
def PatternPart.holds (part : PatternPart) (name : String) : Bool :=
  Pattern.holds part.elements name.toList

/-- The part may match the names `.` and `..`, which only a leading point does. -/
def PatternPart.specials (part : PatternPart) : List String :=
  if part.elements.head? = some (.char '.') then [".", ".."].filter part.holds else []

/-- The path is that of the directory where relative paths start. -/
def isHere (path : String) : Bool := Path.parts path == [.current]

/-- The path of a name under a path; under the starting directory it is the name alone. -/
def under (path name : String) : String := if isHere path then name else Path.join path name

/-- What is left to match after a part that matched: the paths so far, or the next part. -/
inductive Step where
  /-- Follow the parts from a path. -/
  | descend (parts : List PatternPart) (path : String)
  /-- Hold the parts against a name that was found at a path. -/
  | check (parts : List PatternPart) (path name : String)

/-- The paths that a step leads to, down to a bound. -/
def expand (tree : FileTree) : Nat → Step → List String
  | 0, _ => []
  | _ + 1, .descend [] path => [path]
  | depth + 1, .descend (part :: rest) path =>
    if !part.isWild then
      let next := under path part.text
      let there := if part.text = "." ∨ part.text = ".." then tree.isDirectory path
        else (tree.itemAt? next).isSome
      if there then expand tree depth (.descend rest next) else []
    else
      match tree.locate path, tree.isDirectory path with
      | .ok location, true =>
        (tree.children location).flatMap (fun name ↦
            expand tree depth (.check (part :: rest) (under path name) name)) ++
          part.specials.flatMap fun special ↦
            expand tree depth (.descend rest (Path.join path special))
      | _, _ => []
  | _ + 1, .check [] _ _ => []
  | depth + 1, .check (part :: rest) path name =>
    if part.isRecursive then
      let rest := rest.dropWhile PatternPart.isRecursive
      let inside := if tree.isDirectory path then
          expand tree depth (.descend (part :: rest) path)
        else []
      match rest with
      | [] => if tree.isDirectory path then path :: inside else inside
      | next :: more => inside ++ expand tree depth (.check (next :: more) path name)
    else if part.holds name then expand tree depth (.descend rest path)
    else []

/-- The texts between the slashes of a pattern; a slash at its end starts no part. -/
def partTexts (pattern : String) : List String :=
  let pieces := Path.pieces pattern
  if pieces.getLast? = some "" ∧ pattern ≠ "" then pieces.dropLast else pieces

/-- The parts of a pattern. -/
def parts : List String → Except Pattern.Error (List PatternPart)
  | [] => .ok []
  | text :: rest =>
    match Pattern.elements text with
    | .error error => .error error
    | .ok elements => (parts rest).map (⟨text, elements⟩ :: ·)

/-- How deep an expansion can go: every step down takes a part, a place or a link. -/
def depthBound (tree : FileTree) (parts : List PatternPart) : Nat :=
  2 * (parts.length + (tree.items.length + 2) * (FileTree.maxLinks + 2))

/-- The SQL files that match a pattern. -/
def sqlFiles (tree : FileTree) (pattern : String) : Except Pattern.Error (List String) :=
  match Pattern.elements pattern with
  | .error error => .error error
  | .ok _ =>
    let absolute := Path.isAbsolute pattern
    let texts := if absolute then (partTexts pattern).drop 1 else partTexts pattern
    (parts texts).map fun parts ↦
      let found :=
        expand tree (depthBound tree parts) (.descend parts (if absolute then "/" else "."))
      let onlyDirectories := pattern.toList.getLast? = some '/'
      if onlyDirectories then []
      else Path.sort (found.filter fun path ↦ tree.isFile path && isSqlPath path)

end SqlFootprint.Glob
