/-!
# File paths

A path is read lexically: separators divide it into components, and nothing is looked up.
`Path.normal` folds `.` and `..` away, so that two spellings of one place become equal texts.
-/

namespace QueryTaint

/-- A path: whether it starts at the root, and its components with `.` left out. -/
structure Path where
  rooted : Bool
  parts : List String
deriving DecidableEq, Inhabited, Repr

namespace Path

/-- Reads a path; repeated and trailing separators count once, and `.` names nothing. -/
def parse (text : String) : Path where
  rooted := text.startsWith "/"
  parts := (text.splitOn "/").filter fun part => part ≠ "" && part ≠ "."

/-- Adds one component to components that are kept last first. A `..` takes an ordinary
component away; at the root it is dropped, and above the start of a relative path it is kept. -/
def step (rooted : Bool) (kept : List String) (part : String) : List String :=
  if part = ".." then
    match kept with
    | [] => if rooted then [] else [".."]
    | last :: below => if last = ".." then ".." :: kept else below
  else part :: kept

/-- The path with every `..` folded into the component before it. -/
def normal (p : Path) : Path where
  rooted := p.rooted
  parts := (p.parts.foldl (step p.rooted) []).reverse

/-- The text of a path; the path with no component is `/` or `.`. -/
def text (p : Path) : String :=
  if p.rooted then "/" ++ "/".intercalate p.parts
  else if p.parts.isEmpty then "."
  else "/".intercalate p.parts

end Path

/-- The text of a path with `.` and `..` folded away. -/
def normalizePath (text : String) : String := (Path.parse text).normal.text

/-- The path `rest` taken relative to the directory `dir`. An absolute `rest` stands alone, and
one separator is put between the two unless `dir` ends in one. -/
def joinPath (dir rest : String) : String :=
  if rest.startsWith "/" then rest
  else if dir.isEmpty || dir.endsWith "/" then dir ++ rest
  else dir ++ "/" ++ rest

/-- The segments of a path without those at its end that name nothing: empty ones and `.`. The
first segment stands for the root or the start and is kept unless it is empty without being the
root. -/
def trimSegments (segments : List String) : List String :=
  match segments with
  | [] => []
  | first :: rest =>
    let rest := (rest.reverse.dropWhile fun s => s = "" || s = ".").reverse
    if rest.isEmpty && first = "" then [] else first :: rest

/-- The path of the directory that holds a path's last component, spelled as it is in the path;
none for the root and the empty path. -/
def parentPath? (text : String) : Option String :=
  match trimSegments (text.splitOn "/") with
  | [] => none
  | segments =>
    match trimSegments segments.dropLast with
    | [] => some (if text.startsWith "/" then "/" else "")
    | kept => some ("/".intercalate kept)

end QueryTaint
