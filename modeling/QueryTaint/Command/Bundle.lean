import QueryTaint.Json.Basic
import QueryTaint.Project.FileTree

/-!
# Bundles of files

The command gets its files in one JSON text: a list of files, each with its path, its text and, if
it is a program, the nodes of its concrete tree in preorder.
-/

namespace QueryTaint.Command

/-- Reads a truth value. -/
def bool? : Json → Option Bool
  | .bool b => some b
  | _ => none

/-- Reads a value that may be null. -/
def orNull? {α : Type} (f : Json → Option α) : Json → Option (Option α)
  | .null => some none
  | j => (f j).map some

/-- Reads a node: its depth, kind, field, whether it is a phrase, and where it starts and ends. -/
def node? (j : Json) : Option (Nat × Concrete.Label) := do
  match ← j.items? with
  | [depth, kind, field, named, start, stop, startRow, stopRow] =>
    let number := Json.nat? (Nat.pow 2 64)
    return (← number depth, ⟨← kind.string?, ← orNull? Json.string? field, ← bool? named,
      ← number start, ← number stop, ← number startRow, ← number stopRow⟩)
  | _ => none

/-- Reads a file. -/
def file? (j : Json) : Option ScanFile := do
  match ← j.record? ["path", "text", "tree"] with
  | [some path, some text, tree] =>
    let nodes ← match tree with
      | some tree => (← tree.items?).mapM node?
      | none => some []
    return ⟨← path.string?, (← text.string?).toUTF8, Concrete.Tree.ofPreorder? nodes⟩
  | _ => none

/-- Reads the files of a bundle into a tree below a directory. -/
def bundle? (home text : String) : Option FileTree := do
  return .ofFiles home (← (← (← Json.read? text).items?).mapM file?)

end QueryTaint.Command
