import QueryTaint.Prepass.Loop
import QueryTaint.Prepass.Magic
import QueryTaint.Prepass.Namespace

/-!
# Preparing syntax trees

The three passes that a syntax tree goes through before it is lowered: names, loops and magic
constants. Resolving loops makes labels; lowering goes on counting where it stopped.
-/

namespace QueryTaint.Prepass

/-- One of the passes, or all of them in their usual order. -/
inductive Pass where
  | names | loops | magic | all
deriving DecidableEq, Repr

/-- The statements with complete names. -/
def namePass (stmts : List Stmt) : List Stmt := ((completeNames.stmts stmts).run {}).1

/-- The statements with jumps in place of `break` and `continue`, and the labels made. -/
def loopPass (path : String) (stmts : List Stmt) : Except Error (List Stmt × Labels) := do
  let (stmts, scope) ← (resolveLoops.stmts stmts).run { labels := .forFile path }
  return (stmts, scope.labels)

/-- The statements with magic constants replaced. -/
def magicPass (path : String) (stmts : List Stmt) : Except Error (List Stmt) :=
  (replaceMagic.stmts stmts).run' { path }

/-- The statements after all passes, and the labels made. -/
def prepare (path : String) (stmts : List Stmt) : Except Error (List Stmt × Labels) := do
  let (stmts, labels) ← loopPass path (namePass stmts)
  return (← magicPass path stmts, labels)

/-- Runs one pass; the labels are those of the last one that made any. -/
def Pass.run (path : String) (state : List Stmt × Labels) :
    Pass → Except Error (List Stmt × Labels)
  | .names => return (namePass state.1, state.2)
  | .loops => loopPass path state.1
  | .magic => return (← magicPass path state.1, state.2)
  | .all => prepare path state.1

/-- Runs passes one after the other. -/
def runPasses (path : String) (passes : List Pass) (stmts : List Stmt) :
    Except Error (List Stmt × Labels) :=
  passes.foldlM (Pass.run path) (stmts, .forFile path)

end QueryTaint.Prepass
