import QueryTaint.Lower.Tree
import QueryTaint.Simplify.Basic

/-!
# Programs

The scripts of several files in one arena, with the errors of the files that could not be lowered.
-/

namespace QueryTaint

/-- Scripts that share an arena, and the paths and errors of files that failed. -/
structure Program where
  arena : Arena := {}
  scripts : List Script := []
  errors : List (String × Error) := []
deriving Inhabited

namespace Program

/-- Lowers one more file, unless preparing it failed. -/
def add (p : Program) (path : String) (prepared : Except Error (List Stmt × Labels)) : Program :=
  match prepared with
  | .error e => { p with errors := p.errors ++ [(path, e)] }
  | .ok (stmts, labels) =>
    match lowerFile p.arena path labels stmts with
    | (.error e, arena) => { p with arena, errors := p.errors ++ [(path, e)] }
    | (.ok script, arena) => { p with arena, scripts := p.scripts ++ [script] }

/-- The functions of all scripts in order. -/
def funcs (p : Program) : List FuncId := p.scripts.flatMap (·.ordered)

/-- Folds constants in all functions. -/
def optimize (p : Program) : List Arena.OptimizeStats × Program :=
  let (stats, arena) := p.arena.optimizeAll p.funcs
  (stats, { p with arena })

/-- Simplifies all functions. -/
def simplify (p : Program) : List Arena.SimplifyStats × Program :=
  let (stats, arena) := p.arena.simplifyAll p.funcs
  (stats, { p with arena })

/-- The operations of all functions in the order of blocks, without φs. -/
def instructions (p : Program) : List OpId :=
  p.funcs.flatMap fun f => (p.arena.func f).blocks.flatMap fun b => (p.arena.block b).ops

end Program

end QueryTaint
