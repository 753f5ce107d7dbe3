import QueryTaint.Error
import QueryTaint.Syntax.Traversal
import QueryTaint.Text.Label

/-!
# Jumps out of loops

Every `break` and `continue` becomes a jump to a label. A loop gets a label after it and one at the
end of its body; a switch gets one label, after it, for both. Labels do not reach into the bodies of
functions.
-/

namespace QueryTaint.Prepass

/-- Where `break` and `continue` of one construct lead. -/
structure LoopTarget where
  afterLoop : String
  endOfBody : String
deriving DecidableEq, Repr

/-- The labels made so far, and the enclosing constructs of each enclosing function body, the
innermost first. -/
structure LoopScope where
  labels : Labels
  frames : List (List LoopTarget) := [[]]

/-- Resolving jumps can fail. -/
abbrev LoopM := StateT LoopScope (Except Error)

namespace LoopScope

/-- Opens a construct in the innermost function body. -/
def push (s : LoopScope) (target : LoopTarget) (labels : Labels) : LoopScope :=
  match s.frames with
  | [] => { labels, frames := [[target]] }
  | frame :: rest => { labels, frames := (target :: frame) :: rest }

/-- Opens a loop with two new labels. -/
def openLoop (s : LoopScope) : LoopScope :=
  let (afterLoop, labels) := s.labels.nextLabel
  let (endOfBody, labels) := labels.nextLabel
  s.push ⟨afterLoop, endOfBody⟩ labels

/-- Opens a switch with one new label. -/
def openSwitch (s : LoopScope) : LoopScope :=
  let (label, labels) := s.labels.nextLabel
  s.push ⟨label, label⟩ labels

/-- Closes the innermost construct. -/
def close (s : LoopScope) : Option LoopTarget × LoopScope :=
  match s.frames with
  | (target :: frame) :: rest => (some target, { s with frames := frame :: rest })
  | _ => (none, s)

/-- Opens the body of a function. -/
def openBody (s : LoopScope) : LoopScope := { s with frames := [] :: s.frames }

/-- Closes the body of a function. -/
def closeBody (s : LoopScope) : LoopScope := { s with frames := s.frames.drop 1 }

/-- The number that a jump's level denotes: one when absent, none unless it is an integer. -/
def level? : Option Expr → Option Int
  | none => some 1
  | some (.mk (.literal (.int n)) _) => some n.toInt
  | _ => none

/-- The construct that a jump of some level leads out of. -/
def target (s : LoopScope) (keyword : String) (level : Option Expr) :
    Except Error LoopTarget :=
  match level? level with
  | none => .error (.loop (.notPositive keyword))
  | some n =>
    if n ≤ 0 then .error (.loop (.notPositive keyword))
    else match (s.frames.headD [])[n.toNat - 1]? with
      | some target => .ok target
      | none => .error (.loop (.tooFar keyword n))

end LoopScope

/-- The statement with a label added at the end of its body, if it is a loop. -/
def addLabel (name : String) (span : Span) : StmtKind → StmtKind
  | .whileLoop cond body => .whileLoop cond (body ++ [.mk (.label name) span])
  | .doWhile body cond => .doWhile (body ++ [.mk (.label name) span]) cond
  | .forLoop init cond step body =>
    .forLoop init cond step (body ++ [.mk (.label name) span])
  | .foreach subject key value byRef body =>
    .foreach subject key value byRef (body ++ [.mk (.label name) span])
  | other => other

/-- The traversal that turns `break` and `continue` into jumps. -/
def resolveLoops : Traversal LoopM where
  enterStmt stmt := do
    match stmt.kind with
    | .whileLoop .. | .doWhile .. | .forLoop .. | .foreach .. => modify (·.openLoop); return id
    | .switch .. => modify (·.openSwitch); return id
    | .function .. | .method .. => modify (·.openBody); return id
    | .breakLoop level =>
      let target ← (← get).target "break" level
      return fun _ => .goto target.afterLoop
    | .continueLoop level =>
      let target ← (← get).target "continue" level
      return fun _ => .goto target.endOfBody
    | _ => return id
  leaveStmt kind span := do
    match kind with
    | .whileLoop .. | .doWhile .. | .forLoop .. | .foreach .. =>
      match ← modifyGet (·.close) with
      | some target =>
        return (addLabel target.endOfBody span kind, [.mk (.label target.afterLoop) span])
      | none => return (kind, [])
    | .switch .. =>
      match ← modifyGet (·.close) with
      | some target => return (kind, [.mk (.label target.afterLoop) span])
      | none => return (kind, [])
    | .function .. | .method .. => modify (·.closeBody); return (kind, [])
    | _ => return (kind, [])
  enterExpr e := do
    if let .closure .. := e.kind then modify (·.openBody)
    return id
  leaveExpr kind := do
    if let .closure .. := kind then modify (·.closeBody)

end QueryTaint.Prepass
