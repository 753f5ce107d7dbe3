import QueryTaint.Lower.Builder

/-!
# Versions of variables

Every write of a variable makes a new version of it. A read finds the version in its block, and
otherwise makes a φ for it. The operands of the φs are looked up in the predecessors once the whole
body is there, by `completePhis`: a block with one live predecessor takes that block's version, and
any other block joins the versions of its live predecessors.
-/

namespace QueryTaint.Lower

/-- The tag of the input that a request array stands for. -/
def inputTag? : String → Option String
  | "_GET" => some "getsymbolic"
  | "_POST" => some "postsymbolic"
  | "_REQUEST" => some "requestsymbolic"
  | "_FILES" => some "filessymbolic"
  | "_COOKIE" => some "cookiesymbolic"
  | "_SERVER" | "_SERVERS" => some "serverssymbolic"
  | _ => none

/-- The start of the name that stands for a property of an object. -/
def propertyStem : String := "<propfetch>"

/-- The start of the name that stands for a static property. -/
def staticPropertyStem : String := "<staticpropfetch>"

/-- Whether a name stands for a property. -/
def isFieldKey (name : String) : Bool :=
  name.startsWith propertyStem || name.startsWith staticPropertyStem

/-- Makes a φ without operands for a variable. -/
def newPhi (name : String) : Build (OperandId × OpId) := do
  let var ← newVariable name
  let result ← newTemporary (some var)
  return (result, ← detached (.phi [] result) .none)

/-- Makes an operand the version of a variable in a block. -/
def bindIn (block : BlockId) (name : String) (value : OperandId) : Build Unit :=
  changeScope (·.bind block name value)

/-- Makes the operand of one reading of an input in a block. -/
def readInput (tag : String) (block : BlockId) : Build OperandId := do
  changeFunc fun f => { f with readsInput := true }
  change (·.modifyBlock block fun b => { b with readsInput := true })
  let input ← newOperand (.symbolic tag)
  change (·.modifyOperand input fun o => { o with tainted := true })
  return input

/-- Adds to a φ what a reader finds in each of several blocks. -/
def addIncoming (phi : OpId) (read : BlockId → Build OperandId) : List BlockId → Build Unit
  | [] => return
  | pred :: rest => do
    let incoming ← read pred
    change (·.addPhiOperand phi incoming)
    addIncoming phi read rest

/-- The version of a variable in a block, looked for in at most `steps` blocks on the way to the
entry. A variable is bound before its block's predecessors are visited if they are joined, so that
the search ends on loops. -/
def readWithin (name : String) : Nat → BlockId → Build OperandId
  | 0, _ => do return (← newPhi name).1
  | steps + 1, block => do
    match (← get).scope.lookup block name with
    | some value => return value
    | none =>
      match inputTag? name with
      | some tag => readInput tag block
      | none =>
        if (← get).scope.complete then
          let preds ← look fun a => (a.block block).preds
          let live ← look (·.livePreds block)
          if preds.length = 1 && live.length = 1 then
            let value ← readWithin name steps (preds.headD block)
            bindIn block name value
            return value
          else
            let (value, phi) ← newPhi name
            change (·.attachPhi block phi)
            bindIn block name value
            addIncoming phi (readWithin name steps) live
            return value
        else
          let (value, phi) ← newPhi name
          changeScope fun s => { s with pending := s.pending.push ⟨block, name, phi⟩ }
          bindIn block name value
          return value

/-- The version of a variable in a block. A search follows single predecessors through at most all
blocks before it is at a block that it binds, and it binds every block once. -/
def readName (name : String) (block : BlockId) : Build OperandId := do
  readWithin name (← look fun a => (a.blocks.size + 1) * (a.blocks.size + 1)) block

/-- The version of a variable in the current block, read there. -/
def readHere (name : String) : Build OperandId := do
  let here := (← get).block
  let operand ← readName name here
  modify fun b =>
    let index := (b.arena.block here).ops.length
    { b with reads := b.reads.push ⟨here, index, name, operand⟩ }
  return operand

/-- Adds the operands of the φs that were waiting for their predecessors. -/
def completePhis : List PendingPhi → Build Unit
  | [] => return
  | p :: rest => do
    addIncoming p.phi (readName p.name) (← look (·.livePreds p.block))
    change (·.attachPhi p.block p.phi)
    completePhis rest

/-- The current version of a variable; an operand that is none stands for itself, and so does a
property that this function did not write. -/
def readVariable (id : OperandId) : Build OperandId := do
  let b ← get
  match (b.arena.operand id).kind with
  | .variable name _ =>
    match b.arena.stringOf? name with
    | some text => readHere text
    | none =>
      if _h : name.index < id.index then
        let _ ← readVariable name
      return id
  | .temporary (some owner) =>
    let unwritten := match b.arena.nameOf? owner with
      | some name => isFieldKey name && !b.scope.wasWritten name
      | none => false
    if unwritten then return id
    else if _h : owner.index < id.index then readVariable owner
    else return id
  | _ => return id
termination_by id.index

/-- What a version of a variable is at last a version of. -/
def rootOf (a : Arena) (id : OperandId) : OperandId :=
  match (a.operand id).kind with
  | .temporary (some owner) =>
    if _h : owner.index < id.index then rootOf a owner else id
  | _ => id
termination_by id.index

/-- A new version of a variable in the current block. An operand that is no variable stands for
itself. A known value belongs to one variable operand, so writing through an old version makes a
new variable operand. -/
def writeVariable (id : OperandId) : Build OperandId := do
  let b ← get
  let var := rootOf b.arena id
  match (b.arena.operand var).kind with
  | .variable name _ =>
    match b.arena.stringOf? name with
    | some text =>
      let var ← if var = id then pure var else newOperand (.variable name none)
      let version ← newTemporary (some var)
      bindIn b.block text version
      return version
    | none =>
      let _ ← readVariable name
      return var
  | _ => return var

/-- Runs a step and takes the current version of its result. -/
def current (step : Lowering OperandId) : Lowering OperandId := do readVariable (← step)

mutual

/-- An assertion with the current versions of its operands. -/
def readAssertion : Assertion → Build Assertion
  | .type value negated => return .type (← readVariable value) negated
  | .composite children mode negated =>
    return .composite (← readAssertions children) mode negated

/-- Assertions with the current versions of their operands. -/
def readAssertions : List Assertion → Build (List Assertion)
  | [] => return []
  | a :: rest => do
    let a ← readAssertion a
    return a :: (← readAssertions rest)

end

/-- Puts an assertion on a variable at the start of a branch. Nothing is put behind the end of a
block. -/
def assertIn (block : BlockId) (negated : Bool) (asserted : VarAssertion) : Build Unit := do
  if (← look (·.terminator? block)).isNone then
    goTo block
    let read ← readVariable asserted.var
    let write ← writeVariable asserted.var
    let assertion ← readAssertion asserted.assertion
    let assertion := if negated then assertion.negation else assertion
    let _ ← emit (.assertion read assertion write) .none

/-- Puts what a condition asserts, and the negation of it, at the start of its two branches. -/
def assertBranches (cond : OperandId) (ifBlock elseBlock : BlockId) : Build Unit := do
  let here := (← get).block
  let assertions ← look fun a => (a.operand cond).assertions
  assertions.forM fun asserted => do
    assertIn ifBlock false asserted
    assertIn elseBlock true asserted
  goTo here

end QueryTaint.Lower
