import QueryTaint.Lower.Variable

/-!
# Lowering control flow

How branches, loops, switches, labels and handlers are built, given the steps that lower their
parts.
-/

namespace QueryTaint.Lower

/-- Runs steps one after the other. -/
def inOrder (steps : List (Lowering Unit)) : Lowering Unit := steps.forM id

/-- Runs a step that may be absent. -/
def ifGiven (step : Option (Lowering Unit)) : Lowering Unit := step.getD (pure ())

/-! ## Branches -/

/-- A branch; the first arm goes on to the last block, and the second does so itself. -/
def branch (last : BlockId) (span : Span) (cond : Lowering OperandId)
    (body otherwise : Lowering Unit) : Lowering Unit := do
  let cond ← current cond
  let ifBlock ← newBlock
  let elseBlock ← newBlock
  jumpIf cond ifBlock elseBlock span
  assertBranches cond ifBlock elseBlock
  under cond do
    guardBlock ifBlock
    goTo ifBlock
    body
    jump last span
  let negated ← negate cond
  under negated do
    guardBlock elseBlock
    goTo elseBlock
    otherwise

/-- A branch with further conditions; all arms go on to the last block. -/
def branches (last : BlockId) (span : Span) (cond : Lowering OperandId) (body : Lowering Unit) :
    List (ElseIf (Lowering OperandId) (Lowering Unit)) → Option (Lowering Unit) → Lowering Unit
  | [], otherwise => branch last span cond body do
    ifGiven otherwise
    jump last span
  | next :: rest, otherwise =>
    branch last span cond body
      (branches last next.span next.cond (inOrder next.body) rest otherwise)

/-- An if statement. -/
def ifElse (cond : Lowering OperandId) (body : Lowering Unit)
    (elseIfs : List (ElseIf (Lowering OperandId) (Lowering Unit)))
    (otherwise : Option (Lowering Unit)) (span : Span) : Lowering Unit := do
  let last ← newBlock
  branches last span cond body elseIfs otherwise
  goTo last

/-! ## Loops -/

/-- Guards the block after a loop by the negation of the loop's condition, and goes on there. -/
def leaveLoop (cond : OperandId) (last : BlockId) : Lowering Unit := do
  let negated ← negate cond
  under negated (guardBlock last)
  goTo last

/-- A loop that tests its condition first. -/
def loop (cond : Lowering OperandId) (body : Lowering Unit) (span : Span) : Lowering Unit := do
  let header ← newBlock
  let inside ← newBlock
  let last ← newBlock
  jump header span
  goTo header
  let cond ← cond
  jumpIf cond inside last span
  assertBranches cond inside last
  under cond do
    guardBlock inside
    goTo inside
    body
    jump header span
  leaveLoop cond last

/-- The conditions of a for loop; the last one decides, and without any the loop goes on. -/
def lastCondition (conds : List (Lowering OperandId)) : Lowering OperandId := do
  match (← conds.mapM current).getLast? with
  | some cond => return cond
  | none => newOperand (.scalar (.bool true))

/-- A for loop. -/
def forLoop (init cond step : List (Lowering OperandId)) (body : Lowering Unit) (span : Span) :
    Lowering Unit := do
  let _ ← init.mapM current
  loop (lastCondition cond) (do body; let _ ← step.mapM current) span

/-- A loop that tests its condition last. -/
def doWhile (body : Lowering Unit) (cond : Lowering OperandId) (span : Span) :
    Lowering Unit := do
  let inside ← newBlock
  let last ← newBlock
  jump inside span
  goTo inside
  body
  let cond ← current cond
  jumpIf cond inside last span
  assertBranches cond inside last
  leaveLoop cond last

/-- A loop over a value. The key has its own target, and `value` receives each element. -/
def foreach (subject : Lowering OperandId) (key : Option (Span × Lowering OperandId))
    (byRef : Bool) (valueSpan : Span) (value : OperandId → Lowering Unit) (body : Lowering Unit)
    (span : Span) : Lowering Unit := do
  let subject ← current subject
  let _ ← emit (.reset subject) span
  let header ← newBlock
  let inside ← newBlock
  let last ← newBlock
  jump header span
  goTo header
  let valid ← emitValue span (.iterValid subject ·)
  jumpIf valid inside last span
  goTo inside
  if let some (keySpan, target) := key then
    let key ← emitValue keySpan (.iterKey subject ·)
    let target ← target
    let _ ← emitValue keySpan (.assign target key ·)
  value (← emitValue valueSpan (.iterValue subject byRef ·))
  body
  let _ ← emit (.next subject) span
  jump header span
  goTo last

/-! ## Switches -/

/-- The cases of a switch with the blocks of their bodies. -/
abbrev PlacedCases := List (Case (Lowering OperandId) (Lowering Unit) × BlockId)

/-- The block of the last default case. -/
def defaultBlock? (cases : PlacedCases) : Option BlockId :=
  (cases.filter fun (case, _) => case.cond.isNone).getLast?.map (·.2)

/-- What holds of the blocks of all cases and of another block holds of the default block, or of the
other block if there is none. -/
theorem getD_defaultBlock? {P : BlockId → Prop} {cases : PlacedCases} {last : BlockId}
    (hcases : ∀ c ∈ cases, P c.2) (hlast : P last) : P ((defaultBlock? cases).getD last) := by
  cases hdefault : defaultBlock? cases with
  | none => exact hlast
  | some block =>
    obtain ⟨c, hc, rfl⟩ := Option.map_eq_some_iff.1 hdefault
    exact hcases c (List.mem_filter.1 (List.mem_of_getLast? hc)).1

/-- The values of the cases of a jump table and their blocks, each guarded by its equation. -/
def tableEntries (switchBlock : BlockId) (subject : OperandId) :
    PlacedCases → Lowering (List OperandId × List BlockId)
  | [] => return ([], [])
  | (case, block) :: rest => do
    change (·.link switchBlock block)
    match case.cond with
    | some cond =>
      let value ← current cond
      let equal ← newTemporary none
      let _ ← detached (.binary .equal subject value equal) case.span
      change (·.addGuard block equal)
      let (values, targets) ← tableEntries switchBlock subject rest
      return (value :: values, block :: targets)
    | none => tableEntries switchBlock subject rest

/-- Selects a case by a table. -/
def jumpTable (subject : OperandId) (cases : PlacedCases) (last : BlockId) (span : Span) :
    Lowering Unit := do
  let here := (← get).block
  let (values, targets) ← tableEntries here subject cases
  let otherwise := (defaultBlock? cases).getD last
  change (·.link here otherwise)
  let _ ← emit (.switch subject values targets otherwise) span
  change (·.modifyBlock here fun b => { b with guarded := true })

/-- Selects a case by one comparison after the other. -/
def compareCases (subject : OperandId) : PlacedCases → Lowering Unit
  | [] => return
  | (case, block) :: rest => do
    if let some cond := case.cond then
      let value ← current cond
      let equal ← emitValue case.span (.binary .equal subject value ·)
      let next ← newBlock
      jumpIf equal block next case.span
      change (·.addGuard block equal)
      goTo next
    compareCases subject rest

/-- Jumps on from the end of a case unless it is dead. -/
def fallThrough (previous : Option BlockId) (target : BlockId) (span : Span) :
    Lowering Unit := do
  if let some previous := previous then
    if !(← isDead previous) then
      goTo previous
      jump target span

/-- The bodies of cases in order; the end of each goes on to the next. -/
def caseBodies (previous : Option BlockId) : PlacedCases → Lowering (Option BlockId)
  | [] => return previous
  | (case, block) :: rest => do
    fallThrough previous block case.span
    goTo block
    inOrder case.body
    caseBodies (some (← get).block) rest

/-- A switch; `table` says that all cases are literals. -/
def switch (subject : Lowering OperandId) (table : Bool)
    (cases : List (Case (Lowering OperandId) (Lowering Unit))) (span : Span) :
    Lowering Unit := do
  let subject ← current subject
  let last ← newBlock
  let cases ← cases.mapM fun case => do return (case, ← newBlock)
  if table then jumpTable subject cases last span
  else
    compareCases subject cases
    jump ((defaultBlock? cases).getD last) span
  let previous ← caseBodies none cases
  fallThrough previous last span
  goTo last

/-! ## Jumps and handlers -/

/-- A jump to a label, which may come later. -/
def goto (label : String) (span : Span) : Lowering Unit := do
  match (← get).scope.labels.get? label with
  | some target => jump target span
  | none =>
    let here := (← get).block
    changeScope fun s => { s with gotos := s.gotos ++ [(label, here)] }
  goDead

/-- A label; the jumps that waited for it are made. A label that is already known is left out. -/
def label (name : String) (span : Span) : Build Unit := do
  if (← get).scope.labels.contains name then return
  let block ← newBlock
  jump block span
  guardBlock block
  let (waiting, others) := (← get).scope.gotos.partition (·.1 == name)
  waiting.forM fun (_, source) => do
    let op ← detached (.jump block) span
    change fun a => (a.append source op).link source block
  changeScope fun s => { s with gotos := others, labels := s.labels.insert name block }
  goTo block

/-- A handler, in a block that nothing leads to. -/
def handler (caught : Catch (Lowering Unit)) : Lowering Unit := do
  goTo (← newBlock)
  if let some var := caught.var then
    let _ ← writeVariable (← newVariable var)
  inOrder caught.body

/-- A try statement: its body, its handlers apart, and what is done at last. -/
def tryCatch (body : Lowering Unit) (catches : List (Catch (Lowering Unit)))
    (finish : Option (Lowering Unit)) : Lowering Unit := do
  body
  let here := (← get).block
  catches.forM handler
  goTo here
  ifGiven finish

end QueryTaint.Lower
