import QueryTaint.Lower.Control
import QueryTaint.Proofs.Relabel.Value

/-!
# Control flow in different arenas

Branches, loops, switches, labels and handlers are lowered in the same way in different arenas if their
parts are.
-/

namespace QueryTaint.Lower

variable {g : Graft} {n : Nat}

theorem inOrder_repeats {steps : List (Lowering Unit)} (h : ∀ x ∈ steps, Repeats g x) :
    Repeats g (inOrder steps) := fun n => .forM_same fun x hx => h x hx n

theorem ifGiven_repeats {step : Option (Lowering Unit)} (h : ∀ x ∈ step, Repeats g x) :
    Repeats g (ifGiven step) := fun n => by
  cases step with
  | none => exact .pure rfl
  | some x => exact h x rfl n

/-! ## Branches -/

/-- What a branch does under its condition. -/
theorem armed_follows (cond : OperandId) (block : BlockId) {x x' : Lowering Unit}
    (hx : Follows g n id x x') :
    Follows g n id
      (under cond do
        guardBlock block
        goTo block
        x)
      (under (g.operand cond) do
        guardBlock (g.block block)
        goTo (g.block block)
        x') :=
  under_follows cond (.bind (.lift (guardBlock_mirrors block)) fun _ =>
    .bind (.lift (goTo_mirrors block)) fun _ => hx)

theorem branch_follows (last : BlockId) (span : Span) {cond : Lowering OperandId}
    {body otherwise otherwise' : Lowering Unit} (hcond : Rebuilds g cond) (hbody : Repeats g body)
    (hotherwise : Follows g n id otherwise otherwise') :
    Follows g n id (branch last span cond body otherwise)
      (branch (g.block last) span cond body otherwise') :=
  .bind (current_rebuilds hcond n) fun cond => .bind (.lift newBlock_mirrors) fun ifBlock =>
    .bind (.lift newBlock_mirrors) fun elseBlock =>
    .bind (.lift (jumpIf_mirrors cond ifBlock elseBlock span)) fun _ =>
    .bind (.lift (assertBranches_mirrors cond ifBlock elseBlock)) fun _ =>
    .bind (armed_follows cond ifBlock (.bind (hbody n) fun _ => .lift (jump_mirrors last span)))
    fun _ => .bind (.lift (negate_mirrors cond)) fun negated =>
    armed_follows negated elseBlock hotherwise

theorem branches_follows (last : BlockId) {cond : Lowering OperandId} {body : Lowering Unit}
    {elseIfs : List (ElseIf (Lowering OperandId) (Lowering Unit))}
    {otherwise : Option (Lowering Unit)} {span : Span} (hcond : Rebuilds g cond) (hbody : Repeats g body)
    (helseIfs : ∀ e ∈ elseIfs, Rebuilds g e.cond ∧ ∀ x ∈ e.body, Repeats g x)
    (hotherwise : ∀ x ∈ otherwise, Repeats g x) :
    Follows g n id (branches last span cond body elseIfs otherwise)
      (branches (g.block last) span cond body elseIfs otherwise) := by
  induction elseIfs generalizing span cond body with
  | nil =>
    exact branch_follows last span hcond hbody (.bind (ifGiven_repeats hotherwise n) fun _ =>
      .lift (jump_mirrors last span))
  | cons next rest ih =>
    obtain ⟨hnext, hrest⟩ := List.forall_mem_cons.1 helseIfs
    exact branch_follows last span hcond hbody (ih hnext.1 (inOrder_repeats hnext.2) hrest)

theorem ifElse_repeats {cond : Lowering OperandId} {body : Lowering Unit}
    {elseIfs : List (ElseIf (Lowering OperandId) (Lowering Unit))}
    {otherwise : Option (Lowering Unit)} (hcond : Rebuilds g cond) (hbody : Repeats g body)
    (helseIfs : ∀ e ∈ elseIfs, Rebuilds g e.cond ∧ ∀ x ∈ e.body, Repeats g x)
    (hotherwise : ∀ x ∈ otherwise, Repeats g x) (span : Span) :
    Repeats g (ifElse cond body elseIfs otherwise span) := fun _ =>
  .bind (.lift newBlock_mirrors) fun last =>
    .bind (branches_follows last hcond hbody helseIfs hotherwise) fun _ => .lift (goTo_mirrors last)

/-! ## Loops -/

theorem leaveLoop_follows (cond : OperandId) (last : BlockId) :
    Follows g n id (leaveLoop cond last) (leaveLoop (g.operand cond) (g.block last)) :=
  .bind (.lift (negate_mirrors cond)) fun negated =>
    .bind (under_follows negated (.lift (guardBlock_mirrors last))) fun _ =>
    .lift (goTo_mirrors last)

theorem loop_repeats {cond : Lowering OperandId} {body : Lowering Unit} (hcond : Rebuilds g cond)
    (hbody : Repeats g body) (span : Span) : Repeats g (loop cond body span) := fun n =>
  .bind (.lift newBlock_mirrors) fun header => .bind (.lift newBlock_mirrors) fun inside =>
    .bind (.lift newBlock_mirrors) fun last => .bind (.lift (jump_mirrors header span)) fun _ =>
    .bind (.lift (goTo_mirrors header)) fun _ => .bind (hcond n) fun cond =>
    .bind (.lift (jumpIf_mirrors cond inside last span)) fun _ =>
    .bind (.lift (assertBranches_mirrors cond inside last)) fun _ =>
    .bind (armed_follows cond inside (.bind (hbody n) fun _ => .lift (jump_mirrors header span)))
    fun _ => leaveLoop_follows cond last

theorem lastCondition_rebuilds {conds : List (Lowering OperandId)} (h : ∀ x ∈ conds, Rebuilds g x) :
    Rebuilds g (lastCondition conds) := by
  refine fun n => .bind (currents_follows h) fun conds => ?_
  rw [List.getLast?_map]
  cases conds.getLast? with
  | none => exact .lift (newOperand_mirrors _ rfl)
  | some cond => exact .pure rfl

/-- Values are taken for what taking them does. -/
theorem effects_repeats {steps : List (Lowering OperandId)} (h : ∀ x ∈ steps, Rebuilds g x) :
    Repeats g (do let _ ← steps.mapM current) := fun _ =>
  .bind (currents_follows h) fun _ => .pure rfl

theorem forLoop_repeats {init cond step : List (Lowering OperandId)} {body : Lowering Unit}
    (hinit : ∀ x ∈ init, Rebuilds g x) (hcond : ∀ x ∈ cond, Rebuilds g x) (hstep : ∀ x ∈ step, Rebuilds g x)
    (hbody : Repeats g body) (span : Span) : Repeats g (forLoop init cond step body span) := fun n =>
  .bind (currents_follows hinit) fun _ => loop_repeats (lastCondition_rebuilds hcond)
    (fun n => .bind (hbody n) fun _ => effects_repeats hstep n) span n

theorem doWhile_repeats {body : Lowering Unit} {cond : Lowering OperandId} (hbody : Repeats g body)
    (hcond : Rebuilds g cond) (span : Span) : Repeats g (doWhile body cond span) := fun n =>
  .bind (.lift newBlock_mirrors) fun inside => .bind (.lift newBlock_mirrors) fun last =>
    .bind (.lift (jump_mirrors inside span)) fun _ => .bind (.lift (goTo_mirrors inside)) fun _ =>
    .bind (hbody n) fun _ => .bind (current_rebuilds hcond n) fun cond =>
    .bind (.lift (jumpIf_mirrors cond inside last span)) fun _ =>
    .bind (.lift (assertBranches_mirrors cond inside last)) fun _ => leaveLoop_follows cond last

/-- The key of a loop over a value is assigned to its target. -/
theorem key_follows (subject : OperandId) {key : Option (Span × Lowering OperandId)}
    (hkey : ∀ k ∈ key, Rebuilds g k.2) {rest rest' : Lowering Unit} (hrest : Follows g n id rest rest') :
    Follows g n id
      (do
        if let some (keySpan, target) := key then
          let key ← emitValue keySpan (.iterKey subject ·)
          let target ← target
          let _ ← emitValue keySpan (.assign target key ·)
        rest)
      (do
        if let some (keySpan, target) := key then
          let key ← emitValue keySpan (.iterKey (g.operand subject) ·)
          let target ← target
          let _ ← emitValue keySpan (.assign target key ·)
        rest') := by
  cases key with
  | none => exact hrest
  | some key =>
    exact .bind (.lift (emitValue_mirrors (fun _ => rfl) key.1)) fun _ => .bind (hkey key rfl n)
      fun _ => .bind (.lift (emitValue_mirrors (fun _ => rfl) key.1)) fun _ => hrest

theorem foreach_repeats {subject : Lowering OperandId} {key : Option (Span × Lowering OperandId)}
    {byRef : Bool} {valueSpan : Span} {value : OperandId → Lowering Unit} {body : Lowering Unit}
    (hsubject : Rebuilds g subject) (hkey : ∀ k ∈ key, Rebuilds g k.2)
    (hvalue : ∀ n x, Follows g n id (value x) (value (g.operand x))) (hbody : Repeats g body)
    (span : Span) : Repeats g (foreach subject key byRef valueSpan value body span) := fun n =>
  .bind (current_rebuilds hsubject n) fun subject => .bind (.lift (emit_mirrors _ rfl span)) fun _ =>
    .bind (.lift newBlock_mirrors) fun header => .bind (.lift newBlock_mirrors) fun inside =>
    .bind (.lift newBlock_mirrors) fun last => .bind (.lift (jump_mirrors header span)) fun _ =>
    .bind (.lift (goTo_mirrors header)) fun _ =>
    .bind (.lift (emitValue_mirrors (fun _ => rfl) span)) fun valid =>
    .bind (.lift (jumpIf_mirrors valid inside last span)) fun _ =>
    .bind (.lift (goTo_mirrors inside)) fun _ => key_follows subject hkey
    (.bind (.lift (emitValue_mirrors (fun _ => rfl) valueSpan)) fun x => .bind (hvalue n x) fun _ =>
      .bind (hbody n) fun _ => .bind (.lift (emit_mirrors _ rfl span)) fun _ =>
      .bind (.lift (jump_mirrors header span)) fun _ => .lift (goTo_mirrors last))

/-! ## Switches -/

/-- The cases of a switch with new numbers for their blocks. -/
def relabelPlaced (g : Graft) (c : Case (Lowering OperandId) (Lowering Unit) × BlockId) :
    Case (Lowering OperandId) (Lowering Unit) × BlockId :=
  (c.1, g.block c.2)

/-- The parts of a case do the same in different arenas. -/
def CaseRepeats (g : Graft) (c : Case (Lowering OperandId) (Lowering Unit)) : Prop :=
  (∀ x ∈ c.cond, Rebuilds g x) ∧ ∀ x ∈ c.body, Repeats g x

theorem defaultBlock?_map (cases : PlacedCases) :
    defaultBlock? (cases.map (relabelPlaced g)) = (defaultBlock? cases).map g.block := by
  rw [defaultBlock?, defaultBlock?, List.filter_map, List.getLast?_map, Option.map_map, Option.map_map]
  rfl

theorem tableEntries_follows (switchBlock : BlockId) (subject : OperandId) {cases : PlacedCases}
    (h : ∀ c ∈ cases, CaseRepeats g c.1) :
    Follows g n (fun made => (made.1.map g.operand, made.2.map g.block))
      (tableEntries switchBlock subject cases)
      (tableEntries (g.block switchBlock) (g.operand subject) (cases.map (relabelPlaced g))) := by
  induction cases with
  | nil => exact .pure rfl
  | cons c rest ih =>
    obtain ⟨hc, hrest⟩ := List.forall_mem_cons.1 h
    obtain ⟨⟨cond, body, span⟩, block⟩ := c
    refine .bind (.lift (link_mirrors switchBlock block)) fun _ => ?_
    cases cond with
    | none => exact ih hrest
    | some cond =>
      exact .bind (current_rebuilds (hc.1 cond rfl) n) fun _ => .bind (.lift newResult_mirrors)
        fun equal => .bind (.lift (detached_mirrors _ rfl span)) fun _ =>
        .bind (.lift (addGuard_mirrors block equal)) fun _ => .bind (ih hrest) fun _ => .pure rfl

theorem jumpTable_follows (subject : OperandId) {cases : PlacedCases}
    (h : ∀ c ∈ cases, CaseRepeats g c.1) (last : BlockId) (span : Span) :
    Follows g n id (jumpTable subject cases last span)
      (jumpTable (g.operand subject) (cases.map (relabelPlaced g)) (g.block last) span) := by
  refine .get (fun b b' hb => by rw [hb.block]) fun b => ?_
  refine .bind (tableEntries_follows b.block subject h) fun entries => ?_
  dsimp only
  rw [defaultBlock?_map, Option.getD_map]
  exact .bind (.lift (link_mirrors b.block _)) fun _ => .bind (.lift (emit_mirrors _ rfl span))
    fun _ => .lift (modifyBlock_mirrors b.block fun _ => rfl)

theorem compareCases_follows (subject : OperandId) {cases : PlacedCases}
    (h : ∀ c ∈ cases, CaseRepeats g c.1) :
    Follows g n id (compareCases subject cases)
      (compareCases (g.operand subject) (cases.map (relabelPlaced g))) := by
  induction cases with
  | nil => exact .pure rfl
  | cons c rest ih =>
    obtain ⟨hc, hrest⟩ := List.forall_mem_cons.1 h
    obtain ⟨⟨cond, body, span⟩, block⟩ := c
    cases cond with
    | none => exact ih hrest
    | some cond =>
      exact .bind (current_rebuilds (hc.1 cond rfl) n) fun _ =>
        .bind (.lift (emitValue_mirrors (fun _ => rfl) span)) fun equal =>
        .bind (.lift newBlock_mirrors) fun next =>
        .bind (.lift (jumpIf_mirrors equal block next span)) fun _ =>
        .bind (.lift (addGuard_mirrors block equal)) fun _ => .bind (.lift (goTo_mirrors next))
        fun _ => ih hrest

theorem fallThrough_follows (previous : Option BlockId) (target : BlockId) (span : Span) :
    Follows g n id (fallThrough previous target span)
      (fallThrough (previous.map g.block) (g.block target) span) := by
  cases previous with
  | none => exact .pure rfl
  | some previous =>
    refine .bind (.lift (isDead_mirrors previous)) fun dead => ?_
    cases dead with
    | true => exact .pure rfl
    | false =>
      exact .bind (.lift (goTo_mirrors previous)) fun _ => .lift (jump_mirrors target span)

theorem caseBodies_follows (previous : Option BlockId) {cases : PlacedCases}
    (h : ∀ c ∈ cases, CaseRepeats g c.1) :
    Follows g n (Option.map g.block) (caseBodies previous cases)
      (caseBodies (previous.map g.block) (cases.map (relabelPlaced g))) := by
  induction cases generalizing previous with
  | nil => exact .pure rfl
  | cons c rest ih =>
    obtain ⟨hc, hrest⟩ := List.forall_mem_cons.1 h
    obtain ⟨⟨cond, body, span⟩, block⟩ := c
    refine .bind (fallThrough_follows previous block span) fun _ =>
      .bind (.lift (goTo_mirrors block)) fun _ => .bind (inOrder_repeats hc.2 n) fun _ => ?_
    refine .get (fun b b' hb => by rw [hb.block]) fun b => ?_
    exact ih (some b.block) hrest

/-- The cases that are given to blocks are those of the switch. -/
theorem placeCases_follows {α β : Type} {f : α → β}
    {cases : List (Case (Lowering OperandId) (Lowering Unit))} {k : PlacedCases → Lowering α}
    {k' : PlacedCases → Lowering β}
    (hk : ∀ placed : PlacedCases, placed.map (·.1) = cases →
      Follows g n f (k placed) (k' (placed.map (relabelPlaced g)))) :
    Follows g n f ((cases.mapM fun case => do return (case, ← newBlock)) >>= k)
      ((cases.mapM fun case => do return (case, ← newBlock)) >>= k') := by
  induction cases generalizing k k' with
  | nil => exact hk [] rfl
  | cons c rest ih =>
    rw [List.mapM_cons]
    simp only [bind_assoc, pure_bind]
    refine .bind (.lift newBlock_mirrors) fun block => ih fun placed hplaced => ?_
    exact hk ((c, block) :: placed) (by rw [List.map_cons, hplaced])

/-- The bodies of a switch and what comes after it. -/
theorem finishSwitch_follows {cases : PlacedCases} (h : ∀ c ∈ cases, CaseRepeats g c.1)
    (last : BlockId) (span : Span) :
    Follows g n id
      (do
        let previous ← caseBodies none cases
        fallThrough previous last span
        goTo last)
      (do
        let previous ← caseBodies none (cases.map (relabelPlaced g))
        fallThrough previous (g.block last) span
        goTo (g.block last)) :=
  .bind (caseBodies_follows none h) fun previous =>
    .bind (fallThrough_follows previous last span) fun _ => .lift (goTo_mirrors last)

theorem switch_repeats {subject : Lowering OperandId} {table : Bool}
    {cases : List (Case (Lowering OperandId) (Lowering Unit))} (hsubject : Rebuilds g subject)
    (hcases : ∀ c ∈ cases, CaseRepeats g c) (span : Span) : Repeats g (switch subject table cases span) := by
  refine fun n => .bind (current_rebuilds hsubject n) fun subject =>
    .bind (.lift newBlock_mirrors) fun last => placeCases_follows fun placed hplaced => ?_
  have hacts : ∀ c ∈ placed, CaseRepeats g c.1 := fun c hc =>
    hcases c.1 (hplaced ▸ List.mem_map_of_mem hc)
  cases table with
  | true =>
    exact .bind (jumpTable_follows subject hacts last span) fun _ =>
      finishSwitch_follows hacts last span
  | false =>
    refine .bind (compareCases_follows subject hacts) fun _ => ?_
    rw [defaultBlock?_map, Option.getD_map]
    exact .bind (.lift (jump_mirrors _ span)) fun _ => finishSwitch_follows hacts last span

/-! ## Jumps and handlers -/

theorem goto_repeats (label : String) (span : Span) : Repeats g (goto label span) := by
  refine fun n => .get (fun b b' hb => by rw [hb.scope.labels]) fun b => ?_
  cases b.scope.labels.get? label with
  | some target => exact .bind (.lift (jump_mirrors target span)) fun _ => .lift goDead_mirrors
  | none =>
    refine .get (fun b b' hb => by rw [hb.block]) fun b => ?_
    refine .bind (.lift (changeScope_mirrors fun s s' hs => ?_)) fun _ => .lift goDead_mirrors
    exact { hs with gotos := by simp [hs.gotos] }

/-- A jump that waited for a label with new numbers. -/
def relabelGoto (g : Graft) (waiting : String × BlockId) : String × BlockId :=
  (waiting.1, g.block waiting.2)

theorem contains_labels {s s' : Scope} (h : Scope.Twin g.toRelabel s s') (name : String) :
    s'.labels.contains name = s.labels.contains name := by
  rw [Std.TreeMap.contains_eq_isSome_getElem?, Std.TreeMap.contains_eq_isSome_getElem?,
    ← Std.TreeMap.get?_eq_getElem?, ← Std.TreeMap.get?_eq_getElem?, h.labels, Option.isSome_map]

theorem partition_gotos (gotos : List (String × BlockId)) (name : String) :
    (gotos.map (relabelGoto g)).partition (·.1 == name) =
      ((gotos.partition (·.1 == name)).1.map (relabelGoto g),
        (gotos.partition (·.1 == name)).2.map (relabelGoto g)) := by
  rw [List.partition_eq_filter_filter, List.partition_eq_filter_filter, List.filter_map,
    List.filter_map]
  rfl

theorem label_mirrors (name : String) (span : Span) :
    Mirrors g n id (label name span) (label name span) := by
  refine .get (fun b b' hb => by rw [contains_labels hb.scope]) fun b => .ite (.pure rfl) ?_
  refine .bind newBlock_mirrors fun block => .bind (jump_mirrors block span) fun _ =>
    .bind (guardBlock_mirrors block) fun _ => ?_
  refine .get (fun b b' hb => by
    rw [show b'.scope.gotos = b.scope.gotos.map (relabelGoto g) from hb.scope.gotos,
      partition_gotos]) fun b => ?_
  refine .bind (.forM fun waiting _ => ?_) fun _ =>
    .bind (changeScope_mirrors fun s s' hs => ?_) fun _ => goTo_mirrors block
  · refine .bind (detached_mirrors _ rfl span) fun op => ?_
    exact change_mirrors (fun a => (Arena.Below.append a _ _).trans (.link _ _ _))
      fun _ _ h => (h.append waiting.2 op).link waiting.2 block
  · refine { hs with gotos := rfl, labels := fun other => ?_ }
    have hother := hs.labels other
    simp only [Std.TreeMap.get?_eq_getElem?] at hother
    simp only [Std.TreeMap.get?_eq_getElem?, Std.TreeMap.getElem?_insert]
    split
    · rfl
    · exact hother

theorem handler_repeats {caught : Catch (Lowering Unit)} (h : ∀ x ∈ caught.body, Repeats g x) :
    Repeats g (handler caught) := by
  obtain ⟨types, var, body⟩ := caught
  refine fun n => .bind (.lift newBlock_mirrors) fun block => .bind (.lift (goTo_mirrors block))
    fun _ => ?_
  cases var with
  | none => exact inOrder_repeats h n
  | some var =>
    exact .bind (.lift (newVariable_mirrors var)) fun x => .bind (.lift (writeVariable_mirrors x))
      fun _ => inOrder_repeats h n

theorem tryCatch_repeats {body : Lowering Unit} {catches : List (Catch (Lowering Unit))}
    {finish : Option (Lowering Unit)} (hbody : Repeats g body)
    (hcatches : ∀ c ∈ catches, ∀ x ∈ c.body, Repeats g x) (hfinish : ∀ x ∈ finish, Repeats g x) :
    Repeats g (tryCatch body catches finish) := by
  refine fun n => .bind (hbody n) fun _ => .get (fun b b' hb => by rw [hb.block]) fun b => ?_
  exact .bind (.forM_same fun c hc => handler_repeats (hcatches c hc) n) fun _ => .bind (.lift (goTo_mirrors b.block)) fun _ => ifGiven_repeats hfinish n

end QueryTaint.Lower
