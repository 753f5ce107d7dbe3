import QueryTaint.Lower.Value
import QueryTaint.Proofs.Relabel.Read

/-!
# Versions of variables in different arenas

What is looked up in the smaller of two arenas has a counterpart in the other one, so reads and writes
of variables mirror each other, and so do the assertions at the start of branches.
-/

namespace QueryTaint.Lower

variable {g : Graft} {n : Nat}

/-! ## Versions of variables -/

theorem readHere_mirrors (name : String) : Mirrors g n g.operand (readHere name) (readHere name) := by
  refine .get (fun b b' hb => by rw [hb.block]) fun b => ?_
  refine .bind (readName_mirrors name b.block) fun x => .bind (modify_mirrors (fun _ => rfl)
    fun b b' hb => ?_) fun _ => .pure rfl
  exact { hb with }

theorem completePhis_mirrors (pending : List PendingPhi) :
    Mirrors g n id (completePhis pending) (completePhis (pending.map (·.relabel g.toRelabel))) := by
  induction pending with
  | nil => exact .pure rfl
  | cons p rest ih =>
    exact .look (fun _ _ h => h.livePreds p.block) fun live =>
      .bind (addIncoming_mirrors p.phi fun pred _ => readName_mirrors p.name pred) fun _ =>
      .bind (attachPhi_mirrors p.block p.phi) fun _ => ih

theorem readVariable_mirrors (id : OperandId) :
    Mirrors g n g.operand (readVariable id) (readVariable (g.operand id)) := by
  induction id using WellFounded.induction (measure OperandId.index).wf with
  | _ id ih =>
    rw [readVariable, readVariable]
    have hself : Mirrors g n g.operand (pure id) (pure (g.operand id)) := .pure rfl
    refine .get_each fun b => ?_
    cases hkind : (b.arena.operand id).kind with
    | «variable» name value =>
      have hkind' {b' : Builder} (hb : b.Twin g b') : (b'.arena.operand (g.operand id)).kind =
          .variable (g.operand name) (value.map g.operand) := by
        rw [hb.arena.operand, Operand.relabel, hkind]
        rfl
      cases htext : b.arena.stringOf? name with
      | some text =>
        refine ⟨readHere text, fun b' hb => ?_, ?_⟩
        · simp only [hkind' hb, hb.arena.stringOf?, htext]
        · simp only [htext]
          exact readHere_mirrors text
      | none =>
        refine ⟨_, fun b' hb => by simp only [hkind' hb, hb.arena.stringOf?, htext]; rfl, ?_⟩
        simp only [htext, g.lt_operand]
        split
        · rename_i hlt
          exact .bind (ih name hlt) fun _ => hself
        · exact hself
    | temporary owner =>
      cases owner with
      | none =>
        refine ⟨pure (g.operand id), fun b' hb => ?_, hself⟩
        simp only [hb.arena.operand, Operand.relabel, hkind, OperandKind.relabel, Option.map_none]
      | some owner =>
        have hkind' {b' : Builder} (hb : b.Twin g b') : (b'.arena.operand (g.operand id)).kind =
            .temporary (some (g.operand owner)) := by
          rw [hb.arena.operand, Operand.relabel, hkind]
          rfl
        refine ⟨_, fun b' hb => by
          simp only [hkind' hb, hb.arena.nameOf?, hb.scope.wasWritten]; rfl, ?_⟩
        simp only [g.lt_operand]
        have howner : Mirrors g n g.operand
            (if _h : owner.index < id.index then readVariable owner else pure id)
            (if _h : owner.index < id.index then readVariable (g.operand owner)
              else pure (g.operand id)) := by
          split
          · rename_i hlt
            exact ih owner hlt
          · exact hself
        split
        · exact .ite hself howner
        · exact .ite hself howner
    | _ =>
      refine ⟨pure (g.operand id), fun b' hb => ?_, hself⟩
      simp only [hb.arena.operand, Operand.relabel, hkind, OperandKind.relabel]

theorem rootOf_embeds {a a' : Arena} (h : Arena.Embeds g a a') (id : OperandId) :
    rootOf a' (g.operand id) = g.operand (rootOf a id) := by
  induction id using WellFounded.induction (measure OperandId.index).wf with
  | _ id ih =>
    rw [rootOf, rootOf, h.operand, Operand.relabel]
    cases (a.operand id).kind with
    | temporary owner =>
      cases owner with
      | none => rfl
      | some owner =>
        simp only [OperandKind.relabel, Option.map_some, g.lt_operand]
        split
        · rename_i hlt
          exact ih owner hlt
        · rfl
    | _ => rfl

theorem writeVariable_mirrors (id : OperandId) :
    Mirrors g n g.operand (writeVariable id) (writeVariable (g.operand id)) := by
  refine .get_each fun b => ?_
  have hkind {b' : Builder} (hb : b.Twin g b') :
      (b'.arena.operand (g.operand (rootOf b.arena id))).kind =
        (b.arena.operand (rootOf b.arena id)).kind.relabel g.toRelabel := by
    rw [hb.arena.operand]
    rfl
  cases heq : (b.arena.operand (rootOf b.arena id)).kind with
  | «variable» name value =>
    simp only [heq] at hkind ⊢
    cases htext : b.arena.stringOf? name with
    | some text =>
      have hversion (var : OperandId) : Mirrors g n g.operand (do
          let version ← newTemporary (some var)
          bindIn b.block text version
          return version) (do
          let version ← newTemporary (some (g.operand var))
          bindIn (g.block b.block) text version
          return version) :=
        .bind (newVersion_mirrors var) fun version => .bind (bindIn_mirrors b.block text version)
          fun _ => .pure rfl
      refine ⟨_, fun b' hb => by
        simp only [hkind hb, OperandKind.relabel, hb.arena.stringOf?, htext, hb.block,
          rootOf_embeds hb.arena, Relabel.operand_inj]; rfl, ?_⟩
      dsimp only
      split
      · exact hversion _
      · exact .bind (newOperand_mirrors (.variable name none) rfl) fun var => hversion var
    | none =>
      refine ⟨_, fun b' hb => by
        simp only [hkind hb, OperandKind.relabel, hb.arena.stringOf?, htext,
          rootOf_embeds hb.arena]; rfl, ?_⟩
      exact .bind (readVariable_mirrors name) fun _ => .pure rfl
  | _ =>
    simp only [heq] at hkind ⊢
    refine ⟨pure (g.operand (rootOf b.arena id)), fun b' hb => ?_, .pure rfl⟩
    simp only [hkind hb, OperandKind.relabel, rootOf_embeds hb.arena]

/-! ## Assertions -/

mutual

theorem readAssertion_mirrors : ∀ s : Assertion,
    Mirrors g n (·.relabel g.toRelabel) (readAssertion s) (readAssertion (s.relabel g.toRelabel))
  | .type value negated => by
    rw [Assertion.relabel, readAssertion, readAssertion]
    exact .bind (readVariable_mirrors value) fun _ => .pure rfl
  | .composite children mode negated => by
    rw [Assertion.relabel, readAssertion, readAssertion]
    exact .bind (readAssertions_mirrors children) fun _ => .pure rfl

theorem readAssertions_mirrors : ∀ l : List Assertion,
    Mirrors g n (Assertion.relabelAll g.toRelabel) (readAssertions l)
      (readAssertions (Assertion.relabelAll g.toRelabel l))
  | [] => by
    rw [Assertion.relabelAll, readAssertions]
    exact .pure rfl
  | s :: rest => by
    rw [Assertion.relabelAll, readAssertions, readAssertions]
    exact .bind (readAssertion_mirrors s) fun _ => .bind (readAssertions_mirrors rest) fun _ =>
      .pure rfl

end

theorem assertIn_mirrors (block : BlockId) (negated : Bool) (asserted : VarAssertion) :
    Mirrors g n id (assertIn block negated asserted)
      (assertIn (g.block block) negated (asserted.relabel g.toRelabel)) := by
  refine .look (fun _ _ h => h.terminator? block) fun last => ?_
  rw [Option.isNone_map]
  refine .ite ?_ (.pure rfl)
  refine .bind (goTo_mirrors block) fun _ => .bind (readVariable_mirrors asserted.var) fun _ =>
    .bind (writeVariable_mirrors asserted.var) fun _ =>
    .bind (readAssertion_mirrors asserted.assertion) fun _ => ?_
  refine .bind (emit_mirrors _ ?_ .none) fun _ => .pure rfl
  cases negated <;> simp [OpKind.relabel]

theorem assertions_embeds {a a' : Arena} (h : Arena.Embeds g a a') (x : OperandId) :
    (a'.operand (g.operand x)).assertions =
      (a.operand x).assertions.map (VarAssertion.relabel g.toRelabel) := by
  rw [h.operand]
  rfl

theorem assertBranches_mirrors (cond : OperandId) (ifBlock elseBlock : BlockId) :
    Mirrors g n id (assertBranches cond ifBlock elseBlock)
      (assertBranches (g.operand cond) (g.block ifBlock) (g.block elseBlock)) := by
  refine .get (fun b b' hb => by rw [hb.block]) fun b => ?_
  refine .look (fun _ _ h => assertions_embeds h cond) fun assertions => .bind (.forM fun s _ => ?_)
    fun _ => goTo_mirrors b.block
  exact .bind (assertIn_mirrors ifBlock false s) fun _ => assertIn_mirrors elseBlock true s

end QueryTaint.Lower

/-!
## Expressions in different arenas

Each form of expression is lowered in the same way in different arenas if its parts are (`Rebuilds`).
-/

namespace QueryTaint.Lower

variable {g : Graft} {n : Nat}

/-- A step that lowers an expression does the same in different arenas. -/
def Rebuilds (g : Graft) (x : Lowering OperandId) : Prop := ∀ n, Follows g n g.operand x x

/-- A step that lowers a statement does the same in different arenas. -/
def Repeats (g : Graft) (x : Lowering Unit) : Prop := ∀ n, Follows g n id x x

theorem current_rebuilds {x : Lowering OperandId} (hx : Rebuilds g x) : Rebuilds g (current x) := fun n =>
  .bind (hx n) fun _ => .lift (readVariable_mirrors _)

/-! ### Literals, names and properties -/

theorem literal_mirrors (value : Literal) :
    Mirrors g n g.operand (literal value) (literal value) := by
  cases value <;> exact newOperand_mirrors _ rfl

theorem variableOperand_mirrors (name : String) :
    Mirrors g n g.operand (variableOperand name) (variableOperand name) := by
  refine .get (fun b b' hb => by rw [hb.cls]) fun b => ?_
  split
  · exact .bind (newString_mirrors _) fun x => .bind (newOperand_mirrors (.object _) rfl) fun y =>
      newOperand_mirrors (.bound x (some y) false .object) rfl
  · exact newVariable_mirrors _

theorem constant_mirrors (name : Name) (span : Span) :
    Mirrors g n g.operand (constant name span) (constant name span) := by
  unfold constant
  split
  · exact newOperand_mirrors _ rfl
  · exact newOperand_mirrors _ rfl
  · exact newOperand_mirrors _ rfl
  · refine .bind (newString_mirrors _) fun _ => .bind (emitValue_mirrors (fun _ => rfl) span)
      fun r => .get (fun b b' hb => by simp only [hb.consts]; rfl) fun b => .pure ?_
    rw [← Option.map_or, Option.getD_map]

theorem stringOf_embeds {a a' : Arena} (h : Arena.Embeds g a a') (x : OperandId) :
    a'.stringOf? (g.operand x) = id (a.stringOf? x) := h.stringOf? x

theorem nameOf_embeds {a a' : Arena} (h : Arena.Embeds g a a') (x : OperandId) :
    a'.nameOf? (g.operand x) = id (a.nameOf? x) := h.nameOf? x

theorem classConstant_mirrors (cls : OperandId) (name : String) (span : Span) :
    Mirrors g n g.operand (classConstant cls name span)
      (classConstant (g.operand cls) name span) := by
  refine .look (fun _ _ h => stringOf_embeds h cls) fun className => ?_
  have hread : Mirrors g n g.operand (do
      let operand ← newString name
      let result ← emitValue span (.classConst cls operand ·)
      let consts := (← get).consts
      return (className.bind fun c => consts.get? (c ++ "::" ++ name)).getD result) (do
      let operand ← newString name
      let result ← emitValue span (.classConst (g.operand cls) operand ·)
      let consts := (← get).consts
      return (className.bind fun c => consts.get? (c ++ "::" ++ name)).getD result) := by
    refine .bind (newString_mirrors _) fun _ => .bind (emitValue_mirrors (fun _ => rfl) span)
      fun r => .get (fun b b' hb => by simp only [hb.consts]; rfl) fun b => .pure ?_
    cases className with
    | none => rfl
    | some c => exact Option.getD_map ..
  dsimp only [id]
  split
  · exact newString_mirrors _
  · exact hread

theorem fieldResult_mirrors (key : Option String) :
    Mirrors g n g.operand (fieldResult key) (fieldResult key) := by
  cases key with
  | none => exact newResult_mirrors
  | some key => exact .bind (newVariable_mirrors key) fun var => newVersion_mirrors var

theorem property_rebuilds {object name : Lowering OperandId} (hobject : Rebuilds g object)
    (hname : Rebuilds g name) (span : Span) : Rebuilds g (property object name span) := fun n =>
  .bind (hobject n) fun raw => .look (fun _ _ h => nameOf_embeds h raw) fun _ =>
    .bind (.lift (readVariable_mirrors raw)) fun _ => .bind (hname n) fun name =>
    .look (fun _ _ h => stringOf_embeds h name) fun _ =>
    .bind (.lift (fieldResult_mirrors _)) fun _ => .bind (.lift (emit_mirrors _ rfl span)) fun _ =>
    .pure rfl

theorem staticProperty_mirrors (cls name : OperandId) (span : Span) :
    Mirrors g n g.operand (staticProperty cls name span)
      (staticProperty (g.operand cls) (g.operand name) span) :=
  .look (fun _ _ h => stringOf_embeds h cls) fun _ =>
    .look (fun _ _ h => stringOf_embeds h name) fun _ =>
    .bind (fieldResult_mirrors _) fun _ => .bind (emit_mirrors _ rfl span) fun _ => .pure rfl

/-! ### Arrays -/

/-- The operands of an array's items with new numbers. -/
def relabelItems (g : Graft) (items : List OperandId × List OperandId × List Bool) :
    List OperandId × List OperandId × List Bool :=
  (items.1.map g.operand, items.2.1.map g.operand, items.2.2)

theorem arrayItems_follows {items : List (ArrayItem (Lowering OperandId))}
    (h : ∀ item ∈ items, (∀ x ∈ item.key, Rebuilds g x) ∧ ∀ x ∈ item.value, Rebuilds g x) :
    Follows g n (relabelItems g) (arrayItems items) (arrayItems items) := by
  induction items with
  | nil => exact .pure rfl
  | cons item rest ih =>
    obtain ⟨⟨hkey, hvalue⟩, hrest⟩ := List.forall_mem_cons.1 h
    obtain ⟨key, value, byRef, unpack⟩ := item
    cases value with
    | none => exact ih hrest
    | some value =>
      cases key with
      | none =>
        exact .bind (.lift (newOperand_mirrors .null rfl)) fun _ =>
          .bind (current_rebuilds (hvalue value rfl) n) fun _ => .bind (ih hrest) fun _ => .pure rfl
      | some key =>
        exact .bind (current_rebuilds (hkey key rfl) n) fun _ =>
          .bind (current_rebuilds (hvalue value rfl) n) fun _ => .bind (ih hrest) fun _ => .pure rfl

theorem array_rebuilds {items : List (ArrayItem (Lowering OperandId))}
    (h : ∀ item ∈ items, (∀ x ∈ item.key, Rebuilds g x) ∧ ∀ x ∈ item.value, Rebuilds g x) (span : Span) :
    Rebuilds g (array items span) := fun _ =>
  .bind (arrayItems_follows h) fun _ => .lift (emitValue_mirrors (fun _ => rfl) span)

/-! ### Assignments -/

theorem isConstantLike_embeds {a a' : Arena} (h : Arena.Embeds g a a') (x : OperandId) :
    (a'.operand (g.operand x)).kind = (a.operand x).kind.relabel g.toRelabel := by
  rw [h.operand]
  rfl

theorem setValue_mirrors (var value : OperandId) :
    Mirrors g n id (change (·.setValue var value))
      (change (·.setValue (g.operand var) (g.operand value))) :=
  change_mirrors (fun a => .setValue a var value) fun _ _ h => h.setValue var value

theorem assign_rebuilds (whole : Bool) {value target : Lowering OperandId} (hvalue : Rebuilds g value)
    (htarget : Rebuilds g target) (span : Span) : Rebuilds g (assign whole value target span) := by
  refine fun n => .bind (current_rebuilds hvalue n) fun value => .bind (htarget n) fun target =>
    .bind (.lift (emitValue_mirrors (fun _ => rfl) span)) fun result =>
    .look (fun _ _ h => h.valueOf value) fun resolved =>
    .look (fun _ _ h => isConstantLike_embeds h resolved) fun kind => ?_
  rw [OperandKind.isConstantLike_relabel, OperandKind.scalar?_relabel]
  split
  · refine .bind (.lift (setValue_mirrors target resolved)) fun _ => .pure ?_
    split <;> rfl
  · exact .pure rfl

theorem assignOp_rebuilds (op : BinaryOp) {left right target : Lowering OperandId} (hleft : Rebuilds g left)
    (hright : Rebuilds g right) (htarget : Rebuilds g target) (span : Span) :
    Rebuilds g (assignOp op left right target span) := fun n =>
  .bind (current_rebuilds hleft n) fun _ => .bind (current_rebuilds hright n) fun _ =>
    .bind (.lift (emitValue_mirrors (fun _ => rfl) span)) fun _ => .bind (htarget n) fun _ =>
    .bind (.lift (emitValue_mirrors (fun _ => rfl) span)) fun _ => .pure rfl

theorem incDec_rebuilds (increment before : Bool) {value target : Lowering OperandId}
    (hvalue : Rebuilds g value) (htarget : Rebuilds g target) (span : Span) :
    Rebuilds g (incDec increment before value target span) := by
  refine fun n => .bind (current_rebuilds hvalue n) fun _ => .bind (.lift (newNumber_mirrors 1.0)) fun _ =>
    .bind (.lift (emitValue_mirrors (fun _ => rfl) span)) fun _ => .bind (htarget n) fun _ =>
    .bind (.lift (emitValue_mirrors (fun _ => rfl) span)) fun _ => .pure ?_
  cases before <;> rfl

theorem elementIndex_follows (position : Nat) {key : Option (Lowering OperandId)}
    (h : ∀ x ∈ key, Rebuilds g x) :
    Follows g n (fun made => (g.operand made.1, made.2)) (elementIndex position key)
      (elementIndex position key) := by
  cases key with
  | none => exact .bind (.lift (newNumber_mirrors _)) fun _ => .pure rfl
  | some key => exact .bind (current_rebuilds (h key rfl) n) fun _ => .pure rfl

/-! ### Operators -/

theorem typeSubject_embeds {a a' : Arena} (h : Arena.Embeds g a a') (x : OperandId) :
    typeSubject? a' (g.operand x) = (typeSubject? a x).map g.operand := by
  rw [typeSubject?, typeSubject?, h.operand, Operand.relabel, List.head?_map]
  cases (a.operand x).defs.head? with
  | none => rfl
  | some op =>
    simp only [Option.map_some, Option.bind_eq_bind, Option.bind_some, h.op, Op.relabel]
    cases (a.op op).kind with
    | functionCall name args result =>
      simp only [OpKind.relabel, h.stringOf?]
      cases a.stringOf? name with
      | none => rfl
      | some name =>
        simp only [Option.bind_some]
        split
        · rw [List.head?_map, Option.filter_map]
          simp only [Function.comp_def, h.nameOf?]
        · rfl
    | _ => rfl

theorem typeEquation_embeds {a a' : Arena} (h : Arena.Embeds g a a') (left right : OperandId) :
    typeEquation? a' (g.operand left) (g.operand right) =
      (typeEquation? a left right).map fun e => (g.operand e.1, e.2) := by
  have hside (x y : OperandId) : (do return (← typeSubject? a' (g.operand x), ← a'.stringOf? (g.operand y)) :
      Option (OperandId × String)) =
      (do return (← typeSubject? a x, ← a.stringOf? y) : Option (OperandId × String)).map
        fun e => (g.operand e.1, e.2) := by
    rw [typeSubject_embeds h, h.stringOf?]
    cases typeSubject? a x <;> cases a.stringOf? y <;> rfl
  rw [typeEquation?, typeEquation?, Option.map_or]
  exact congrArg₂ Option.or (hside left right) (hside right left)

theorem addAssertion_mirrors (cond var : OperandId) (s : Assertion) :
    Mirrors g n id (addAssertion cond var s)
      (addAssertion (g.operand cond) (g.operand var) (s.relabel g.toRelabel)) :=
  modifyOperand_mirrors cond fun _ => Operand.addAssertion_relabel ..

theorem copyAssertions_mirrors {edit : Assertion → Assertion}
    (hedit : ∀ s : Assertion, edit (s.relabel g.toRelabel) = (edit s).relabel g.toRelabel)
    (source cond : OperandId) :
    Mirrors g n id (copyAssertions edit source cond)
      (copyAssertions edit (g.operand source) (g.operand cond)) := by
  refine .look (fun _ _ h => assertions_embeds h source) fun assertions => .forM fun s _ => ?_
  have hadd := addAssertion_mirrors (g := g) (n := n) cond s.var (edit s.assertion)
  rw [← hedit] at hadd
  exact hadd

theorem assertType_mirrors (negated : Bool) (left right result : OperandId) :
    Mirrors g n id (assertType negated left right result)
      (assertType negated (g.operand left) (g.operand right) (g.operand result)) := by
  refine .look (fun _ _ h => typeEquation_embeds h left right) fun found => ?_
  cases found with
  | none => exact .pure rfl
  | some found =>
    exact .bind (newString_mirrors _) fun type => addAssertion_mirrors result found.1 (.type type negated)

theorem binary_mirrors (op : BinaryOp) (left right : OperandId) (span : Span) :
    Mirrors g n g.operand (binary op left right span)
      (binary op (g.operand left) (g.operand right) span) := by
  refine .bind (emitValue_mirrors (fun _ => rfl) span) fun result => ?_
  cases op with
  | equal | identical =>
    exact .bind (assertType_mirrors false left right result) fun _ => .pure rfl
  | notEqual | notIdentical =>
    exact .bind (assertType_mirrors true left right result) fun _ => .pure rfl
  | logicalAnd =>
    have hcopy (source : OperandId) : Mirrors g n id (copyAssertions id source result)
        (copyAssertions id (g.operand source) (g.operand result)) := by
      refine copyAssertions_mirrors (fun _ => ?_) source result
      rfl
    exact .bind (hcopy left) fun _ => .bind (hcopy right) fun _ => .pure rfl
  | _ => exact .pure rfl

theorem unary_mirrors (op : UnaryOp) (arg : OperandId) (span : Span) :
    Mirrors g n g.operand (unary op arg span) (unary op (g.operand arg) span) := by
  refine .bind (emitValue_mirrors (fun _ => rfl) span) fun result => .ite ?_ (.pure rfl)
  exact .bind (copyAssertions_mirrors (fun s => Assertion.negation_relabel ..) arg result) fun _ =>
    .pure rfl

theorem instanceOf_mirrors (arg cls : OperandId) (span : Span) :
    Mirrors g n g.operand (instanceOf arg cls span)
      (instanceOf (g.operand arg) (g.operand cls) span) := by
  refine .bind (emitValue_mirrors (fun _ => rfl) span) fun result =>
    .look (fun _ _ h => nameOf_embeds h arg) fun name => .ite ?_ (.pure rfl)
  exact .bind (addAssertion_mirrors result arg (.type cls false)) fun _ => .pure rfl

theorem arm_follows (last : BlockId) (span : Span) (block : BlockId) {value value' : Lowering OperandId}
    (hvalue : Follows g n g.operand value value') :
    Follows g n (List.map g.operand) (do
      guardBlock block
      goTo block
      let value ← value
      let dead ← isDead (← get).block
      jump last span
      return if dead then [] else [value]) (do
      guardBlock (g.block block)
      goTo (g.block block)
      let value ← value'
      let dead ← isDead (← get).block
      jump (g.block last) span
      return if dead then [] else [value]) := by
  refine .bind (.lift (guardBlock_mirrors block)) fun _ => .bind (.lift (goTo_mirrors block)) fun _ =>
    .bind hvalue fun value => .get (fun b b' hb => by rw [hb.block]) fun b => ?_
  refine .bind (.lift (isDead_mirrors b.block)) fun dead => .bind (.lift (jump_mirrors last span))
    fun _ => .pure ?_
  cases dead <;> rfl

theorem ternary_rebuilds {cond ifFalse : Lowering OperandId} {ifTrue : Option (Lowering OperandId)}
    (hcond : Rebuilds g cond) (htrue : ∀ x ∈ ifTrue, Rebuilds g x) (hfalse : Rebuilds g ifFalse)
    (span : Span) : Rebuilds g (ternary cond ifTrue ifFalse span) := by
  refine fun n => .bind (current_rebuilds hcond n) fun cond => .bind (.lift newBlock_mirrors)
    fun ifBlock => .bind (.lift newBlock_mirrors) fun elseBlock => .bind (.lift newBlock_mirrors)
    fun last => .bind (.lift (jumpIf_mirrors cond ifBlock elseBlock span)) fun _ =>
    .bind (.lift (assertBranches_mirrors cond ifBlock elseBlock)) fun _ =>
    .bind (under_follows cond (arm_follows last span ifBlock ?_)) fun first =>
    .bind (.lift (negate_mirrors cond)) fun negated =>
    .bind (under_follows negated (arm_follows last span elseBlock (current_rebuilds hfalse n)))
    fun second => .bind (.lift (goTo_mirrors last)) fun _ => .bind (.lift newResult_mirrors)
    fun result => .bind (.lift (detached_mirrors _ ?_ span)) fun phi =>
    .bind (.lift (attachPhi_mirrors last phi)) fun _ => .pure rfl
  · cases ifTrue with
    | none => exact .pure rfl
    | some value => exact current_rebuilds (htrue value rfl) n
  · rw [← List.map_append]
    rfl

/-! ### Calls -/

theorem currents_follows {xs : List (Lowering OperandId)} (h : ∀ x ∈ xs, Rebuilds g x) :
    Follows g n (List.map g.operand) (xs.mapM current) (xs.mapM current) :=
  .mapM_same fun x hx => current_rebuilds (h x hx) n

theorem optional_follows {x : Option (Lowering OperandId)} (h : ∀ y ∈ x, Rebuilds g y) :
    Follows g n (Option.map g.operand) (x.mapM current) (x.mapM current) :=
  .optional_same fun y hy => current_rebuilds (h y hy) n

theorem settype_follows (value type : OperandId) {target : Lowering OperandId}
    (htarget : Rebuilds g target) (span : Span) :
    Follows g n id (settype value type target span)
      (settype (g.operand value) (g.operand type) target span) := by
  refine .look (fun _ _ h => stringOf_embeds h type) fun name => ?_
  dsimp only [id]
  split
  · exact .bind (.lift (emitValue_mirrors (fun _ => rfl) span)) fun _ => .bind (htarget n) fun _ =>
      .bind (.lift (emitValue_mirrors (fun _ => rfl) span)) fun _ => .pure rfl
  · exact .pure rfl

theorem define_mirrors (name : String) (value : OperandId) :
    Mirrors g n id (define name value) (define name (g.operand value)) := by
  refine modify_mirrors (fun b => ?_) fun b b' hb => ?_
  · split <;> rfl
  · have hmain : b'.func = b'.script.main ↔ b.func = b.script.main := by
      rw [hb.func, hb.script.main, g.func_inj]
    simp only [hmain]
    split
    · refine { hb with consts := fun other => ?_ }
      have hother := hb.consts other
      simp only [Std.TreeMap.get?_eq_getElem?] at hother
      simp only [Std.TreeMap.get?_eq_getElem?, Std.TreeMap.getElem?_insert]
      split
      · rfl
      · exact hother
    · exact hb

/-- A call is placed, and a predicate on types asserts the type. -/
theorem emitPredicate_follows (callee : Option String) (name : OperandId) (args : List OperandId)
    (span : Span) :
    Follows g n g.operand (do
      let result ← emitCall span (.functionCall name args ·)
      match callee.bind predicateType?, args with
      | some type, subject :: _ =>
        if (← look (·.nameOf? subject)).isSome then
          addAssertion result subject (.type (← newString type) false)
      | _, _ => pure ()
      return result) (do
      let result ← emitCall span (.functionCall (g.operand name) (args.map g.operand) ·)
      match callee.bind predicateType?, args.map g.operand with
      | some type, subject :: _ =>
        if (← look (·.nameOf? subject)).isSome then
          addAssertion result subject (.type (← newString type) false)
      | _, _ => pure ()
      return result) := by
  refine .bind (.lift (emitCall_mirrors (fun _ => rfl) span)) fun result => ?_
  cases callee.bind predicateType? with
  | none => exact .pure rfl
  | some type =>
    cases args with
    | nil => exact .pure rfl
    | cons subject rest =>
      refine .look (fun _ _ h => nameOf_embeds h subject) fun name => ?_
      dsimp only [id]
      split
      · exact .bind (.lift (newString_mirrors type)) fun x =>
          .bind (.lift (addAssertion_mirrors result subject (.type x false))) fun _ => .pure rfl
      · exact .pure rfl

/-- Casting in place and defining a constant come before the call. -/
theorem beforeCall_follows (callee : Option String) (args : List OperandId)
    {target : Lowering OperandId} (htarget : Rebuilds g target) (span : Span)
    {rest rest' : Lowering OperandId} (hrest : Follows g n g.operand rest rest') :
    Follows g n g.operand
      (match callee, args with
      | some "settype", value :: type :: _ => do
        settype value type target span
        rest
      | some "define", const :: value :: _ => do
        if let some const ← look (·.stringOf? const) then define const value
        rest
      | _, _ => rest)
      (match callee, args.map g.operand with
      | some "settype", value :: type :: _ => do
        settype value type target span
        rest'
      | some "define", const :: value :: _ => do
        if let some const ← look (·.stringOf? const) then define const value
        rest'
      | _, _ => rest') := by
  split
  · exact .bind (settype_follows _ _ htarget span) fun _ => hrest
  · rename_i const value _
    refine .look (fun _ _ h => stringOf_embeds h const) fun const => ?_
    cases const with
    | none => exact hrest
    | some const => exact .bind (.lift (define_mirrors const value)) fun _ => hrest
  · rename_i hsettype hdefine
    split
    · rename_i heq
      obtain ⟨value, _, rfl, -, htail⟩ := List.map_eq_cons_iff.1 heq
      obtain ⟨type, _, rfl, -⟩ := List.map_eq_cons_iff.1 htail
      exact (hsettype _ _ _ rfl rfl).elim
    · rename_i heq
      obtain ⟨const, _, rfl, -, htail⟩ := List.map_eq_cons_iff.1 heq
      obtain ⟨value, _, rfl, -⟩ := List.map_eq_cons_iff.1 htail
      exact (hdefine _ _ _ rfl rfl).elim
    · exact hrest

theorem call_rebuilds {args : List (Lowering OperandId)} {name target : Lowering OperandId}
    (hargs : ∀ x ∈ args, Rebuilds g x) (hname : Rebuilds g name) (htarget : Rebuilds g target) (span : Span) :
    Rebuilds g (call args name target span) := fun n =>
  .bind (currents_follows hargs) fun args => .bind (hname n) fun name =>
    .look (fun _ _ h => stringOf_embeds h name) fun _ =>
    beforeCall_follows _ args htarget span (emitPredicate_follows _ name args span)

theorem new_mirrors (cls : OperandId) (args : List OperandId) (span : Span) :
    Mirrors g n g.operand (new cls args span)
      (new (g.operand cls) (args.map g.operand) span) := by
  refine .look (fun _ _ h => stringOf_embeds h cls) fun name => ?_
  dsimp only [id]
  split
  · exact .bind (newOperand_mirrors (.object _) rfl) fun object =>
      .bind (newVersion_mirrors object) fun _ => .bind (emit_mirrors _ rfl span) fun _ => .pure rfl
  · exact .bind newResult_mirrors fun _ => .bind (emit_mirrors _ rfl span) fun _ => .pure rfl

/-! ### Includes -/

theorem includeFile_rebuilds (kind : IncludeKind) (text : Option String) {value : Lowering OperandId}
    (hvalue : Rebuilds g value) (span : Span) : Rebuilds g (includeFile kind text value span) := by
  intro n
  refine .bind (current_rebuilds hvalue n) fun value => ?_
  cases text with
  | none => exact .lift (emitValue_mirrors (fun _ => rfl) span)
  | some target =>
    refine .bind (.lift (modify_mirrors (fun _ => rfl) fun b b' hb => ?_)) fun _ =>
      .lift (emitValue_mirrors (fun _ => rfl) span)
    exact { hb with script := hb.script.path ▸ hb.script.addInclude _ }

end QueryTaint.Lower
