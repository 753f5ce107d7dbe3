import QueryTaint.Proofs.Lower.Variable
import QueryTaint.Proofs.Origin.Entry

/-!
# Chains of binary operators

A chain of binary operators that nests to the left, as `a . b . c . d` does, can be lowered by a
loop that goes down to the left end of the chain and back again, so that its length costs no depth
(`chainLoop`). The operators apply one after the other, and the value so far is read anew after
each of them. `run_binary_eq_loop_eq_recursion` says that lowering is this loop, and that the loop
is the plain recursion that reads both sides of an operator and applies it (`recursion`), whatever
the operands do to the builder and whether or not they fail. What carries it is that the result of
an operator is a temporary that is no version of a variable (`binary_unowned`), so that reading it
changes nothing (`readVariable_binary`).
-/

namespace QueryTaint.Lower

variable {b : Builder} {id : OperandId}

/-! ## The result of an operator -/

/-- An operand is a temporary that is no version of a variable. -/
structure Unowned (a : Arena) (id : OperandId) : Prop where
  lt : id.index < a.operands.size
  kind : (a.operand id).kind = .temporary none

theorem newOperand_unowned (kind : OperandKind) (h : Unowned b.arena id) :
    Gives (newOperand kind) b fun _ b' => Unowned b'.arena id := by
  refine ⟨?_, ?_⟩
  · exact Nat.lt_of_lt_of_eq (Nat.lt_succ_of_lt h.lt) (Array.size_push ..).symm
  · change ((b.arena.newOperand kind).2.operand id).kind = _
    rw [Arena.operand_newOperand, if_neg (Nat.ne_of_lt h.lt)]
    exact h.kind

theorem addAssertion_unowned (cond var : OperandId) (assertion : Assertion)
    (h : Unowned b.arena id) :
    Gives (addAssertion cond var assertion) b fun _ b' => Unowned b'.arena id := by
  refine ⟨?_, ?_⟩
  · exact Nat.lt_of_lt_of_eq h.lt (Arena.size_operands_modifyOperand ..).symm
  · refine (Arena.operand_modifyOperand_keep b.arena Operand.kind cond id ?_).trans h.kind
    exact fun o => rfl

theorem copyAssertions_unowned (edit : Assertion → Assertion) (source cond : OperandId)
    (h : Unowned b.arena id) :
    Gives (copyAssertions edit source cond) b fun _ b' => Unowned b'.arena id :=
  .look (.forM h fun _ _ _ h' => addAssertion_unowned _ _ _ h')

theorem assertType_unowned (negated : Bool) (left right result : OperandId)
    (h : Unowned b.arena id) :
    Gives (assertType negated left right result) b fun _ b' => Unowned b'.arena id := by
  refine .look ?_
  split
  · exact .bind (newOperand_unowned _ h) fun _ _ h' => addAssertion_unowned _ _ _ h'
  · exact .pure h

theorem emit_unowned (kind : OpKind) (span : Span) (h : Unowned b.arena id) :
    Gives (emit kind span) b fun _ b' => Unowned b'.arena id := by
  have hadd : Unowned (b.arena.addOp kind span).2 id :=
    ⟨Nat.lt_of_lt_of_eq h.lt (Arena.size_foldl_recordSlot ..).symm,
      (Arena.kind_operand_addOp b.arena kind span id).trans h.kind⟩
  -- What follows changes blocks and functions only.
  have hrest : ∀ b' : Builder, b'.arena.operands = (b.arena.addOp kind span).2.operands →
      Unowned b'.arena id := fun b' heq =>
    ⟨heq ▸ hadd.lt, by rw [Arena.operand, heq]; exact hadd.kind⟩
  refine .bind (P := fun _ b' => b'.arena.operands = (b.arena.addOp kind span).2.operands) rfl ?_
  intro op b₁ h₁
  refine .get (.bind (P := fun _ b' => b'.arena.operands = b₁.arena.operands) rfl ?_)
  intro _ b₂ h₂
  refine .look ?_
  split
  · exact hrest _ (h₂.trans h₁)
  · exact hrest _ (h₂.trans h₁)

theorem emitValue_unowned (span : Span) (make : OperandId → OpKind) :
    Gives (emitValue span make) b fun result b' => Unowned b'.arena result := by
  refine .bind (P := fun result b' => Unowned b'.arena result) ?_ fun result b' h =>
    .bind (emit_unowned _ span h) fun _ _ h' => .pure h'
  refine ⟨?_, ?_⟩
  · exact Nat.lt_of_lt_of_eq (Nat.lt_succ_self _) (Array.size_push ..).symm
  · change ((b.arena.newOperand _).2.operand ⟨b.arena.operands.size⟩).kind = _
    rw [Arena.operand_newOperand, if_pos rfl]

/-- The result of an operator is no version of a variable. -/
theorem binary_unowned (op : BinaryOp) (left right : OperandId) (span : Span) :
    Gives (binary op left right span) b fun result b' => Unowned b'.arena result := by
  refine .bind (emitValue_unowned span _) fun result b₁ h₁ => ?_
  cases op with
  | equal | identical | notEqual | notIdentical =>
    exact .bind (assertType_unowned _ _ _ _ h₁) fun _ _ h₂ => .pure h₂
  | logicalAnd =>
    refine .bind (copyAssertions_unowned _ _ _ h₁) fun _ _ h₂ => ?_
    exact .bind (copyAssertions_unowned _ _ _ h₂) fun _ _ h₃ => .pure h₃
  | _ => exact .pure h₁

/-- Reading an operand changes nothing if it is no version of a variable. -/
theorem readVariable_unowned {m : Build OperandId}
    (h : ∀ b, Gives m b fun result b' => Unowned b'.arena result) :
    (do readVariable (← m)) = m := by
  funext b
  refine readVariable_other ?_ ?_
  · intro name value hkind
    cases (h b).kind.symm.trans hkind
  · intro owner hkind
    cases (h b).kind.symm.trans hkind

/-- The same inside of steps that may fail. -/
theorem readVariable_lift_unowned {m : Build OperandId}
    (h : ∀ b, Gives m b fun result b' => Unowned b'.arena result) :
    (do readVariable (← m) : Lowering OperandId) = m := by
  conv_rhs => rw [← readVariable_unowned h]
  rfl

theorem readVariable_binary (op : BinaryOp) (left right : OperandId) (span : Span) :
    (do readVariable (← binary op left right span) : Lowering OperandId) =
      binary op left right span :=
  readVariable_lift_unowned fun _ => binary_unowned op left right span

/-! ## The loop -/

/-- An operator of a chain, with what stands at its right. -/
structure Link where
  op : BinaryOp
  right : Expr
  span : Span

/-- Adds the operators of a chain to those that were met before, the outermost first; what is left
is the expression at the left end. -/
def unchain (met : List Link) : Expr → List Link × Expr
  | .mk (.binary op left right) span => unchain (met ++ [⟨op, right, span⟩]) left
  | .mk kind span => (met, .mk kind span)

/-- Applies an operator to the value so far, and reads the result. -/
def Link.apply (value : OperandId) (link : Link) : Lowering OperandId := do
  let right ← current (expr link.right)
  let result ← binary link.op value right link.span
  readVariable result

/-- Lowers a chain by a loop over its operators, from the innermost on. -/
def chainLoop (e : Expr) : Lowering OperandId := do
  let (links, leftmost) := unchain [] e
  let value ← current (expr leftmost)
  links.reverse.foldlM Link.apply value

/-- The operators met before stay in front. -/
theorem unchain_eq (met : List Link) :
    ∀ e : Expr, unchain met e = (met ++ (unchain [] e).1, (unchain [] e).2)
  | .mk kind span => by
    cases kind with
    | binary op left right =>
      rw [unchain, unchain, unchain_eq _ left, unchain_eq ([] ++ _) left, List.append_assoc]
      rfl
    | _ => exact congrArg (·, _) (List.append_nil met).symm

/-- The loop over a chain ends with its outermost operator. -/
theorem chainLoop_binary (op : BinaryOp) (left right : Expr) (span : Span) :
    chainLoop (.mk (.binary op left right) span) =
      chainLoop left >>= fun value => Link.apply value ⟨op, right, span⟩ := by
  have hlinks : unchain [] (.mk (.binary op left right) span) =
      (⟨op, right, span⟩ :: (unchain [] left).1, (unchain [] left).2) :=
    unchain_eq [⟨op, right, span⟩] left
  simp only [chainLoop, hlinks, List.reverse_cons, List.foldlM_append, List.foldlM_cons,
    List.foldlM_nil, bind_assoc, bind_pure]

/-- The left side of an operator is lowered as by the loop. -/
theorem spine_eq_chainLoop : ∀ e : Expr, spine e = chainLoop e
  | .mk kind span => by
    cases kind with
    | binary op left right =>
      rw [chainLoop_binary, ← spine_eq_chainLoop left]
      rfl
    | _ => exact (bind_pure _).symm

/-! ## The recursion -/

/-- Applying an operator of a chain needs no second read. -/
theorem Link.apply_eq (value : OperandId) (link : Link) :
    Link.apply value link = (do
      let right ← current (expr link.right)
      binary link.op value right link.span) := by
  refine congrArg (current (expr link.right) >>= ·) (funext fun right => ?_)
  exact readVariable_binary link.op value right link.span

/-- A chain is its left side, followed by the outermost operator. -/
theorem spine_binary (op : BinaryOp) (left right : Expr) (span : Span) :
    spine (.mk (.binary op left right) span) = (do
      let left ← spine left
      let right ← current (expr right)
      binary op left right span) :=
  congrArg (spine left >>= ·) (funext fun value => Link.apply_eq value ⟨op, right, span⟩)

/-- The left side of an operator is lowered as any other value is. -/
theorem spine_eq_current : ∀ e : Expr, spine e = current (expr e)
  | .mk kind span => by
    cases kind with
    | binary op left right =>
      have hread : current (spine (.mk (.binary op left right) span)) =
          spine (.mk (.binary op left right) span) := by
        simp only [spine_binary, current, bind_assoc, readVariable_binary]
      exact hread.symm
    | _ => rfl

/-- An operator is lowered by reading its two sides and applying it to what was read. -/
theorem expr_binary (op : BinaryOp) (left right : Expr) (span : Span) :
    expr (.mk (.binary op left right) span) = (do
      let left ← current (expr left)
      let right ← current (expr right)
      binary op left right span) := by
  rw [← spine_eq_current left, ← spine_binary]
  rfl

/-- Lowers an expression, and an operator by recursion: its two sides are read, and the operator is
applied to what was read. -/
def recursion : Expr → Lowering OperandId
  | .mk (.binary op left right) span => do
    let left ← current (recursion left)
    let right ← current (recursion right)
    binary op left right span
  | .mk kind span => expr (.mk kind span)

theorem expr_eq_recursion : ∀ e : Expr, expr e = recursion e
  | .mk kind span => by
    cases kind with
    | binary op left right =>
      rw [expr_binary, expr_eq_recursion left, expr_eq_recursion right]
      rfl
    | _ => rfl

/-- Lowering an operator is what the loop does and what the recursion does. From any builder, both
make the same operands and operations in the same order and have the same result, or they fail in
the same way. -/
theorem run_binary_eq_loop_eq_recursion (op : BinaryOp) (left right : Expr) (span : Span)
    (b : Builder) :
    (expr (.mk (.binary op left right) span)).run.run b =
        (chainLoop (.mk (.binary op left right) span)).run.run b ∧
      (chainLoop (.mk (.binary op left right) span)).run.run b =
        (recursion (.mk (.binary op left right) span)).run.run b := by
  have hloop : expr (.mk (.binary op left right) span) =
      chainLoop (.mk (.binary op left right) span) :=
    spine_eq_chainLoop (.mk (.binary op left right) span)
  exact ⟨by rw [hloop], by rw [← hloop, expr_eq_recursion]⟩

end QueryTaint.Lower
