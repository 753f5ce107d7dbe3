import QueryTaint.Proofs.Simplify.Enduring
import QueryTaint.Proofs.Version.Basic

/-!
# Folding and simplifying keep what φs join

An operand is replaced by one of the same name: by what the φ of a variable joins besides itself, or by
a constant where the operand has no name, since it is the result of an operation that is folded
(`Replaceable`). So every φ still joins versions of its variable only (`Versioned.replaceUses`). No
step puts a φ into a block. Hence φs join versions of their variables after folding and simplifying
(`enduring_versioned`).
-/

namespace QueryTaint

namespace OpKind

@[simp] theorem sole?_mapOperands (f : OperandId → OperandId) (kind : OpKind) :
    (kind.mapOperands f).sole? = kind.sole?.map f := by
  cases kind <;> rfl

@[simp] theorem joined?_mapOperands (f : OperandId → OperandId) (kind : OpKind) :
    (kind.mapOperands f).joined? = kind.joined?.map f := by
  cases kind <;> rfl

theorem sole?_mapBlocks (f : BlockId → BlockId) (kind : OpKind) :
    (kind.mapBlocks f).sole? = kind.sole? := by
  cases kind <;> rfl

theorem sole?_of_isTerminator {kind : OpKind} (h : kind.isTerminator = true) :
    kind.sole? = none := by
  cases kind <;> first | rfl | cases h

end OpKind

namespace Arena

variable {a a' : Arena}

theorem SameOperands.retains (h : SameOperands a a') : Retains a a' where
  operands := Nat.le_of_eq h.size.symm
  bare id _ := by rw [h.kind]

theorem SameOperands.nameOf?_eq (h : SameOperands a a') (id : OperandId) :
    a'.nameOf? id = a.nameOf? id := by
  have hback : SameOperands a' a := ⟨h.size.symm, fun id => (h.kind id).symm⟩
  exact Option.ext fun name => ⟨hback.retains.nameOf?, h.retains.nameOf?⟩

/-! ## Steps that replace no operand -/

/-- No φ is put into a block, and where an operation does not stay what it is, it was none that joins
or can be folded and becomes none. -/
theorem Versioned.thin (h : a.Versioned) (hl : Retains a a')
    (hkind : ∀ op, (a'.op op).kind = (a.op op).kind ∨
      (a.op op).kind.sole? = none ∧ (a'.op op).kind.sole? = none)
    (hphis : ∀ block, (a'.block block).phis.Sublist (a.block block).phis) : a'.Versioned := by
  refine ⟨h.toJoins.keep hl hkind, fun block => ((h.apart block).sublist (hphis block)).imp ?_⟩
  have hvariable (op : OpId) : a'.variableOf? op = a.variableOf? op := by
    rw [variableOf?, variableOf?]
    rcases hkind op with hk | ⟨hk, hk'⟩
    · rw [hk]
      cases hr : (a.op op).kind.joined? with
      | none => rfl
      | some r => exact h.nameOf?_eq hl hr
    · rw [OpKind.joined?_of_sole? hk, OpKind.joined?_of_sole? hk']
      rfl
  intro p q hpq
  rw [hvariable p, hvariable q]
  exact hpq

theorem Versioned.modifyBlock (h : a.Versioned) (block : BlockId) {f : Block → Block}
    (hf : ∀ b, (f b).phis = b.phis) : (a.modifyBlock block f).Versioned :=
  h.thin (.of_eq rfl) (fun _ => .inl rfl) fun b =>
    (block_modifyBlock_keep a Block.phis block b hf).symm ▸ .refl _

theorem Versioned.modifyOperand (h : a.Versioned) (id : OperandId) {f : Operand → Operand}
    (hf : ∀ o, (f o).kind = o.kind) : (a.modifyOperand id f).Versioned :=
  h.thin (SameOperands.modifyOperand a id hf).retains (fun _ => .inl rfl) fun _ => .refl _

theorem Versioned.newOperand (h : a.Versioned) (kind : OperandKind) :
    (a.newOperand kind).2.Versioned := by
  refine h.thin ⟨?_, fun id hid => ?_⟩ (fun _ => .inl rfl) fun _ => .refl _
  · exact Nat.le_of_lt (Nat.lt_of_lt_of_eq (Nat.lt_succ_self _) (Array.size_push ..).symm)
  · rw [operand_newOperand, if_neg (Nat.ne_of_lt hid)]

theorem Versioned.removeOp (h : a.Versioned) (op : OpId) : (a.removeOp op).Versioned := by
  obtain ⟨hkind, hphis⟩ := removeOp_lists a op
  exact h.thin (SameOperands.removeOp a op).retains (fun o => .inl (hkind o)) hphis

/-! ## Replaced operands -/

/-- An operand can be replaced in operations by one of the same name. An operation that writes it is no
φ, and nothing writes the other operand. -/
structure Replaceable (a : Arena) (ops : List OpId) (old new : OperandId) : Prop where
  name {name : String} : a.nameOf? old = some name → a.nameOf? new = some name
  result {op : OpId} : op ∈ ops → (a.op op).kind.sole? = some old →
    (a.op op).kind.joined? = none ∧ a.Nameless new ∧ ∀ o, (a.op o).kind.sole? ≠ some new

section Replace

variable {op : OpId} {ops : List OpId} {old new : OperandId}

/-- φs keep their results. -/
theorem Replaceable.joined?_eq (hr : a.Replaceable (op :: ops) old new) (o : OpId) :
    ((a.replaceInOp op old new).op o).kind.joined? = (a.op o).kind.joined? := by
  rcases op_replaceInOp_or a op o old new with heq | ⟨rfl, heq⟩
  · rw [heq]
  · rw [heq, OpKind.joined?_mapOperands]
    cases hj : (a.op o).kind.joined? with
    | none => rfl
    | some r =>
      refine congrArg some (if_neg ?_)
      rintro rfl
      have hnone := (hr.result List.mem_cons_self (OpKind.sole?_of_joined? hj)).1
      cases hnone.symm.trans hj

/-- Operations keep their results, but for one that wrote the operand. -/
theorem sole?_replaceInOp {o : OpId} {r : OperandId}
    (h : ((a.replaceInOp op old new).op o).kind.sole? = some r) :
    (a.op o).kind.sole? = some r ∨ o = op ∧ (a.op o).kind.sole? = some old ∧ r = new := by
  rcases op_replaceInOp_or a op o old new with heq | ⟨rfl, heq⟩
  · rw [heq] at h
    exact .inl h
  · rw [heq, OpKind.sole?_mapOperands] at h
    obtain ⟨r', hr', rfl⟩ := Option.map_eq_some_iff.1 h
    split
    · rename_i hold
      exact .inr ⟨rfl, hold ▸ hr', rfl⟩
    · exact .inl hr'

theorem Joins.replaceInOp (h : a.Joins) (hr : a.Replaceable (op :: ops) old new) :
    (a.replaceInOp op old new).Joins := by
  have hsame := SameOperands.replaceInOp a op old new
  refine ⟨fun {o o' r} ho ho' => ?_, fun {o r} ho hj => ?_, fun {o r} hj => ?_,
    fun {o vars r name} hphi hname v hv => ?_⟩
  · rcases sole?_replaceInOp ho with hw | ⟨heq, hold, rfl⟩ <;>
      rcases sole?_replaceInOp ho' with hw' | ⟨heq', hold', hnew⟩
    · exact h.sole hw hw'
    · exact absurd (hnew ▸ hw) ((hr.result (heq' ▸ List.mem_cons_self) hold').2.2 o)
    · exact absurd hw' ((hr.result (heq ▸ List.mem_cons_self) hold).2.2 o')
    · exact heq.trans heq'.symm
  · rw [hr.joined?_eq] at hj
    rcases sole?_replaceInOp ho with ho | ⟨rfl, hold, rfl⟩
    · exact hsame.retains.nameless (h.plain ho hj)
    · exact hsame.retains.nameless (hr.result List.mem_cons_self hold).2.1
  · rw [hr.joined?_eq] at hj
    rw [hsame.nameOf?_eq]
    exact (h.rooted hj).imp_left hsame.retains.nameless
  · rw [hsame.nameOf?_eq] at hname ⊢
    have hj := hr.joined?_eq o
    rw [hphi] at hj
    obtain ⟨vars', hvars'⟩ := OpKind.joined?_eq_some.1 hj.symm
    rcases op_replaceInOp_or a op o old new with heq | ⟨rfl, heq⟩
    · rw [heq] at hphi
      exact h.alike hphi hname v hv
    · rw [heq, hvars'] at hphi
      obtain ⟨rfl, -⟩ := OpKind.phi.inj hphi
      obtain ⟨v', hv', rfl⟩ := List.mem_map.1 hv
      have hname' := h.alike hvars' hname v' hv'
      split
      · rename_i hold
        exact hr.name (hold ▸ hname')
      · exact hname'

/-- An operand is replaced in one operation. -/
theorem Versioned.replaceInOp (h : a.Versioned) (hr : a.Replaceable (op :: ops) old new) :
    (a.replaceInOp op old new).Versioned := by
  refine ⟨h.toJoins.replaceInOp hr, fun block => ?_⟩
  have hvariable (o : OpId) : (a.replaceInOp op old new).variableOf? o = a.variableOf? o := by
    have hname : (a.replaceInOp op old new).nameOf? = a.nameOf? :=
      funext (SameOperands.replaceInOp a op old new).nameOf?_eq
    rw [variableOf?, variableOf?, hr.joined?_eq, hname]
  rw [Arena.block, (blocks_replaceInOp a op old new).1]
  refine (h.apart block).imp fun {p q} hpq => ?_
  rw [hvariable p, hvariable q]
  exact hpq

/-- What is left to do can still be done. -/
theorem Replaceable.next (hr : a.Replaceable (op :: ops) old new) (h : a.Joins) :
    (a.replaceInOp op old new).Replaceable ops old new := by
  have hsame := SameOperands.replaceInOp a op old new
  refine ⟨fun {name} hname => ?_, fun {o} ho hold => ?_⟩
  · rw [hsame.nameOf?_eq] at hname ⊢
    exact hr.name hname
  · rw [hr.joined?_eq]
    rcases sole?_replaceInOp hold with hwrites | ⟨rfl, hwrites, hsame⟩
    · obtain ⟨hj, hnew, hfresh⟩ := hr.result (List.mem_cons_of_mem _ ho) hwrites
      refine ⟨hj, hsame.retains.nameless hnew, fun o' ho' => ?_⟩
      rcases sole?_replaceInOp ho' with ho' | ⟨rfl, hwrites', -⟩
      · exact hfresh o' ho'
      · -- the one operation that writes the operand would write the new one by now
        obtain rfl := h.sole hwrites hwrites'
        exact hfresh o (Option.some.inj (ho'.symm.trans hold) ▸ hwrites)
    · exact absurd (hsame ▸ hwrites) ((hr.result List.mem_cons_self hwrites).2.2 o)

theorem Versioned.foldl_replaceInOp (h : a.Versioned) (hr : a.Replaceable ops old new) :
    (ops.foldl (fun a op => a.replaceInOp op old new) a).Versioned := by
  induction ops generalizing a with
  | nil => exact h
  | cons op ops ih => exact ih (h.replaceInOp hr) (hr.next h.toJoins)

theorem Versioned.replaceUses (h : a.Versioned)
    (hr : a.Replaceable (a.operand old).usages old new) : (a.replaceUses old new).Versioned := by
  unfold Arena.replaceUses
  split
  · exact h
  · have hread := (h.foldl_replaceInOp hr).modifyOperand old
      (f := fun o => { o with condUsages := [] }) fun _ => rfl
    dsimp only
    revert hread
    generalize (Arena.modifyOperand _ old _) = read
    generalize (Arena.operand _ old).condUsages = blocks
    induction blocks generalizing read with
    | nil => exact id
    | cons block blocks ih =>
      refine fun hread => ih _ ?_
      unfold replaceGuard
      refine (hread.modifyBlock block fun _ => ?_).modifyOperand new fun _ => ?_
      all_goals rfl

end Replace

/-! ## Folding and simplifying -/

/-- An operation that is removed reads none of its operands. -/
theorem notMem_usages_removeOp (a : Arena) {op : OpId} {id : OperandId}
    (hid : id ∈ (a.op op).kind.slots.map (·.2)) :
    op ∉ ((a.removeOp op).operand id).usages := by
  rw [operand_removeOp, if_pos hid]
  exact fun hmem => (Operand.mem_usages_forget.1 hmem).2 rfl

theorem sole?_of_evaluate? {kind : OpKind} {value : Scalar Float} {result : OperandId}
    (hvalue : a.evaluate? kind = some value) (hresult : kind.result? = some result) :
    kind.sole? = some result ∧ kind.joined? = none := by
  cases kind with
  | concatList list r =>
    have hlist : (OpKind.many .list list).find? (·.1 = ⟨.result, none⟩) = none := by
      refine List.find?_eq_none.2 fun e he => ?_
      obtain ⟨i, -, rfl⟩ := List.mem_mapIdx.1 he
      simp
    refine ⟨?_, rfl⟩
    rw [← hresult]
    simp [OpKind.sole?, OpKind.result?, OpKind.operand?, OpKind.slots, OpKind.one,
      List.find?_append, hlist]
  | binary | unary | cast => exact ⟨hresult, rfl⟩
  | _ => cases hvalue

theorem enduring_versioned : Enduring Versioned where
  install {a} file block op _ h :=
    h.thin (.of_eq rfl) (fun o => .inl (op_modifyOp_keep a Op.kind op o fun _ => rfl)) fun _ => .refl _
  fold {a a' op} hfold h := by
    obtain ⟨value, hvalue, hfold⟩ := Option.bind_eq_some_iff.1 hfold
    obtain ⟨result, hresult, hfold⟩ := Option.bind_eq_some_iff.1 hfold
    obtain rfl := Option.some.inj hfold
    obtain ⟨hsole, hj⟩ := sole?_of_evaluate? hvalue hresult
    have hnew := h.newOperand (.scalar value)
    refine (hnew.replaceUses ⟨fun {name} hname => ?_, fun {o} _ ho => ?_⟩).removeOp op
    · have hr : (a.newOperand (.scalar value)).2.Nameless result := hnew.plain hsole hj
      cases hr.nameOf?_eq.symm.trans hname
    · obtain rfl := h.sole ho hsole
      have hfresh (o' : OpId) : (a.op o').kind.sole? ≠ some ⟨a.operands.size⟩ :=
        fun ho' => Nat.lt_irrefl _ (h.result_lt ho')
      refine ⟨hj, ⟨?_, ?_⟩, hfresh⟩
      · exact Nat.lt_of_lt_of_eq (Nat.lt_succ_self _) (Array.size_push ..).symm
      · exact congrArg (OperandKind.hasName ·.kind) ((operand_newOperand ..).trans (if_pos rfl))
  remove {a phi value result} htrivial h := by
    unfold removePhi
    cases value with
    | none => exact h.removeOp phi
    | some value =>
      obtain ⟨vars, hphi, hvalue⟩ := vars_of_trivialPhi? htrivial
      have hremoved := h.removeOp phi
      have hphi' : ((a.removeOp phi).op phi).kind = .phi vars result :=
        ((removeOp_lists a phi).1 phi).trans hphi
      refine hremoved.replaceUses ⟨fun {name} hname => ?_, fun {o} ho hwrites => ?_⟩
      · exact hremoved.alike hphi' hname value hvalue
      · -- the φ is the one operation that writes its result, and reads nothing any more
        obtain rfl := hremoved.sole hwrites (congrArg OpKind.sole? hphi')
        exact absurd ho (notMem_usages_removeOp a (by rw [hphi]; simp [OpKind.slots, OpKind.one]))
  bypass {a block target pred jump last} s h := by
    rw [bypass_eq a block target pred last jump s.ops]
    have hterm : (a.op last).kind.isTerminator = true :=
      (Option.filter_eq_some_iff.1 s.terminator).2
    have hlast : (a.modifyOp last fun o => { o with
        kind := o.kind.mapBlocks (swap block target) }).Versioned := by
      refine h.thin (.of_eq rfl) (fun op => ?_) fun _ => .refl _
      rw [op_modifyOp]
      split
      · rename_i heq
        rw [← heq.1]
        have hnone := OpKind.sole?_of_isTerminator hterm
        exact .inr ⟨hnone, (OpKind.sole?_mapBlocks ..).trans hnone⟩
      · exact .inl rfl
    refine ((hlast.modifyBlock target fun _ => ?_).removeOp jump).modifyBlock block fun _ => ?_
    all_goals rfl

end Arena

end QueryTaint
