import QueryTaint.Proofs.Arena.Shape
import QueryTaint.Proofs.Lower.Law
import QueryTaint.Proofs.Origin.Entry

/-!
# What φs join

A φ of a variable joins versions of that variable only (`Arena.Joins`), and the φs of one block are
of different variables; a φ that is made for a choice is of no variable and comes first
(`Arena.Versioned`). So no φ takes the result of one that stands before it in its block
(`Joins.notMem_of_apart`). What φs join is kept when an operation is made (`Joins.addOp`) and when a φ
takes one more operand (`Joins.addPhiOperand`).
-/

namespace QueryTaint

/-- Whether an operand of a kind may have a name. -/
def OperandKind.hasName : OperandKind → Bool
  | .variable .. | .bound .. | .temporary (some _) => true
  | _ => false

theorem OperandKind.hasName_bare (kind : OperandKind) : kind.bare.hasName = kind.hasName := by
  cases kind <;> rfl

namespace OpKind

/-- The result of a φ. -/
def joined? : OpKind → Option OperandId
  | phi _ result => some result
  | _ => none

theorem joined?_eq_some {kind : OpKind} {r : OperandId} :
    kind.joined? = some r ↔ ∃ vars, kind = .phi vars r := by
  cases kind <;> simp [joined?]

theorem sole?_of_joined? {kind : OpKind} {r : OperandId} (h : kind.joined? = some r) :
    kind.sole? = some r := by
  obtain ⟨vars, rfl⟩ := joined?_eq_some.1 h
  rfl

theorem joined?_of_sole? {kind : OpKind} (h : kind.sole? = none) : kind.joined? = none := by
  cases kind <;> first | rfl | cases h

end OpKind

namespace Arena

variable {a a' a'' : Arena}

/-! ## Names -/

/-- The variable that a φ is of. -/
def variableOf? (a : Arena) (op : OpId) : Option String := (a.op op).kind.joined?.bind a.nameOf?

theorem lt_of_variableOf? {op : OpId} {name : String} (h : a.variableOf? op = some name) :
    op.index < a.ops.size :=
  Nat.lt_of_not_le fun hle => by
    rw [variableOf?, op_of_le a hle] at h
    cases h

theorem nameOf?_bound {id name : OperandId} {value : Option OperandId} {byRef : Bool}
    {scope : VarScope} (h : (a.operand id).kind = .bound name value byRef scope) :
    a.nameOf? id = a.stringOf? name := by
  rw [nameOf?, maxChain, nameWithin?, h]

theorem nameOf?_version {id owner name : OperandId} {value : Option OperandId}
    (h : (a.operand id).kind = .temporary (some owner))
    (howner : (a.operand owner).kind = .variable name value) :
    a.nameOf? id = a.stringOf? name := by
  rw [nameOf?, maxChain, nameWithin?, h]
  dsimp only
  rw [nameWithin?, howner]

/-- An operand that is no scalar has been made. -/
theorem lt_of_kind {id : OperandId} (h : ∀ c, (a.operand id).kind ≠ .scalar c) :
    id.index < a.operands.size :=
  Nat.lt_of_not_le fun hle => h default (by rw [operand_of_le a hle]; rfl)

theorem lt_of_stringOf? {id : OperandId} {s : String} (h : a.stringOf? id = some s) :
    id.index < a.operands.size :=
  Nat.lt_of_not_le fun hle => by
    rw [stringOf?, operand_of_le a hle] at h
    cases h

theorem lt_of_func {block : BlockId} {f : FuncId} (hf : (a.block block).func = some f) :
    block.index < a.blocks.size :=
  Nat.lt_of_not_le fun hle => by
    rw [block_of_le a hle] at hf
    cases hf

/-- An operand that is made without a name. It never gets one, since only operands of certain kinds
have names. -/
def Nameless (a : Arena) (id : OperandId) : Prop :=
  id.index < a.operands.size ∧ (a.operand id).kind.hasName = false

theorem nameless_of_temporary {id : OperandId} (h : (a.operand id).kind = .temporary none) :
    a.Nameless id :=
  ⟨lt_of_kind fun c => by rw [h]; exact nofun, by rw [h]; rfl⟩

theorem Nameless.nameOf?_eq {id : OperandId} (h : a.Nameless id) : a.nameOf? id = none := by
  have hkind := h.2
  rw [nameOf?, maxChain, nameWithin?]
  split
  · rename_i heq
    rw [heq] at hkind
    cases hkind
  · rename_i heq
    rw [heq] at hkind
    cases hkind
  · rename_i heq
    rw [heq] at hkind
    cases hkind
  · rfl

/-! ## Later arenas -/

/-- Operands stay what they are, but for the values that are known for them. -/
structure Retains (a a' : Arena) : Prop where
  operands : a.operands.size ≤ a'.operands.size
  bare : ∀ id : OperandId, id.index < a.operands.size →
    (a'.operand id).kind.bare = (a.operand id).kind.bare

/-- What each step of lowering keeps. -/
structure Later (a a' : Arena) : Prop extends Retains a a' where
  ops : a.ops.size ≤ a'.ops.size
  blocks : a.blocks.size ≤ a'.blocks.size
  funcs : a.funcs.size ≤ a'.funcs.size
  joined : ∀ op : OpId, op.index < a.ops.size → (a'.op op).kind.joined? = (a.op op).kind.joined?
  owner : ∀ block : BlockId, block.index < a.blocks.size →
    (a'.block block).func = (a.block block).func
  entry : ∀ f : FuncId, f.index < a.funcs.size → (a'.func f).entry = (a.func f).entry

namespace Retains

theorem of_eq (h : a'.operands = a.operands) : Retains a a' where
  operands := Nat.le_of_eq (congrArg Array.size h.symm)
  bare id _ := by rw [operand, operand, h]

theorem trans (h : Retains a a') (h' : Retains a' a'') : Retains a a'' where
  operands := Nat.le_trans h.operands h'.operands
  bare id hid := (h'.bare id (Nat.lt_of_lt_of_le hid h.operands)).trans (h.bare id hid)

theorem stringOf? (h : Retains a a') {id : OperandId} {s : String} (hs : a.stringOf? id = some s) :
    a'.stringOf? id = some s := by
  have hbare := h.bare id (lt_of_stringOf? hs)
  unfold Arena.stringOf? at hs ⊢
  generalize (a'.operand id).kind = k' at hbare ⊢
  generalize (a.operand id).kind = k at hbare hs
  cases k <;> cases k' <;> simp_all [OperandKind.bare, OperandKind.string?]

/-- A name that is known stays. -/
theorem nameOf? (h : Retains a a') {id : OperandId} {name : String} (hname : a.nameOf? id = some name) :
    a'.nameOf? id = some name := by
  have key (steps : Nat) : ∀ id : OperandId, a.nameWithin? steps id = some name →
      a'.nameWithin? steps id = some name := by
    induction steps with
    | zero => exact fun _ hid => hid
    | succ steps ih =>
      intro id hid
      have hkeep : id.index < a.operands.size →
          (a'.operand id).kind.bare = (a.operand id).kind.bare := h.bare id
      rw [nameWithin?] at hid ⊢
      cases hkind : (a.operand id).kind with
      | «variable» n value =>
        rw [hkind] at hid
        replace hkeep := hkeep (lt_of_kind fun c => by simp [hkind])
        rw [hkind] at hkeep
        generalize (a'.operand id).kind = k' at hkeep ⊢
        cases k' <;> simp [OperandKind.bare] at hkeep
        subst hkeep
        exact h.stringOf? hid
      | bound n value byRef scope =>
        rw [hkind] at hid
        replace hkeep := hkeep (lt_of_kind fun c => by simp [hkind])
        rw [hkind] at hkeep
        generalize (a'.operand id).kind = k' at hkeep ⊢
        cases k' <;> simp [OperandKind.bare] at hkeep
        obtain ⟨rfl, -⟩ := hkeep
        exact h.stringOf? hid
      | temporary owner? =>
        rw [hkind] at hid
        cases owner? with
        | none => cases hid
        | some owner =>
          replace hkeep := hkeep (lt_of_kind fun c => by simp [hkind])
          rw [hkind] at hkeep
          generalize (a'.operand id).kind = k' at hkeep ⊢
          cases k' <;> simp [OperandKind.bare] at hkeep
          subst hkeep
          exact ih owner hid
      | scalar | object | symbolic =>
        rw [hkind] at hid
        cases hid
  exact key maxChain id hname

theorem nameless (h : Retains a a') {id : OperandId} (hid : a.Nameless id) : a'.Nameless id := by
  refine ⟨Nat.lt_of_lt_of_le hid.1 h.operands, ?_⟩
  rw [← OperandKind.hasName_bare, h.bare id hid.1, OperandKind.hasName_bare]
  exact hid.2

end Retains

namespace Later

theorem refl (a : Arena) : Later a a :=
  ⟨.of_eq rfl, Nat.le_refl _, Nat.le_refl _, Nat.le_refl _, fun _ _ => rfl, fun _ _ => rfl,
    fun _ _ => rfl⟩

theorem trans (h : Later a a') (h' : Later a' a'') : Later a a'' where
  toRetains := h.toRetains.trans h'.toRetains
  ops := Nat.le_trans h.ops h'.ops
  blocks := Nat.le_trans h.blocks h'.blocks
  funcs := Nat.le_trans h.funcs h'.funcs
  joined op hop := (h'.joined op (Nat.lt_of_lt_of_le hop h.ops)).trans (h.joined op hop)
  owner block hb := (h'.owner block (Nat.lt_of_lt_of_le hb h.blocks)).trans (h.owner block hb)
  entry f hf := (h'.entry f (Nat.lt_of_lt_of_le hf h.funcs)).trans (h.entry f hf)

/-- A block that is there stays with its function. -/
theorem func (h : Later a a') {block : BlockId} {f : FuncId}
    (hf : (a.block block).func = some f) : (a'.block block).func = some f := by
  rw [h.owner block (lt_of_func hf), hf]

end Later

/-! ## Which operands φs join -/

/-- What holds of operations: the results of φs and of operations that can be folded are made for
them, and a φ is of no variable, or joins versions of its variable. -/
structure Joins (a : Arena) : Prop where
  sole {op op' : OpId} {r : OperandId} : (a.op op).kind.sole? = some r →
    (a.op op').kind.sole? = some r → op = op'
  plain {op : OpId} {r : OperandId} : (a.op op).kind.sole? = some r →
    (a.op op).kind.joined? = none → a.Nameless r
  rooted {op : OpId} {r : OperandId} : (a.op op).kind.joined? = some r →
    a.Nameless r ∨ ∃ name, a.nameOf? r = some name
  alike {op : OpId} {vars : List OperandId} {r : OperandId} {name : String} :
    (a.op op).kind = .phi vars r → a.nameOf? r = some name → ∀ v ∈ vars, a.nameOf? v = some name

/-- The φs of one block are of different variables, and those that are of none come first. -/
structure Versioned (a : Arena) : Prop extends Joins a where
  apart (block : BlockId) : (a.block block).phis.Pairwise fun p q =>
    ∃ name, a.variableOf? q = some name ∧ a.variableOf? p ≠ some name

/-- No φ takes the result of one that stands before it in its block. -/
theorem Joins.notMem_of_apart (h : a.Joins) {p q : OpId} {vars vars' : List OperandId}
    {r r' : OperandId} (hp : (a.op p).kind = .phi vars r) (hq : (a.op q).kind = .phi vars' r')
    (hpq : ∃ name, a.variableOf? q = some name ∧ a.variableOf? p ≠ some name) : r ∉ vars' := by
  obtain ⟨name, hname, hne⟩ := hpq
  rw [variableOf?, hq] at hname
  rw [variableOf?, hp] at hne
  exact fun hr => hne (h.alike hq hname r hr)

namespace Joins

variable (h : a.Joins)
include h

/-- The result of a φ has the name that it had. -/
theorem nameOf?_eq (hl : Retains a a') {op : OpId} {r : OperandId}
    (hr : (a.op op).kind.joined? = some r) : a'.nameOf? r = a.nameOf? r := by
  rcases h.rooted hr with hr | ⟨name, hname⟩
  · rw [hr.nameOf?_eq, (hl.nameless hr).nameOf?_eq]
  · rw [hname, hl.nameOf? hname]

theorem variableOf?_eq (hl : Later a a') {op : OpId} (hop : op.index < a.ops.size) :
    a'.variableOf? op = a.variableOf? op := by
  rw [variableOf?, variableOf?, hl.joined op hop]
  cases hr : (a.op op).kind.joined? with
  | none => rfl
  | some r => exact h.nameOf?_eq hl.toRetains hr

/-- A result is an operand that has been made. -/
theorem result_lt {op : OpId} {r : OperandId} (hr : (a.op op).kind.sole? = some r) :
    r.index < a.operands.size := by
  cases hj : (a.op op).kind.joined? with
  | none => exact (h.plain hr hj).1
  | some r' =>
    obtain rfl : r' = r := Option.some.inj ((OpKind.sole?_of_joined? hj).symm.trans hr)
    refine (h.rooted hj).elim And.left fun ⟨name, hname⟩ => Nat.lt_of_not_le fun hle => ?_
    rw [nameOf?, maxChain, nameWithin?, operand_of_le a hle] at hname
    cases hname

/-- Where an operation does not stay what it is, it was none that joins or can be folded and becomes
none. -/
theorem keep (hl : Retains a a') (hkind : ∀ op, (a'.op op).kind = (a.op op).kind ∨
    (a.op op).kind.sole? = none ∧ (a'.op op).kind.sole? = none) : a'.Joins := by
  have hsame {op : OpId} {r : OperandId} (hr : (a'.op op).kind.sole? = some r) :
      (a'.op op).kind = (a.op op).kind :=
    (hkind op).resolve_right fun hnone => nomatch hnone.2.symm.trans hr
  refine ⟨fun {op op' r} hr hr' => ?_, fun {op r} hr hj => ?_, fun {op r} hr => ?_,
    fun {op vars r name} hphi hname v hv => ?_⟩
  · rw [hsame hr] at hr
    rw [hsame hr'] at hr'
    exact h.sole hr hr'
  · have hk := hsame hr
    rw [hk] at hr hj
    exact hl.nameless (h.plain hr hj)
  · rw [hsame (OpKind.sole?_of_joined? hr)] at hr
    exact (h.rooted hr).imp hl.nameless fun ⟨name, hname⟩ => ⟨name, hl.nameOf? hname⟩
  · rw [hsame (r := r) (by rw [hphi]; rfl)] at hphi
    have hj : (a.op op).kind.joined? = some r := by rw [hphi]; rfl
    rw [h.nameOf?_eq hl hj] at hname
    exact hl.nameOf? (h.alike hphi hname v hv)

end Joins

/-- An operation that can be made. -/
structure Suits (a : Arena) (kind : OpKind) : Prop where
  fresh {r : OperandId} : kind.sole? = some r → ∀ op, (a.op op).kind.sole? ≠ some r
  plain {r : OperandId} : kind.sole? = some r → kind.joined? = none → a.Nameless r
  rooted {r : OperandId} : kind.joined? = some r → a.Nameless r ∨ ∃ name, a.nameOf? r = some name
  alike {vars : List OperandId} {r : OperandId} {name : String} :
    kind = .phi vars r → a.nameOf? r = some name → ∀ v ∈ vars, a.nameOf? v = some name

theorem Suits.of_sole? {kind : OpKind} (hkind : kind.sole? = none) : a.Suits kind where
  fresh hr := by cases hkind.symm.trans hr
  plain hr := by cases hkind.symm.trans hr
  rooted hr := by cases (OpKind.joined?_of_sole? hkind).symm.trans hr
  alike := by
    rintro vars r name rfl
    cases hkind

/-- A new operand without a name may be the result of every operation. -/
theorem Suits.of_nameless {kind : OpKind} {r : OperandId} (hkind : kind.sole? = some r)
    (hr : a.Nameless r) (hnew : ∀ op, (a.op op).kind.sole? ≠ some r) :
    a.Suits kind where
  fresh {r'} hr' := by
    obtain rfl : r = r' := Option.some.inj (hkind.symm.trans hr')
    exact hnew
  plain {r'} hr' _ := by
    obtain rfl : r = r' := Option.some.inj (hkind.symm.trans hr')
    exact hr
  rooted {r'} hr' := by
    obtain rfl : r = r' := Option.some.inj (hkind.symm.trans (OpKind.sole?_of_joined? hr'))
    exact .inl hr
  alike := by
    rintro vars r' name rfl hname
    obtain rfl : r = r' := Option.some.inj (hkind.symm.trans rfl)
    cases hr.nameOf?_eq.symm.trans hname

theorem later_addOp (a : Arena) (kind : OpKind) (span : Span) : Later a (a.addOp kind span).2 where
  operands := Nat.le_of_eq (size_foldl_recordSlot ..).symm
  ops := Nat.le_of_lt (Nat.lt_of_lt_of_eq (Nat.lt_succ_self _) (Array.size_push ..).symm)
  blocks := Nat.le_refl _
  funcs := Nat.le_refl _
  bare id _ := by rw [kind_operand_addOp]
  joined op hop := by rw [op_addOp, if_neg (Nat.ne_of_lt hop)]
  owner _ _ := rfl
  entry _ _ := rfl

/-- An operation is made. -/
theorem Joins.addOp (h : a.Joins) {kind : OpKind} (hkind : a.Suits kind) (span : Span) :
    (a.addOp kind span).2.Joins := by
  have hl := later_addOp a kind span
  have hop (op : OpId) : ((a.addOp kind span).2.op op).kind =
      if op.index = a.ops.size then kind else (a.op op).kind := by
    rw [op_addOp]
    split <;> rfl
  refine ⟨?_, ?_, ?_, ?_⟩
  · intro op op' r hr hr'
    rw [hop] at hr hr'
    split at hr <;> split at hr'
    · exact OpId.ext_iff'.1 (Eq.trans ‹op.index = _› (Eq.symm ‹_›))
    · exact absurd hr' (hkind.fresh hr op')
    · exact absurd hr (hkind.fresh hr' op)
    · exact h.sole hr hr'
  · intro op r hr hj
    rw [hop] at hr hj
    split at hr
    · rw [if_pos ‹_›] at hj
      exact hl.nameless (hkind.plain hr hj)
    · rw [if_neg ‹_›] at hj
      exact hl.nameless (h.plain hr hj)
  · intro op r hr
    rw [hop] at hr
    have hrooted : a.Nameless r ∨ ∃ name, a.nameOf? r = some name := by
      split at hr
      · exact hkind.rooted hr
      · exact h.rooted hr
    exact hrooted.imp hl.nameless fun ⟨name, hname⟩ => ⟨name, hl.nameOf? hname⟩
  · intro op vars r name hphi hname v hv
    rw [hop] at hphi
    split at hphi
    · have hsame : (a.addOp kind span).2.nameOf? r = a.nameOf? r := by
        rcases hkind.rooted (r := r) (by rw [hphi]; rfl) with hr | ⟨n, hn⟩
        · rw [hr.nameOf?_eq, (hl.nameless hr).nameOf?_eq]
        · rw [hn, hl.nameOf? hn]
      exact hl.nameOf? (hkind.alike hphi (hsame.symm.trans hname) v hv)
    · have hj : (a.op op).kind.joined? = some r := by rw [hphi]; rfl
      rw [h.nameOf?_eq hl.toRetains hj] at hname
      exact hl.nameOf? (h.alike hphi hname v hv)

theorem op_addPhiOperand (a : Arena) (phi op : OpId) (id : OperandId) :
    ((a.addPhiOperand phi id).op op).kind = match (a.op op).kind with
      | .phi vars r => if op = phi then .phi (vars ++ [id]) r else .phi vars r
      | kind => kind := by
  by_cases heq : op = phi
  · subst heq
    unfold addPhiOperand
    cases hkind : (a.op op).kind with
    | phi vars r =>
      have hlt : op.index < a.ops.size := Nat.lt_of_not_le fun hle => by
        rw [op_of_le a hle] at hkind
        cases hkind
      dsimp only
      rw [op_modifyOperand, op_modifyOp_of_lt hlt, if_pos rfl, if_pos rfl]
    | _ => exact hkind
  · have hsame : (a.addPhiOperand phi id).op op = a.op op := by
      unfold addPhiOperand
      split
      · rw [op_modifyOperand, op_modifyOp, if_neg fun hc => heq hc.1.symm]
      · rfl
    rw [hsame]
    split
    · rw [if_neg heq]
      assumption
    · rfl

theorem joined?_addPhiOperand (a : Arena) (phi op : OpId) (id : OperandId) :
    ((a.addPhiOperand phi id).op op).kind.joined? = (a.op op).kind.joined? := by
  rw [op_addPhiOperand]
  split
  · rename_i hkind
    rw [hkind]
    split <;> rfl
  · rfl

theorem sole?_addPhiOperand (a : Arena) (phi op : OpId) (id : OperandId) :
    ((a.addPhiOperand phi id).op op).kind.sole? = (a.op op).kind.sole? := by
  rw [op_addPhiOperand]
  split
  · rename_i hkind
    rw [hkind]
    split <;> rfl
  · rfl

theorem later_addPhiOperand (a : Arena) (phi : OpId) (id : OperandId) :
    Later a (a.addPhiOperand phi id) where
  operands := by
    unfold addPhiOperand
    split <;> simp
  ops := by
    unfold addPhiOperand
    split <;> simp
  blocks := by
    unfold addPhiOperand
    split <;> simp
  funcs := by
    unfold addPhiOperand
    split <;> exact Nat.le_refl _
  bare x _ := by
    unfold addPhiOperand
    split
    · exact operand_modifyOperand_keep _ (fun o : Operand => o.kind.bare) id x fun _ => rfl
    · rfl
  joined op _ := joined?_addPhiOperand a phi op id
  owner block _ := by
    unfold addPhiOperand
    split <;> rfl
  entry f _ := by
    unfold addPhiOperand
    split <;> rfl

/-- A φ of a variable takes one more version of it. -/
theorem Joins.addPhiOperand (h : a.Joins) {phi : OpId} {id : OperandId} {name : String}
    (hphi : a.variableOf? phi = some name) (hid : a.nameOf? id = some name) :
    (a.addPhiOperand phi id).Joins where
  sole {op op' r} hr hr' := by
    rw [sole?_addPhiOperand] at hr hr'
    exact h.sole hr hr'
  plain {op r} hr hj := by
    rw [sole?_addPhiOperand] at hr
    rw [joined?_addPhiOperand] at hj
    exact (later_addPhiOperand a phi id).nameless (h.plain hr hj)
  rooted {op r} hr := by
    rw [joined?_addPhiOperand] at hr
    have hl := later_addPhiOperand a phi id
    exact (h.rooted hr).imp hl.nameless fun ⟨n, hn⟩ => ⟨n, hl.nameOf? hn⟩
  alike {op vars r n} hkind hn v hv := by
    have hl := later_addPhiOperand a phi id
    have hj := joined?_addPhiOperand a phi op id
    rw [hkind] at hj
    rw [h.nameOf?_eq hl.toRetains hj.symm] at hn
    refine hl.nameOf? ?_
    obtain ⟨vs, hvs⟩ := OpKind.joined?_eq_some.1 hj.symm
    rw [op_addPhiOperand, hvs] at hkind
    dsimp only at hkind
    split at hkind
    · rename_i heq
      obtain ⟨rfl, -⟩ := OpKind.phi.inj hkind
      rcases List.mem_append.1 hv with hv | hv
      · exact h.alike hvs hn v hv
      · rw [List.mem_singleton.1 hv, hid, ← hphi, ← heq, variableOf?, hvs]
        exact hn
    · obtain ⟨rfl, -⟩ := OpKind.phi.inj hkind
      exact h.alike hvs hn v hv

end Arena

end QueryTaint

/-!
## Where φs stand

While files are lowered, the φs of a block are of different variables and predecessors belong to the
same function (`Arena.Laid`). Each way of changing the arena is looked at once: what leaves φs and
edges alone (`Arena.Spares`), a φ that is put into a block (`Laid.attachPhi`), a predecessor that is
recorded (`Laid.link`) and a block that is made (`Arena.Makes`).
-/

namespace QueryTaint.Arena

variable {a a' a'' : Arena}

/-! ### Blocks -/

/-- What holds of blocks while files are lowered: the φs of a block are of different variables, and
predecessors belong to the same function. -/
structure Laid (a : Arena) : Prop where
  apart (block : BlockId) : (a.block block).phis.Pairwise fun p q =>
    ∃ name, a.variableOf? q = some name ∧ a.variableOf? p ≠ some name
  placed (block : BlockId) : ∀ phi ∈ (a.block block).phis, phi.index < a.ops.size
  linked (block : BlockId) : ∀ source ∈ (a.block block).preds,
    (a.block source).func = (a.block block).func
  owned (block : BlockId) : block.index < a.blocks.size →
    ∃ f, (a.block block).func = some f ∧ f.index < a.funcs.size

namespace Laid

variable (h : a.Laid)
include h

theorem apart_later (hjoins : a.Joins) (hl : Later a a') {block : BlockId}
    (hphis : (a'.block block).phis = (a.block block).phis) :
    (a'.block block).phis.Pairwise fun p q =>
      ∃ name, a'.variableOf? q = some name ∧ a'.variableOf? p ≠ some name := by
  rw [hphis]
  refine (h.apart block).imp_of_mem fun hp hq hpq => ?_
  rw [hjoins.variableOf?_eq hl (h.placed block _ hp), hjoins.variableOf?_eq hl (h.placed block _ hq)]
  exact hpq

theorem func_lt {block : BlockId} {f : FuncId} (hf : (a.block block).func = some f) :
    f.index < a.funcs.size := by
  obtain ⟨g, hg, hlt⟩ := h.owned block (lt_of_func hf)
  rw [hf] at hg
  cases hg
  exact hlt

/-- Blocks stay what they are. -/
theorem keep (hjoins : a.Joins) (hl : Later a a')
    (hphis : ∀ block, (a'.block block).phis = (a.block block).phis)
    (hpreds : ∀ block, (a'.block block).preds = (a.block block).preds)
    (hfunc : ∀ block, (a'.block block).func = (a.block block).func)
    (hblocks : a'.blocks.size = a.blocks.size) : a'.Laid where
  apart block := h.apart_later hjoins hl (hphis block)
  placed block phi hphi := by
    rw [hphis] at hphi
    exact Nat.lt_of_lt_of_le (h.placed block phi hphi) hl.ops
  linked block source hsource := by
    rw [hpreds] at hsource
    rw [hfunc, hfunc]
    exact h.linked block source hsource
  owned block hblock := by
    obtain ⟨f, hf, hlt⟩ := h.owned block (hblocks ▸ hblock)
    exact ⟨f, (hfunc block).trans hf, Nat.lt_of_lt_of_le hlt hl.funcs⟩

end Laid

/-! ### Changes that do not matter -/

/-- Operations, φs, predecessors and functions stay what they are. -/
structure Spares (a a' : Arena) : Prop where
  operands : a.operands.size ≤ a'.operands.size
  bare : ∀ id : OperandId, id.index < a.operands.size →
    (a'.operand id).kind.bare = (a.operand id).kind.bare
  ops : a'.ops.size = a.ops.size
  kind : ∀ op, (a'.op op).kind = (a.op op).kind
  blocks : a'.blocks.size = a.blocks.size
  phis : ∀ block, (a'.block block).phis = (a.block block).phis
  preds : ∀ block, (a'.block block).preds = (a.block block).preds
  func : ∀ block, (a'.block block).func = (a.block block).func
  funcs : a'.funcs.size = a.funcs.size
  entry : ∀ f, (a'.func f).entry = (a.func f).entry

namespace Spares

theorem refl (a : Arena) : Spares a a :=
  ⟨Nat.le_refl _, fun _ _ => rfl, rfl, fun _ => rfl, rfl, fun _ => rfl, fun _ => rfl, fun _ => rfl, rfl,
    fun _ => rfl⟩

theorem trans (h : Spares a a') (h' : Spares a' a'') : Spares a a'' where
  operands := Nat.le_trans h.operands h'.operands
  bare id hid := (h'.bare id (Nat.lt_of_lt_of_le hid h.operands)).trans (h.bare id hid)
  ops := h'.ops.trans h.ops
  kind op := (h'.kind op).trans (h.kind op)
  blocks := h'.blocks.trans h.blocks
  phis block := (h'.phis block).trans (h.phis block)
  preds block := (h'.preds block).trans (h.preds block)
  func block := (h'.func block).trans (h.func block)
  funcs := h'.funcs.trans h.funcs
  entry f := (h'.entry f).trans (h.entry f)

theorem later (h : Spares a a') : Later a a' where
  operands := h.operands
  ops := Nat.le_of_eq h.ops.symm
  blocks := Nat.le_of_eq h.blocks.symm
  funcs := Nat.le_of_eq h.funcs.symm
  bare := h.bare
  joined op _ := by rw [h.kind]
  owner block _ := h.func block
  entry f _ := h.entry f

theorem joins (h : Spares a a') (hjoins : a.Joins) : a'.Joins :=
  hjoins.keep h.later.toRetains fun op => .inl (h.kind op)

theorem laid (h : Spares a a') (hjoins : a.Joins) (hlaid : a.Laid) : a'.Laid :=
  hlaid.keep hjoins h.later h.phis h.preds h.func h.blocks

theorem newOperand (a : Arena) (kind : OperandKind) : Spares a (a.newOperand kind).2 :=
  { Spares.refl a with
    operands := Nat.le_of_lt (Nat.lt_of_lt_of_eq (Nat.lt_succ_self _) (Array.size_push ..).symm)
    bare := fun id hid => by rw [operand_newOperand, if_neg (Nat.ne_of_lt hid)] }

theorem modifyOperand (a : Arena) (id : OperandId) {f : Operand → Operand}
    (hf : ∀ o, (f o).kind.bare = o.kind.bare) : Spares a (a.modifyOperand id f) :=
  { Spares.refl a with
    operands := Nat.le_of_eq (size_operands_modifyOperand ..).symm
    bare := fun x _ => operand_modifyOperand_keep a (fun o : Operand => o.kind.bare) id x hf }

theorem modifyBlock (a : Arena) (id : BlockId) {f : Block → Block}
    (hphis : ∀ b, (f b).phis = b.phis) (hpreds : ∀ b, (f b).preds = b.preds)
    (hfunc : ∀ b, (f b).func = b.func) : Spares a (a.modifyBlock id f) :=
  { Spares.refl a with
    blocks := size_blocks_modifyBlock ..
    phis := fun b => block_modifyBlock_keep a Block.phis id b hphis
    preds := fun b => block_modifyBlock_keep a Block.preds id b hpreds
    func := fun b => block_modifyBlock_keep a Block.func id b hfunc }

theorem modifyFunc (a : Arena) (id : FuncId) {f : Func → Func} (hf : ∀ r, (f r).entry = r.entry) :
    Spares a (a.modifyFunc id f) :=
  { Spares.refl a with
    funcs := Array.size_modify ..
    entry := fun g => by
      rw [func_modifyFunc]
      split
      · exact hf _
      · rfl }

theorem modifyOp (a : Arena) (id : OpId) {f : Op → Op} (hf : ∀ o, (f o).kind = o.kind) :
    Spares a (a.modifyOp id f) :=
  { Spares.refl a with
    ops := size_ops_modifyOp ..
    kind := fun o => op_modifyOp_keep a Op.kind id o hf }

theorem append (a : Arena) (block : BlockId) (op : OpId) : Spares a (a.append block op) := by
  refine Spares.trans (modifyBlock a block ?_ ?_ ?_) (modifyOp _ op ?_) <;> exact fun _ => rfl

theorem addGuard (a : Arena) (block : BlockId) (cond : OperandId) :
    Spares a (a.addGuard block cond) := by
  refine Spares.trans (modifyBlock a block ?_ ?_ ?_) (modifyOperand _ cond ?_) <;> exact fun _ => rfl

end Spares

/-! ### Placing φs, edges and blocks -/

theorem kind_attachPhi (a : Arena) (block : BlockId) (phi op : OpId) :
    ((a.attachPhi block phi).op op).kind = (a.op op).kind :=
  op_modifyOp_keep _ Op.kind _ _ fun _ => rfl

theorem phis_attachPhi (a : Arena) (block : BlockId) (phi : OpId) (other : BlockId) :
    ((a.attachPhi block phi).block other).phis =
      if block = other ∧ other.index < a.blocks.size then addNew (a.block other).phis phi
      else (a.block other).phis := by
  rw [attachPhi, block_modifyOp, block_modifyBlock]
  split <;> rfl

theorem later_attachPhi (a : Arena) (block : BlockId) (phi : OpId) :
    Later a (a.attachPhi block phi) where
  operands := Nat.le_refl _
  ops := Nat.le_of_eq (size_ops_modifyOp ..).symm
  blocks := Nat.le_of_eq (size_blocks_modifyBlock ..).symm
  funcs := Nat.le_refl _
  bare _ _ := rfl
  joined op _ := by rw [kind_attachPhi]
  owner other _ := block_modifyBlock_keep a Block.func block other fun _ => rfl
  entry _ _ := rfl

theorem Joins.attachPhi (h : a.Joins) (block : BlockId) (phi : OpId) :
    (a.attachPhi block phi).Joins :=
  h.keep (later_attachPhi a block phi).toRetains fun op => .inl (kind_attachPhi a block phi op)

/-- A φ is put into a block without φs, or a φ of a variable into a block without φs of it. -/
theorem Laid.attachPhi (h : a.Laid) (hjoins : a.Joins) {block : BlockId} {phi : OpId}
    (hphi : phi.index < a.ops.size)
    (happart : (a.block block).phis = [] ∨ ∃ name, a.variableOf? phi = some name ∧
      ∀ p ∈ (a.block block).phis, a.variableOf? p ≠ some name) : (a.attachPhi block phi).Laid := by
  have hl := later_attachPhi a block phi
  have hfunc (other : BlockId) :
      ((a.attachPhi block phi).block other).func = (a.block other).func :=
    block_modifyBlock_keep a Block.func block other fun _ => rfl
  have hpreds (other : BlockId) :
      ((a.attachPhi block phi).block other).preds = (a.block other).preds :=
    block_modifyBlock_keep a Block.preds block other fun _ => rfl
  refine ⟨fun other => ?_, fun other p hp => ?_, fun other source hsource => ?_, fun other hother => ?_⟩
  · have hphis := phis_attachPhi a block phi other
    by_cases hsame : block = other ∧ other.index < a.blocks.size ∧ phi ∉ (a.block other).phis
    · obtain ⟨rfl, hlt, hnew⟩ := hsame
      rw [if_pos ⟨rfl, hlt⟩, addNew, if_neg hnew] at hphis
      rw [hphis]
      refine List.pairwise_append.2 ⟨?_, List.pairwise_singleton _ _, ?_⟩
      · refine (h.apart block).imp_of_mem fun hp hq hpq => ?_
        rw [hjoins.variableOf?_eq hl (h.placed block _ hp),
          hjoins.variableOf?_eq hl (h.placed block _ hq)]
        exact hpq
      · intro p hp q hq
        rw [List.mem_singleton.1 hq, hjoins.variableOf?_eq hl hphi,
          hjoins.variableOf?_eq hl (h.placed block p hp)]
        rcases happart with hnil | ⟨name, hname, hothers⟩
        · rw [hnil] at hp
          cases hp
        · exact ⟨name, hname, hothers p hp⟩
    · refine h.apart_later hjoins hl (hphis.trans ?_)
      split
      · rename_i hc
        have hmem : phi ∈ (a.block other).phis := by
          by_contra hnew
          exact hsame ⟨hc.1, hc.2, hnew⟩
        exact addNew_of_mem hmem
      · rfl
  · refine Nat.lt_of_lt_of_le ?_ hl.ops
    rw [phis_attachPhi] at hp
    split at hp
    · rcases mem_addNew.1 hp with hp | rfl
      · exact h.placed other p hp
      · exact hphi
    · exact h.placed other p hp
  · rw [hpreds] at hsource
    rw [hfunc, hfunc]
    exact h.linked other source hsource
  · rw [hfunc]
    exact h.owned other (Nat.lt_of_lt_of_eq hother (size_blocks_modifyBlock ..))

theorem later_link (a : Arena) (source target : BlockId) : Later a (a.link source target) where
  operands := Nat.le_refl _
  ops := Nat.le_refl _
  blocks := Nat.le_of_eq (size_blocks_modifyBlock ..).symm
  funcs := Nat.le_refl _
  bare _ _ := rfl
  joined _ _ := rfl
  owner other _ := block_modifyBlock_keep a Block.func target other fun _ => rfl
  entry _ _ := rfl

theorem phis_link (a : Arena) (source target other : BlockId) :
    ((a.link source target).block other).phis = (a.block other).phis :=
  block_modifyBlock_keep a Block.phis target other fun _ => rfl

theorem Joins.link (h : a.Joins) (source target : BlockId) : (a.link source target).Joins :=
  h.keep (later_link a source target).toRetains fun _ => .inl rfl

/-- A predecessor of the same function is recorded. -/
theorem Laid.link (h : a.Laid) (hjoins : a.Joins) {source target : BlockId}
    (hsame : (a.block source).func = (a.block target).func) : (a.link source target).Laid := by
  have hl := later_link a source target
  have hfunc (other : BlockId) :
      ((a.link source target).block other).func = (a.block other).func :=
    block_modifyBlock_keep a Block.func target other fun _ => rfl
  refine ⟨fun other => h.apart_later hjoins hl (phis_link ..), fun other p hp => ?_,
    fun other s hs => ?_, fun other hother => ?_⟩
  · rw [phis_link] at hp
    exact h.placed other p hp
  · rw [hfunc, hfunc]
    rw [Arena.link, block_modifyBlock] at hs
    split at hs
    · rename_i hc
      rcases mem_addNew.1 hs with hs | rfl
      · exact h.linked other s hs
      · rw [hsame, hc.1]
    · exact h.linked other s hs
  · rw [hfunc]
    exact h.owned other (Nat.lt_of_lt_of_eq hother (size_blocks_modifyBlock ..))

/-- A block is made, which belongs to a function. -/
structure Makes (a a' : Arena) (block : BlockId) (f : FuncId) : Prop where
  later : Later a a'
  kind : ∀ op, (a'.op op).kind = (a.op op).kind
  new : block.index = a.blocks.size
  size : a'.blocks.size = a.blocks.size + 1
  block : ∀ other, a'.block other =
    if other.index = a.blocks.size then { func := some f } else a.block other
  func : f.index < a'.funcs.size

namespace Makes

variable {block : BlockId} {f : FuncId}

theorem newBlock (a : Arena) {f : FuncId} (hf : f.index < a.funcs.size) :
    Makes a (a.newBlock (some f)).2 ⟨a.blocks.size⟩ f := by
  have hblock := Lower.block_newBlock a f
  have hfuncs : (a.newBlock (some f)).2.funcs.size = a.funcs.size := Array.size_modify ..
  have hsize : (a.newBlock (some f)).2.blocks.size = a.blocks.size + 1 := Array.size_push ..
  refine ⟨⟨⟨Nat.le_refl _, fun _ _ => rfl⟩, Nat.le_refl _, ?_, Nat.le_of_eq hfuncs.symm,
    fun _ _ => rfl, ?_, ?_⟩, fun _ => rfl, rfl, hsize, hblock, hfuncs ▸ hf⟩
  · rw [hsize]
    exact Nat.le_succ _
  · intro other hother
    rw [hblock, if_neg (Nat.ne_of_lt hother)]
  · exact fun g _ => (Spares.modifyFunc { a with blocks := a.blocks.push { func := some f } } f
      (f := fun r => { r with blocks := r.blocks ++ [⟨a.blocks.size⟩] }) fun _ => rfl).entry g

theorem newFunc (a : Arena) (name : String) :
    Makes a (a.newFunc name).2 ⟨a.blocks.size⟩ ⟨a.funcs.size⟩ := by
  have hblock (other : BlockId) : (a.newFunc name).2.block other =
      if other.index = a.blocks.size then { func := some ⟨a.funcs.size⟩ } else a.block other :=
    block_push a _ other
  have hfuncs : (a.newFunc name).2.funcs.size = a.funcs.size + 1 := Array.size_push ..
  have hsize : (a.newFunc name).2.blocks.size = a.blocks.size + 1 := Array.size_push ..
  refine ⟨⟨⟨Nat.le_refl _, fun _ _ => rfl⟩, Nat.le_refl _, ?_, ?_, fun _ _ => rfl, ?_, ?_⟩,
    fun _ => rfl, rfl, hsize, hblock, hfuncs ▸ Nat.lt_succ_self _⟩
  · rw [hsize]
    exact Nat.le_succ _
  · rw [hfuncs]
    exact Nat.le_succ _
  · intro other hother
    rw [hblock, if_neg (Nat.ne_of_lt hother)]
  · intro g hg
    rw [func_newFunc, if_neg (Nat.ne_of_lt hg)]

theorem joins (h : Makes a a' block f) (hjoins : a.Joins) : a'.Joins :=
  hjoins.keep h.later.toRetains fun op => .inl (h.kind op)

theorem self (h : Makes a a' block f) : a'.block block = { func := some f } := by
  rw [h.block, if_pos h.new]

theorem lt (h : Makes a a' block f) : block.index < a'.blocks.size := by
  rw [h.size, h.new]
  exact Nat.lt_succ_self _

theorem phis (h : Makes a a' block f) (other : BlockId) :
    (a'.block other).phis = (a.block other).phis := by
  rw [h.block]
  split
  · rename_i hnew
    rw [block_of_le a (Nat.le_of_eq hnew.symm)]
    rfl
  · rfl

theorem laid (h : Makes a a' block f) (hjoins : a.Joins) (hlaid : a.Laid) : a'.Laid where
  apart other := hlaid.apart_later hjoins h.later (h.phis other)
  placed other p hp := by
    rw [h.phis] at hp
    exact Nat.lt_of_lt_of_le (hlaid.placed other p hp) h.later.ops
  linked other source hsource := by
    rw [h.block] at hsource
    split at hsource
    · cases hsource
    · rename_i hne
      have hsame := hlaid.linked other source hsource
      have hlt : other.index < a.blocks.size := Nat.lt_of_not_le fun hle => by
        rw [block_of_le a hle] at hsource
        cases hsource
      obtain ⟨g, hg, -⟩ := hlaid.owned other hlt
      rw [h.later.func hg, h.later.func (hsame.trans hg)]
  owned other hother := by
    rcases Nat.lt_or_ge other.index a.blocks.size with hlt | hge
    · obtain ⟨g, hg, hlt'⟩ := hlaid.owned other hlt
      exact ⟨g, h.later.func hg, Nat.lt_of_lt_of_le hlt' h.later.funcs⟩
    · have hnew : other.index = a.blocks.size :=
        Nat.le_antisymm (Nat.le_of_lt_succ (Nat.lt_of_lt_of_eq hother h.size)) hge
      refine ⟨f, ?_, h.func⟩
      rw [h.block, if_pos hnew]

end Makes

end QueryTaint.Arena
