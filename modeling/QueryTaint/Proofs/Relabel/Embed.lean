import QueryTaint.Proofs.Relabel.Basic

/-!
# Arenas inside arenas

One arena is embedded in another one if the other one holds its entries under new numbers. What else
the other one holds is as it was in a third one, the host, and new entries of both get matching
numbers as long as the first one does not outgrow a limit (`Graft`, `Embeds`). Whatever makes or
changes entries of the first arena, and the same entries of the other one in the same way, keeps it
embedded.
-/

namespace QueryTaint

/-! ## Tables -/

/-- A table holds the entries of another one under new numbers and with new contents. Elsewhere it is
like the host. New entries of both have matching numbers up to a limit. -/
structure Inlaid {τ : Type} (r : Nat → Nat) (f : τ → τ) (host xs ys : Array τ) (limit : Nat) :
    Prop where
  inside (i : Nat) : ys[r i]? = xs[i]?.map f
  outside (j : Nat) : (∀ i, r i ≠ j) → ys[j]? = host[j]?
  next (k : Nat) : xs.size + k < limit → r (xs.size + k) = ys.size + k

namespace Inlaid

variable {τ : Type} {r : Nat → Nat} {f : τ → τ} {host xs ys : Array τ} {limit : Nat}

theorem getD (h : Inlaid r f host xs ys limit) {d : τ} (hd : f d = d) (i : Nat) :
    ys.getD (r i) d = f (xs.getD i d) := by
  rw [Array.getD_eq_getD_getElem?, Array.getD_eq_getD_getElem?, h.inside]
  cases xs[i]? with
  | none => exact hd.symm
  | some x => rfl

theorem size_lt (h : Inlaid r f host xs ys limit) {i : Nat} : r i < ys.size ↔ i < xs.size := by
  have hnone : ys[r i]? = none ↔ xs[i]? = none := by rw [h.inside, Option.map_eq_none_iff]
  rw [Array.getElem?_eq_none_iff, Array.getElem?_eq_none_iff] at hnone
  omega

theorem modify (h : Inlaid r f host xs ys limit) (hr : r.Injective) (i : Nat) {e e' : τ → τ}
    (he : ∀ x, e' (f x) = f (e x)) :
    Inlaid r f host (xs.modify i e) (ys.modify (r i) e') limit where
  inside j := by
    rw [Array.getElem?_modify, Array.getElem?_modify, h.inside]
    by_cases hij : i = j
    · subst hij
      rw [if_pos rfl, if_pos rfl]
      cases xs[i]? <;> simp [he]
    · rw [if_neg hij, if_neg fun heq => hij (hr heq)]
  outside j hj := by
    rw [Array.getElem?_modify, if_neg (hj i)]
    exact h.outside j hj
  next k hk := by
    rw [Array.size_modify] at hk ⊢
    rw [h.next k hk, Array.size_modify]

theorem push (h : Inlaid r f host xs ys limit) (hr : r.Injective) (hlt : xs.size < limit) (x : τ) :
    r xs.size = ys.size ∧ Inlaid r f host (xs.push x) (ys.push (f x)) limit := by
  have hsize : r xs.size = ys.size := h.next 0 hlt
  refine ⟨hsize, fun j => ?_, fun j hj => ?_, fun k hk => ?_⟩
  · rw [Array.getElem?_push, Array.getElem?_push, h.inside]
    by_cases hj : j = xs.size
    · rw [if_pos hj, if_pos (by rw [hj, hsize])]
      rfl
    · rw [if_neg hj, if_neg fun heq => hj (hr (heq.trans hsize.symm))]
  · rw [Array.getElem?_push, if_neg fun heq => hj xs.size (hsize.trans heq.symm)]
    exact h.outside j hj
  · rw [Array.size_push] at hk ⊢
    rw [Array.size_push]
    have hk' := h.next (k + 1) (by omega)
    rw [← Nat.add_assoc, Nat.add_right_comm] at hk'
    omega

/-- Changing entries one after the other. -/
theorem foldl {α : Type} (h : Inlaid r f host xs ys limit) {step step' : Array τ → α → Array τ}
    (hstep : ∀ xs ys x, Inlaid r f host xs ys limit → Inlaid r f host (step xs x) (step' ys x) limit)
    (l : List α) : Inlaid r f host (l.foldl step xs) (l.foldl step' ys) limit := by
  induction l generalizing xs ys with
  | nil => exact h
  | cons x l ih => exact ih (hstep xs ys x h)

end Inlaid

/-- How an arena is embedded in another one: the new numbers of its entries, what the other one holds
elsewhere, and what the first one does not outgrow. -/
structure Graft extends Relabel where
  host : Arena
  limit : Arena

namespace Arena

/-- No table is longer. -/
structure Below (a b : Arena) : Prop where
  operands : a.operands.size ≤ b.operands.size
  ops : a.ops.size ≤ b.ops.size
  blocks : a.blocks.size ≤ b.blocks.size
  funcs : a.funcs.size ≤ b.funcs.size

theorem Below.refl (a : Arena) : a.Below a := ⟨Nat.le_refl _, Nat.le_refl _, Nat.le_refl _, Nat.le_refl _⟩

theorem Below.trans {a b c : Arena} (h : a.Below b) (h' : b.Below c) : a.Below c :=
  ⟨Nat.le_trans h.operands h'.operands, Nat.le_trans h.ops h'.ops,
    Nat.le_trans h.blocks h'.blocks, Nat.le_trans h.funcs h'.funcs⟩

/-- An arena is embedded in another one. -/
structure Embeds (g : Graft) (a b : Arena) : Prop where
  operands : Inlaid g.operands (Operand.relabel g.toRelabel) g.host.operands a.operands b.operands
    g.limit.operands.size
  ops : Inlaid g.ops (Op.relabel g.toRelabel) g.host.ops a.ops b.ops g.limit.ops.size
  blocks : Inlaid g.blocks (Block.relabel g.toRelabel) g.host.blocks a.blocks b.blocks
    g.limit.blocks.size
  funcs : Inlaid g.funcs (Func.relabel g.toRelabel) g.host.funcs a.funcs b.funcs g.limit.funcs.size

namespace Embeds

variable {g : Graft} {a b : Arena}

/-! ## Access -/

@[simp] theorem operand (h : Embeds g a b) (x : OperandId) :
    b.operand (g.operand x) = (a.operand x).relabel g.toRelabel :=
  h.operands.getD (Operand.relabel_default _) x.index

@[simp] theorem op (h : Embeds g a b) (x : OpId) : b.op (g.op x) = (a.op x).relabel g.toRelabel :=
  h.ops.getD (Op.relabel_default _) x.index

@[simp] theorem block (h : Embeds g a b) (x : BlockId) :
    b.block (g.block x) = (a.block x).relabel g.toRelabel :=
  h.blocks.getD (Block.relabel_default _) x.index

theorem func (h : Embeds g a b) {f : FuncId} (hf : f.index < a.funcs.size) :
    b.func (g.func f) = (a.func f).relabel g.toRelabel := by
  have hf' := h.funcs.inside f.index
  rw [Array.getElem?_eq_getElem hf] at hf'
  simp [Arena.func, Array.getD_eq_getD_getElem?, hf', hf]

/-- Of a function that was never made only the entry may differ. -/
theorem exists_func (h : Embeds g a b) (f : FuncId) :
    ∃ entry, b.func (g.func f) = { (a.func f).relabel g.toRelabel with entry } := by
  rcases Nat.lt_or_ge f.index a.funcs.size with hf | hf
  · exact ⟨_, h.func hf⟩
  · have hf' := h.funcs.inside f.index
    rw [Array.getElem?_eq_none hf] at hf'
    exact ⟨default, by simp [Arena.func, Array.getD_eq_getD_getElem?, hf', hf, Func.relabel]; rfl⟩

theorem blocks_func (h : Embeds g a b) (f : FuncId) :
    (b.func (g.func f)).blocks = (a.func f).blocks.map g.block := by
  obtain ⟨entry, hf⟩ := h.exists_func f
  rw [hf]
  rfl

theorem cls_func (h : Embeds g a b) (f : FuncId) : (b.func (g.func f)).cls = (a.func f).cls := by
  obtain ⟨entry, hf⟩ := h.exists_func f
  rw [hf]
  rfl

theorem scopedName_func (h : Embeds g a b) (f : FuncId) :
    (b.func (g.func f)).scopedName = (a.func f).scopedName := by
  obtain ⟨entry, hf⟩ := h.exists_func f
  rw [hf]
  rfl

theorem stringOf? (h : Embeds g a b) (x : OperandId) :
    b.stringOf? (g.operand x) = a.stringOf? x := by
  rw [Arena.stringOf?, h.operand]
  exact OperandKind.string?_relabel ..

theorem nameWithin? (h : Embeds g a b) (steps : Nat) (x : OperandId) :
    b.nameWithin? steps (g.operand x) = a.nameWithin? steps x := by
  induction steps generalizing x with
  | zero => rfl
  | succ steps ih =>
    rw [Arena.nameWithin?, Arena.nameWithin?, h.operand, Operand.relabel]
    cases (a.operand x).kind with
    | «variable» name => exact h.stringOf? name
    | bound name => exact h.stringOf? name
    | temporary owner =>
      cases owner with
      | none => rfl
      | some owner => exact ih owner
    | _ => rfl

theorem nameOf? (h : Embeds g a b) (x : OperandId) : b.nameOf? (g.operand x) = a.nameOf? x :=
  h.nameWithin? _ x

theorem linkOf? (h : Embeds g a b) (x : OperandId) :
    b.linkOf? (g.operand x) = (a.linkOf? x).map g.operand := by
  rw [Arena.linkOf?, Arena.linkOf?, h.operand, Operand.relabel]
  cases (a.operand x).kind <;> rfl

theorem valueOf (h : Embeds g a b) (x : OperandId) :
    b.valueOf (g.operand x) = g.operand (a.valueOf x) := by
  have hwithin : ∀ steps x, b.valueWithin steps (g.operand x) = g.operand (a.valueWithin steps x) := by
    intro steps
    induction steps with
    | zero => exact fun _ => rfl
    | succ steps ih =>
      intro x
      rw [Arena.valueWithin, Arena.valueWithin, h.linkOf?]
      cases a.linkOf? x with
      | none => rfl
      | some next => exact ih next
  exact hwithin _ x

theorem literalOf? (h : Embeds g a b) (x : OperandId) :
    b.literalOf? (g.operand x) = a.literalOf? x := by
  rw [Arena.literalOf?, h.valueOf, h.operand]
  exact OperandKind.scalar?_relabel ..

theorem isSymbolic (h : Embeds g a b) (x : OperandId) :
    b.isSymbolic (g.operand x) = a.isSymbolic x := by
  rw [Arena.isSymbolic, Arena.isSymbolic, h.valueOf, h.operand, Operand.relabel]
  cases (a.operand (a.valueOf x)).kind <;> rfl

theorem terminator? (h : Embeds g a b) (block : BlockId) :
    b.terminator? (g.block block) = (a.terminator? block).map g.op := by
  rw [Arena.terminator?, Arena.terminator?, h.block, Block.relabel, List.getLast?_map,
    Option.filter_map]
  refine congrArg (Option.map g.op) (congrArg (Option.filter · _) (funext fun op => ?_))
  rw [Function.comp_apply, h.op]
  exact OpKind.isTerminator_relabel ..

theorem livePreds (h : Embeds g a b) (block : BlockId) :
    b.livePreds (g.block block) = (a.livePreds block).map g.block := by
  rw [Arena.livePreds, Arena.livePreds, h.block, Block.relabel, List.filter_map]
  refine congrArg (List.map g.block) (List.filter_congr fun pred _ => ?_)
  rw [Function.comp_apply, h.block]
  rfl

/-! ## Changes -/

theorem modifyOperand (h : Embeds g a b) (x : OperandId) {f f' : Operand → Operand}
    (hf : ∀ o, f' (o.relabel g.toRelabel) = (f o).relabel g.toRelabel) :
    Embeds g (a.modifyOperand x f) (b.modifyOperand (g.operand x) f') :=
  { h with operands := h.operands.modify g.operands_mono.injective x.index hf }

theorem modifyOp (h : Embeds g a b) (x : OpId) {f f' : Op → Op}
    (hf : ∀ o, f' (o.relabel g.toRelabel) = (f o).relabel g.toRelabel) :
    Embeds g (a.modifyOp x f) (b.modifyOp (g.op x) f') :=
  { h with ops := h.ops.modify g.ops_mono.injective x.index hf }

theorem modifyBlock (h : Embeds g a b) (x : BlockId) {f f' : Block → Block}
    (hf : ∀ o, f' (o.relabel g.toRelabel) = (f o).relabel g.toRelabel) :
    Embeds g (a.modifyBlock x f) (b.modifyBlock (g.block x) f') :=
  { h with blocks := h.blocks.modify g.blocks_mono.injective x.index hf }

theorem modifyFunc (h : Embeds g a b) (x : FuncId) {f f' : Func → Func}
    (hf : ∀ o, f' (o.relabel g.toRelabel) = (f o).relabel g.toRelabel) :
    Embeds g (a.modifyFunc x f) (b.modifyFunc (g.func x) f') :=
  { h with funcs := h.funcs.modify g.funcs_mono.injective x.index hf }

/-! ## New entries -/

theorem newOperand (h : Embeds g a b) (kind : OperandKind)
    (hlimit : (a.newOperand kind).2.Below g.limit) :
    (b.newOperand (kind.relabel g.toRelabel)).1 = g.operand (a.newOperand kind).1 ∧
      Embeds g (a.newOperand kind).2 (b.newOperand (kind.relabel g.toRelabel)).2 := by
  have hlt : a.operands.size < g.limit.operands.size := by
    have hsize := hlimit.operands
    rw [Arena.newOperand, Array.size_push] at hsize
    exact hsize
  obtain ⟨hnew, hpush⟩ := h.operands.push g.operands_mono.injective hlt { kind }
  exact ⟨OperandId.ext_iff'.1 hnew.symm, { h with operands := hpush }⟩

theorem newBlock (h : Embeds g a b) (func : Option FuncId)
    (hlimit : (a.newBlock func).2.Below g.limit) :
    (b.newBlock (func.map g.func)).1 = g.block (a.newBlock func).1 ∧
      Embeds g (a.newBlock func).2 (b.newBlock (func.map g.func)).2 := by
  have hlt : a.blocks.size < g.limit.blocks.size := by
    have hsize := hlimit.blocks
    cases func <;> simpa [Arena.newBlock, Arena.modifyFunc, Nat.succ_le_iff] using hsize
  obtain ⟨hnew, hpush⟩ := h.blocks.push g.blocks_mono.injective hlt { func }
  have hblock : (⟨b.blocks.size⟩ : BlockId) = g.block ⟨a.blocks.size⟩ := BlockId.ext_iff'.1 hnew.symm
  have hpushed : Embeds g { a with blocks := a.blocks.push { func } }
      { b with blocks := b.blocks.push { func := func.map g.func } } := { h with blocks := hpush }
  cases func with
  | none => exact ⟨hblock, hpushed⟩
  | some f =>
    refine ⟨hblock, hpushed.modifyFunc f fun r => ?_⟩
    simp [Func.relabel, hblock]

theorem newFunc (h : Embeds g a b) (name : String) (hlimit : (a.newFunc name).2.Below g.limit) :
    (b.newFunc name).1 = g.func (a.newFunc name).1 ∧
      Embeds g (a.newFunc name).2 (b.newFunc name).2 := by
  have hltBlock : a.blocks.size < g.limit.blocks.size := by
    simpa [Arena.newFunc, Nat.succ_le_iff] using hlimit.blocks
  have hltFunc : a.funcs.size < g.limit.funcs.size := by
    simpa [Arena.newFunc, Nat.succ_le_iff] using hlimit.funcs
  obtain ⟨hnewBlock, hblocks⟩ :=
    h.blocks.push g.blocks_mono.injective hltBlock { func := some ⟨a.funcs.size⟩ }
  obtain ⟨hnewFunc, hfuncs⟩ := h.funcs.push g.funcs_mono.injective hltFunc
    { name, entry := ⟨a.blocks.size⟩, blocks := [⟨a.blocks.size⟩] }
  have hblock : g.block ⟨a.blocks.size⟩ = (⟨b.blocks.size⟩ : BlockId) := BlockId.ext_iff'.1 hnewBlock
  have hfunc : g.func ⟨a.funcs.size⟩ = (⟨b.funcs.size⟩ : FuncId) := congrArg FuncId.mk hnewFunc
  simp only [Block.relabel, Option.map_some, List.map_nil, hfunc] at hblocks
  simp only [Func.relabel, Option.map_none, List.map_nil, List.map_cons, hblock] at hfuncs
  exact ⟨hfunc.symm, { h with blocks := hblocks, funcs := hfuncs }⟩

theorem addOp (h : Embeds g a b) (kind : OpKind) (span : Span)
    (hlimit : (a.addOp kind span).2.Below g.limit) :
    (b.addOp (kind.relabel g.toRelabel) span).1 = g.op (a.addOp kind span).1 ∧
      Embeds g (a.addOp kind span).2 (b.addOp (kind.relabel g.toRelabel) span).2 := by
  have hlt : a.ops.size < g.limit.ops.size := by
    simpa [Arena.addOp, Nat.succ_le_iff] using hlimit.ops
  obtain ⟨hnew, hpush⟩ := h.ops.push g.ops_mono.injective hlt { kind, span }
  have hop : g.op ⟨a.ops.size⟩ = (⟨b.ops.size⟩ : OpId) := OpId.ext_iff'.1 hnew
  refine ⟨hop.symm, { h with ops := hpush, operands := ?_ }⟩
  rw [Arena.addOp, Arena.addOp, OpKind.slots_relabel, List.foldl_map]
  refine h.operands.foldl (fun xs ys entry hxs => ?_) kind.slots
  refine hxs.modify g.operands_mono.injective entry.2.index fun o => ?_
  rw [OpKind.writes_relabel, ← hop]
  split
  · exact Operand.addDef_relabel ..
  · exact Operand.addUsage_relabel ..

/-! ## Placing operations -/

theorem append (h : Embeds g a b) (block : BlockId) (op : OpId) :
    Embeds g (a.append block op) (b.append (g.block block) (g.op op)) :=
  (h.modifyBlock block fun r => by simp [Block.relabel]).modifyOp op fun o => by simp [Op.relabel]

theorem attachPhi (h : Embeds g a b) (block : BlockId) (phi : OpId) :
    Embeds g (a.attachPhi block phi) (b.attachPhi (g.block block) (g.op phi)) :=
  (h.modifyBlock block fun r => by simp [Block.relabel, addNew_map g.op_injective]).modifyOp phi
    fun o => by simp [Op.relabel]

theorem addPhiOperand (h : Embeds g a b) (phi : OpId) (x : OperandId) :
    Embeds g (a.addPhiOperand phi x) (b.addPhiOperand (g.op phi) (g.operand x)) := by
  rw [Arena.addPhiOperand, Arena.addPhiOperand, h.op, Op.relabel]
  cases (a.op phi).kind with
  | phi vars result =>
    refine (h.modifyOp phi fun o => ?_).modifyOperand x fun o => Operand.addUsage_relabel ..
    simp [Op.relabel, OpKind.relabel]
  | _ => exact h

theorem addGuard (h : Embeds g a b) (block : BlockId) (cond : OperandId) :
    Embeds g (a.addGuard block cond) (b.addGuard (g.block block) (g.operand cond)) :=
  (h.modifyBlock block fun r => by simp [Block.relabel, addNew_map g.operand_injective]).modifyOperand
    cond fun o => Operand.addCondUsage_relabel ..

theorem link (h : Embeds g a b) (source target : BlockId) :
    Embeds g (a.link source target) (b.link (g.block source) (g.block target)) :=
  h.modifyBlock target fun r => by simp [Block.relabel, addNew_map g.block_injective]

theorem setValue (h : Embeds g a b) (var value : OperandId) :
    Embeds g (a.setValue var value) (b.setValue (g.operand var) (g.operand value)) := by
  rw [Arena.setValue, Arena.setValue, h.operand, Operand.relabel]
  rcases (a.operand var).kind with _ | _ | _ | _ | _ | ⟨_ | owner⟩
  case temporary.some =>
    refine h.modifyOperand owner fun o => ?_
    obtain ⟨kind, _⟩ := o
    cases kind <;> rfl
  all_goals
    refine h.modifyOperand var fun o => ?_
    obtain ⟨kind, _⟩ := o
    cases kind <;> rfl

end Embeds

/-! ## Growing -/

namespace Below

variable (a : Arena)

theorem newOperand (kind : OperandKind) : a.Below (a.newOperand kind).2 :=
  ⟨by simp [Arena.newOperand], Nat.le_refl _, Nat.le_refl _, Nat.le_refl _⟩

theorem newBlock (func : Option FuncId) : a.Below (a.newBlock func).2 := by
  cases func <;>
    exact ⟨Nat.le_refl _, Nat.le_refl _, by simp [Arena.newBlock, Arena.modifyFunc],
      by simp [Arena.newBlock, Arena.modifyFunc]⟩

theorem newFunc (name : String) : a.Below (a.newFunc name).2 :=
  ⟨Nat.le_refl _, Nat.le_refl _, by simp [Arena.newFunc], by simp [Arena.newFunc]⟩

theorem modifyOperand (x : OperandId) (f : Operand → Operand) : a.Below (a.modifyOperand x f) :=
  ⟨by simp [Arena.modifyOperand], Nat.le_refl _, Nat.le_refl _, Nat.le_refl _⟩

theorem modifyOp (x : OpId) (f : Op → Op) : a.Below (a.modifyOp x f) :=
  ⟨Nat.le_refl _, by simp [Arena.modifyOp], Nat.le_refl _, Nat.le_refl _⟩

theorem modifyBlock (x : BlockId) (f : Block → Block) : a.Below (a.modifyBlock x f) :=
  ⟨Nat.le_refl _, Nat.le_refl _, by simp [Arena.modifyBlock], Nat.le_refl _⟩

theorem modifyFunc (x : FuncId) (f : Func → Func) : a.Below (a.modifyFunc x f) :=
  ⟨Nat.le_refl _, Nat.le_refl _, Nat.le_refl _, by simp [Arena.modifyFunc]⟩

theorem addOp (kind : OpKind) (span : Span) : a.Below (a.addOp kind span).2 := by
  have hsize : ∀ (slots : List (Slot × OperandId)) (operands : Array Operand),
      (slots.foldl (recordSlot kind ⟨a.ops.size⟩) operands).size = operands.size := by
    intro slots
    induction slots with
    | nil => exact fun _ => rfl
    | cons entry slots ih => exact fun operands => (ih _).trans (by simp [recordSlot])
  exact ⟨by simp [Arena.addOp, hsize], by simp [Arena.addOp], Nat.le_refl _, Nat.le_refl _⟩

theorem append (block : BlockId) (op : OpId) : a.Below (a.append block op) :=
  (modifyBlock ..).trans (modifyOp ..)

theorem attachPhi (block : BlockId) (phi : OpId) : a.Below (a.attachPhi block phi) :=
  (modifyBlock ..).trans (modifyOp ..)

theorem addPhiOperand (phi : OpId) (x : OperandId) : a.Below (a.addPhiOperand phi x) := by
  unfold Arena.addPhiOperand
  split
  · exact (modifyOp ..).trans (modifyOperand ..)
  · exact .refl a

theorem addGuard (block : BlockId) (cond : OperandId) : a.Below (a.addGuard block cond) :=
  (modifyBlock ..).trans (modifyOperand ..)

theorem link (source target : BlockId) : a.Below (a.link source target) := modifyBlock ..

theorem setValue (var value : OperandId) : a.Below (a.setValue var value) := modifyOperand ..

end Below

end Arena

end QueryTaint
