import QueryTaint.Proofs.Origin.Entry

/-!
# Entries that were added

Lowering a file adds entries to an arena that has entries of other files already. `Arena.Adjoins` says
that those from before are the same, and that those made since (`Arena.since`) mention each other only.
Every change of the arena that lowering makes keeps this if the entries that it changes or writes down
were made since.
-/

namespace QueryTaint

namespace Arena

/-- The entries of an arena that another one has not. -/
def since (a a₀ : Arena) : Set Entry := a₀.entriesᶜ ∩ a.entries

/-- An arena has further entries, which mention each other only, and the entries from before are the
same. -/
structure Adjoins (a₀ a : Arena) : Prop where
  entries : a₀.entries ⊆ a.entries
  same : ∀ e ∈ a₀.entries, a₀.Same a e
  closed : a.Closed a₀.entriesᶜ

variable {a₀ a a' : Arena}

theorem since_mono (h : a.entries ⊆ a'.entries) : a.since a₀ ⊆ a'.since a₀ :=
  Set.inter_subset_inter_right _ h

@[simp] theorem since_modifyOperand (id : OperandId) (f : Operand → Operand) :
    (a.modifyOperand id f).since a₀ = a.since a₀ := by simp [since]
@[simp] theorem since_modifyOp (id : OpId) (f : Op → Op) :
    (a.modifyOp id f).since a₀ = a.since a₀ := by simp [since]
@[simp] theorem since_modifyBlock (id : BlockId) (f : Block → Block) :
    (a.modifyBlock id f).since a₀ = a.since a₀ := by simp [since]
@[simp] theorem since_modifyFunc (id : FuncId) (f : Func → Func) :
    (a.modifyFunc id f).since a₀ = a.since a₀ := by simp [since]

namespace Adjoins

theorem refl (a : Arena) : a.Adjoins a :=
  ⟨subset_rfl, fun e _ => .refl a e, fun _ he hin => absurd hin he⟩

theorem modifyOperand (h : a₀.Adjoins a) {id : OperandId} {f : Operand → Operand}
    (hid : .operand id ∈ a.since a₀)
    (hf : (a.operand id).Within (a.since a₀) → (f (a.operand id)).Within (a.since a₀)) :
    a₀.Adjoins (a.modifyOperand id f) where
  entries := by simpa using h.entries
  same e he := (h.same e he).trans (same_modifyOperand a id f fun heq => hid.1 (heq ▸ he))
  closed := h.closed.modifyOperand fun _ => hf

theorem modifyOp (h : a₀.Adjoins a) {id : OpId} {f : Op → Op} (hid : .op id ∈ a.since a₀)
    (hf : (a.op id).kind.Within (a.since a₀) → (f (a.op id)).kind.Within (a.since a₀)) :
    a₀.Adjoins (a.modifyOp id f) where
  entries := by simpa using h.entries
  same e he := (h.same e he).trans (same_modifyOp a id f fun heq => hid.1 (heq ▸ he))
  closed := h.closed.modifyOp fun _ => hf

theorem modifyBlock (h : a₀.Adjoins a) {id : BlockId} {f : Block → Block}
    (hid : .block id ∈ a.since a₀)
    (hf : (a.block id).Within (a.since a₀) → (f (a.block id)).Within (a.since a₀)) :
    a₀.Adjoins (a.modifyBlock id f) where
  entries := by simpa using h.entries
  same e he := (h.same e he).trans (same_modifyBlock a id f fun heq => hid.1 (heq ▸ he))
  closed := h.closed.modifyBlock fun _ => hf

theorem modifyFunc (h : a₀.Adjoins a) {id : FuncId} {f : Func → Func}
    (hid : .func id ∈ a.since a₀)
    (hf : (a.func id).Within (a.since a₀) → (f (a.func id)).Within (a.since a₀)) :
    a₀.Adjoins (a.modifyFunc id f) where
  entries := by simpa using h.entries
  same e he := (h.same e he).trans (same_modifyFunc a id f fun heq => hid.1 (heq ▸ he))
  closed := h.closed.modifyFunc fun _ => hf

/-- The next operand is none of those from before. -/
theorem notMem_operand (h : a₀.Adjoins a) : .operand ⟨a.operands.size⟩ ∉ a₀.entries :=
  fun hmem => Nat.lt_irrefl _ (h.entries hmem)

theorem notMem_op (h : a₀.Adjoins a) : .op ⟨a.ops.size⟩ ∉ a₀.entries :=
  fun hmem => Nat.lt_irrefl _ (h.entries hmem)

theorem notMem_block (h : a₀.Adjoins a) : .block ⟨a.blocks.size⟩ ∉ a₀.entries :=
  fun hmem => Nat.lt_irrefl _ (h.entries hmem)

theorem notMem_func (h : a₀.Adjoins a) : .func ⟨a.funcs.size⟩ ∉ a₀.entries :=
  fun hmem => Nat.lt_irrefl _ (h.entries hmem)

theorem newOperand (h : a₀.Adjoins a) {kind : OperandKind}
    (hlinks : ∀ x ∈ kind.links, .operand x ∈ a.since a₀) : a₀.Adjoins (a.newOperand kind).2 where
  entries := h.entries.trans (entries_newOperand a kind)
  same e he := by
    refine (h.same e he).trans ?_
    cases e with
    | operand id => rw [Same, operand_newOperand, if_neg (Nat.ne_of_lt (h.entries he))]
    | _ => rfl
  closed := h.closed.newOperand fun _ => hlinks

theorem newBlock (h : a₀.Adjoins a) {func : FuncId} (hfunc : .func func ∈ a.since a₀) :
    a₀.Adjoins (a.newBlock (some func)).2 where
  entries := h.entries.trans (entries_newBlock a func)
  same e he := by
    refine (h.same e he).trans ?_
    have hpush : a.Same { a with blocks := a.blocks.push { func := some func } } e := by
      cases e with
      | block id => rw [Same, block_push, if_neg (Nat.ne_of_lt (h.entries he))]
      | _ => rfl
    exact hpush.trans (same_modifyFunc _ func _ fun heq => hfunc.1 (heq ▸ he))
  closed := h.closed.newBlock func

theorem newFunc (h : a₀.Adjoins a) (name : String) : a₀.Adjoins (a.newFunc name).2 where
  entries := h.entries.trans (entries_newFunc a name)
  same e he := by
    refine (h.same e he).trans ?_
    have hlt := h.entries he
    cases e with
    | block id => exact (block_push a _ id).trans (if_neg (Nat.ne_of_lt hlt))
    | func id => rw [Same, func_newFunc, if_neg (Nat.ne_of_lt hlt)]
    | _ => rfl
  closed := h.closed.newFunc name fun _ => h.notMem_block

theorem addOp (h : a₀.Adjoins a) {kind : OpKind} (span : Span) (hkind : kind.Within (a.since a₀)) :
    a₀.Adjoins (a.addOp kind span).2 where
  entries := h.entries.trans (entries_addOp a kind span)
  same e he := by
    refine (h.same e he).trans ?_
    have hlt := h.entries he
    cases e with
    | operand x =>
      -- no slot holds an operand from before
      have hslot (sort : Bool) :
          (kind.slots.any fun e => e.2 = x && (kind.writes e.1 == sort)) = false :=
        Bool.eq_false_iff.2 fun hany => (hkind.1 x (mem_operands_of_any hany)).1 he
      rw [Same, operand_addOp a kind span none hlt, hslot, hslot]
      rfl
    | op o => rw [Same, op_addOp, if_neg (Nat.ne_of_lt hlt)]
    | _ => rfl
  closed := h.closed.addOp span (fun _ => hkind) fun _ _ _ => h.notMem_op

/-! ### Placing operations -/

theorem append (h : a₀.Adjoins a) {block : BlockId} {op : OpId} (hblock : .block block ∈ a.since a₀)
    (hop : .op op ∈ a.since a₀) : a₀.Adjoins (a.append block op) := by
  refine (h.modifyBlock hblock fun hold => ⟨fun o ho => ?_, hold.phis, hold.preds⟩).modifyOp ?_
    fun hold => ?_
  · rcases List.mem_append.1 ho with ho | ho
    · exact hold.ops o ho
    · rw [List.mem_singleton.1 ho]
      exact hop
  · simpa using hop
  · exact hold

theorem attachPhi (h : a₀.Adjoins a) {block : BlockId} {phi : OpId}
    (hblock : .block block ∈ a.since a₀) (hphi : .op phi ∈ a.since a₀) :
    a₀.Adjoins (a.attachPhi block phi) := by
  refine (h.modifyBlock hblock fun hold => ⟨hold.ops, fun o ho => ?_, hold.preds⟩).modifyOp ?_
    fun hold => ?_
  · rcases mem_addNew.1 ho with ho | rfl
    · exact hold.phis o ho
    · exact hphi
  · simpa using hphi
  · exact hold

theorem link (h : a₀.Adjoins a) {source target : BlockId} (hs : .block source ∈ a.since a₀)
    (ht : .block target ∈ a.since a₀) : a₀.Adjoins (a.link source target) :=
  h.modifyBlock ht fun hold => ⟨hold.ops, hold.phis, fun pred hpred => by
    rcases mem_addNew.1 hpred with hpred | rfl
    · exact hold.preds pred hpred
    · exact hs⟩

theorem addGuard (h : a₀.Adjoins a) {block : BlockId} {cond : OperandId}
    (hblock : .block block ∈ a.since a₀) (hcond : .operand cond ∈ a.since a₀) :
    a₀.Adjoins (a.addGuard block cond) := by
  refine (h.modifyBlock hblock fun hold => ⟨hold.ops, hold.phis, hold.preds⟩).modifyOperand ?_
    fun hold => ⟨hold.links, hold.defs, hold.usages, hold.assertions⟩
  simpa using hcond

theorem addPhiOperand (h : a₀.Adjoins a) {phi : OpId} {x : OperandId}
    (hphi : .op phi ∈ a.since a₀) (hx : .operand x ∈ a.since a₀) :
    a₀.Adjoins (a.addPhiOperand phi x) := by
  unfold Arena.addPhiOperand
  split
  · rename_i vars result hkind
    refine (h.modifyOp hphi fun hold => ?_).modifyOperand (by simpa using hx) fun hold => ?_
    · rw [hkind] at hold
      refine ⟨fun y hy => ?_, nofun, nofun⟩
      rw [OpKind.operands_phi, List.mem_append, List.mem_append, List.mem_singleton,
        List.mem_singleton] at hy
      rcases hy with (hy | rfl) | rfl
      · exact hold.1 y (by simp [hy])
      · exact hx
      · exact hold.1 y (by simp)
    · refine ⟨hold.links, hold.defs, fun op hop => ?_, hold.assertions⟩
      rcases mem_addNew.1 hop with hop | rfl
      · exact hold.usages op hop
      · simpa using hphi
  · exact h

end Adjoins

end Arena

end QueryTaint
