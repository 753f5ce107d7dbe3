import QueryTaint.Proofs.Arena.DefUse
import QueryTaint.Proofs.Trail.Basic
import QueryTaint.Simplify.Basic

/-!
# Single assignment form

What a function must be like for its simplification to keep its meaning. `Arena.Ssa` is single
assignment form, and `Arena.Regular` is what the positions of φ operands need on top of it. Their
conditions are of two sorts.

* About the blocks that a trail from the entry reaches: predecessor lists cover the terminator edges
  (`covers`), every φ operation merges one operand for each predecessor that is not dead (`arity`),
  definitions dominate uses (`dominates`, `dominates_edge`), and the φ operations of the entry merge
  nothing (`entry_phis`).
* About all blocks of the arena, those of other functions too: operations stand where they say
  (`placed`), the lists of operands are exact (`lists`), the φ operations of a block are listed apart
  (`isPhi_phis`, `isPhi_ops`), no operand has two definitions (`single`), and a block that only jumps
  precedes only its target (`sole`). Operands are shared between functions, and replacing one goes
  through its lists wherever its readers stand, so that a second definition or a reader that is not
  listed would matter in any function.

`Arena.Simulates` is what simplification owes: each trail of the function without the blocks that
died is a trail of the simplified function, every trail of that comes about so, and both execute
the same operations on the same values.
-/

namespace QueryTaint.Arena

/-- The φ operations and the other operations of a block. -/
def members (a : Arena) (block : BlockId) : List OpId := (a.block block).phis ++ (a.block block).ops

/-- An operation in a block writes an operand. -/
def Defines (a : Arena) (op : OpId) (id : OperandId) : Prop :=
  (a.op op).block.isSome ∧ id ∈ (a.op op).kind.mentioned true

/-- The operations of all blocks stand where they say, and the predecessor lists of the blocks that a
trail leads to cover terminator edges. -/
structure Linked (a : Arena) (entry : BlockId) : Prop where
  placed (op : OpId) (block : BlockId) : op ∈ a.members block ↔ (a.op op).block = some block
  covers {source block : BlockId} {rest : List BlockId} : a.Trail entry (source :: rest) →
    block ∈ a.successors source → source ∈ (a.block block).preds

/-- A function is in single assignment form, in an arena where the lists of operands are exact, φ
operations are listed apart and no operand has two definitions in any block. -/
structure Ssa (a : Arena) (entry : BlockId) : Prop extends Linked a entry where
  -- Four conditions on the whole arena.
  lists : ∃ removed, a.DefUse removed ∧ ∀ op, (a.op op).block.isSome → a.Kept removed op
  isPhi_phis {block : BlockId} : ∀ op ∈ (a.block block).phis, a.isPhi op = true
  isPhi_ops {block : BlockId} : ∀ op ∈ (a.block block).ops, a.isPhi op = false
  single {op other : OpId} {id : OperandId} : a.Defines op id → a.Defines other id → op = other
  -- Three conditions on the blocks that a trail reaches.
  arity {block : BlockId} {rest : List BlockId} {phi : OpId} {vars : List OperandId}
      {result : OperandId} : a.Trail entry (block :: rest) → phi ∈ (a.block block).phis →
    (a.op phi).kind = .phi vars result → vars.length = (a.livePreds block).length
  -- A use in a block comes after the definition in it, or the definition is in an earlier block.
  dominates {block : BlockId} {rest : List BlockId} {i : Nat} {op writer : OpId}
      {id : OperandId} : a.Trail entry (block :: rest) → (a.block block).ops[i]? = some op →
    id ∈ (a.op op).kind.reads → a.Defines writer id →
    writer ∈ (a.block block).phis ∨ writer ∈ (a.block block).ops.take i ∨
      ∃ b ∈ rest, writer ∈ a.members b
  -- A φ operation reads an operand on the edge that the operand belongs to.
  dominates_edge {block source : BlockId} {rest : List BlockId} {phi writer : OpId}
      {vars : List OperandId} {result id : OperandId} : a.Trail entry (block :: source :: rest) →
    phi ∈ (a.block block).phis → (a.op phi).kind = .phi vars result →
    a.phiOperand? block source vars = some id → a.Defines writer id →
    ∃ b ∈ source :: rest, writer ∈ a.members b

/-- In the whole arena, a block that only jumps is a predecessor of the block where it jumps only; and
the φ operations of the entry block, which is not entered by an edge at first, merge nothing. -/
structure Regular (a : Arena) (entry : BlockId) : Prop where
  sole {source block target : BlockId} {jump : OpId} : (a.block source).dead = false →
    (a.block source).ops = [jump] → (a.op jump).kind = .jump target →
    (a.block block).dead = false → source ∈ (a.block block).preds → block = target
  entry_phis {phi : OpId} {vars : List OperandId} {result : OperandId} :
    phi ∈ (a.block entry).phis → (a.op phi).kind = .phi vars result → vars = []

/-- The blocks of a trail that are not dead. -/
def survivors (a : Arena) (trail : List BlockId) : List BlockId :=
  trail.filter fun b => !(a.block b).dead

/-- The trails of `a'` are those of `a` without the blocks that died, and the same happens on
them. -/
structure Simulates (a a' : Arena) (entry : BlockId) : Prop where
  dead {block : BlockId} : (a.block block).dead = true → (a'.block block).dead = true
  trail {trail : List BlockId} : a.Trail entry trail → a'.Trail entry (a'.survivors trail)
  origin {trail' : List BlockId} : a'.Trail entry trail' →
    ∃ trail, a.Trail entry trail ∧ a'.survivors trail = trail'
  log {trail : List BlockId} {D : Type} (E : Effects D) : a.Trail entry trail →
    (a'.memory E (a'.survivors trail)).log = (a.memory E trail).log

namespace Simulates

variable {a a' a'' : Arena} {entry : BlockId}

theorem survivors_of_live {trail : List BlockId} (h : ∀ b ∈ trail, (a.block b).dead = false) :
    a.survivors trail = trail := by
  rw [survivors, List.filter_eq_self]
  intro b hb
  simp [h b hb]

theorem refl (a : Arena) (entry : BlockId) : a.Simulates a entry where
  dead := id
  trail h := by rwa [survivors_of_live h.live]
  origin h := ⟨_, h, survivors_of_live h.live⟩
  log E h := by rw [survivors_of_live h.live]

theorem survivors_survivors (h : ∀ b, (a'.block b).dead = true → (a''.block b).dead = true)
    (trail : List BlockId) : a''.survivors (a'.survivors trail) = a''.survivors trail := by
  rw [survivors, survivors, List.filter_filter, survivors]
  congr 1
  funext b
  cases hb : (a'.block b).dead
  · simp
  · simp [h b hb]

theorem trans (h : a.Simulates a' entry) (h' : a'.Simulates a'' entry) :
    a.Simulates a'' entry := by
  have hsurv : ∀ trail, a''.survivors (a'.survivors trail) = a''.survivors trail :=
    survivors_survivors fun _ => h'.dead
  refine ⟨fun hd => h'.dead (h.dead hd), fun ht => ?_, fun ht => ?_, fun E ht => ?_⟩
  · rw [← hsurv]
    exact h'.trail (h.trail ht)
  · obtain ⟨t', ht', rfl⟩ := h'.origin ht
    obtain ⟨t, ht₀, rfl⟩ := h.origin ht'
    exact ⟨t, ht₀, (hsurv t).symm⟩
  · rw [← hsurv, h'.log E (h.trail ht), h.log E ht]

end Simulates

variable {a a' : Arena} {entry : BlockId}

theorem phiOperand?_map (block source : BlockId) (f : OperandId → OperandId)
    (vars : List OperandId) :
    a.phiOperand? block source (vars.map f) = (a.phiOperand? block source vars).map f := by
  unfold phiOperand?
  cases (a.livePreds block).findIdx? (· = source) <;> simp

theorem Trail.congr (hdead : ∀ b, (a'.block b).dead = (a.block b).dead)
    (hsucc : ∀ b, a'.successors b = a.successors b) {trail : List BlockId}
    (h : a.Trail entry trail) : a'.Trail entry trail := by
  induction h with
  | start live => exact .start ((hdead _).trans live)
  | step _ edge live ih => exact .step ih (hsucc _ ▸ edge) ((hdead _).trans live)

namespace Linked

theorem unique (h : a.Linked entry) {op : OpId} {b c : BlockId} (hb : op ∈ a.members b)
    (hc : op ∈ a.members c) : b = c := by
  rw [h.placed] at hb hc
  exact Option.some.inj (hb.symm.trans hc)

theorem isSome (h : a.Linked entry) {op : OpId} {b : BlockId} (hb : op ∈ a.members b) :
    (a.op op).block.isSome := by
  rw [(h.placed op b).1 hb]
  rfl

/-- The edges that a trail takes come from predecessors that are not dead. -/
theorem mem_livePreds (h : a.Linked entry) {block source : BlockId} {rest : List BlockId}
    (ht : a.Trail entry (block :: source :: rest)) : source ∈ a.livePreds block := by
  simp only [livePreds, List.mem_filter, Bool.not_eq_true']
  exact ⟨h.covers ht.tail ht.edge, ht.tail.live source (List.mem_cons_self ..)⟩

end Linked

namespace Ssa

theorem kind_of_mem (h : a.Ssa entry) {block : BlockId} {phi : OpId}
    (hp : phi ∈ (a.block block).phis) : ∃ vars result, (a.op phi).kind = .phi vars result := by
  have hphi := h.isPhi_phis phi hp
  unfold isPhi at hphi
  split at hphi
  · exact ⟨_, _, ‹_›⟩
  · cases hphi

theorem mem_phis (h : a.Ssa entry) {block : BlockId} {phi : OpId} (hp : phi ∈ a.members block)
    (hphi : a.isPhi phi = true) : phi ∈ (a.block block).phis := by
  rcases List.mem_append.1 hp with hp | hp
  · exact hp
  · rw [h.isPhi_ops phi hp] at hphi
    cases hphi

theorem not_mem_ops (h : a.Ssa entry) {b c : BlockId} {phi : OpId}
    (hp : phi ∈ (a.block b).phis) : phi ∉ (a.block c).ops := by
  intro hc
  have hphi := h.isPhi_phis phi hp
  rw [h.isPhi_ops phi hc] at hphi
  cases hphi

theorem defines_of_mem (h : a.Ssa entry) {block : BlockId} {phi : OpId} {vars : List OperandId}
    {result : OperandId} (hp : phi ∈ (a.block block).phis)
    (hk : (a.op phi).kind = .phi vars result) : a.Defines phi result :=
  ⟨h.isSome (List.mem_append_left _ hp), by simp [hk, OpKind.mentioned_phi_true]⟩

/-- Every edge that a trail takes selects an operand of each φ operation that it leads to. -/
theorem exists_phiOperand (h : a.Ssa entry) {block source : BlockId} {rest : List BlockId}
    (ht : a.Trail entry (block :: source :: rest)) {phi : OpId} {vars : List OperandId}
    {result : OperandId} (hp : phi ∈ (a.block block).phis)
    (hk : (a.op phi).kind = .phi vars result) :
    ∃ id ∈ vars, a.phiOperand? block source vars = some id := by
  have hlen := h.arity ht hp hk
  have hmem := h.mem_livePreds ht
  have hfound : ((a.livePreds block).findIdx? (· = source)).isSome := by
    rw [List.findIdx?_isSome, List.any_eq_true]
    exact ⟨source, hmem, by simp⟩
  obtain ⟨i, hi⟩ := Option.isSome_iff_exists.1 hfound
  have hlt : i < vars.length := by
    rw [hlen]
    exact (List.findIdx?_eq_some_iff_getElem.1 hi).1
  exact ⟨vars[i], List.getElem_mem hlt, by simp [phiOperand?, hi, hlt]⟩

/-- A φ operation of a block that is entered gives its result the value of the operand that the
edge selects. -/
theorem incoming?_of_phi (h : a.Ssa entry) {block source : BlockId} {phi : OpId}
    {vars : List OperandId} {result id : OperandId} (hp : phi ∈ (a.block block).phis)
    (hk : (a.op phi).kind = .phi vars result)
    (hid : a.phiOperand? block source vars = some id) :
    a.incoming? block (some source) result = some id :=
  Arena.incoming?_of_only hp hk
    (fun _ ho _ hk' => h.single (h.defines_of_mem ho hk') (h.defines_of_mem hp hk)) hid

end Ssa

end QueryTaint.Arena
