import QueryTaint.Proofs.Simplify.Ssa

/-!
# The shape of control flow

`Arena.Wired` says of all blocks that an operation that ends a block is the last one in it, that the
edges from live blocks lead to live blocks which know them as predecessors, and that operations
stand where they say. `Arena.Shaped` adds that every φ operation has an operand for each live
predecessor of its block. `Arena.Ranked` says that first predecessors are never in a circle.

Each way of changing an arena is looked at once: what leaves the flow between blocks alone
(`Wired.thin`), a predecessor that is recorded (`Wired.link`), an operation that is put at the end
of a block (`Wired.append`), and a φ operation (`Wired.attachPhi`).
-/

namespace QueryTaint

namespace OpKind

/-- A kind of operation that leaves a block as another one does. -/
structure SameFlow (kind kind' : OpKind) : Prop where
  terminates : kind'.isTerminator = kind.isTerminator
  successors : kind'.successors = kind.successors
  jump : ∀ target, kind' = .jump target → kind = .jump target

theorem SameFlow.refl (kind : OpKind) : kind.SameFlow kind := ⟨rfl, rfl, fun _ => id⟩

theorem SameFlow.mapOperands (kind : OpKind) (f : OperandId → OperandId) :
    kind.SameFlow (kind.mapOperands f) :=
  ⟨isTerminator_mapOperands .., successors_mapOperands .., fun _ => mapOperands_eq_jump.1⟩

end OpKind

namespace Arena

/-- Control flow is well formed. -/
structure Wired (a : Arena) : Prop where
  ends (block : BlockId) :
    (a.block block).ops.Pairwise fun op _ => (a.op op).kind.isTerminator = false
  edges {block : BlockId} : (a.block block).dead = false → ∀ op ∈ (a.block block).ops,
    ∀ target ∈ (a.op op).kind.successors,
      (a.block target).dead = false ∧ block ∈ (a.block target).preds
  jumps {block source : BlockId} : source ∈ (a.block block).preds →
    ∀ op ∈ (a.block source).ops, ∀ target, (a.op op).kind = .jump target → target = block
  known {block source : BlockId} : source ∈ (a.block block).preds → source.index < a.blocks.size
  placed (block : BlockId) : ∀ op ∈ a.members block, (a.op op).block = some block

/-- A φ operation has an operand for each live predecessor of its block. -/
def Merged (a : Arena) (block : BlockId) (phi : OpId) : Prop :=
  ∃ vars result, (a.op phi).kind = .phi vars result ∧ vars.length = (a.livePreds block).length

/-- Control flow is well formed, and so are the φ operations of all blocks. -/
structure Shaped (a : Arena) : Prop extends Wired a where
  merged (block : BlockId) : ∀ phi ∈ (a.block block).phis, a.Merged block phi

/-- The first predecessor of a block comes before it in some order of the blocks of a region. -/
def Ranked (D : BlockId → Prop) (a : Arena) : Prop :=
  ∃ rank : BlockId → Nat, ∀ block, D block → ∀ source rest,
    (a.block block).preds = source :: rest → rank source < rank block

variable {a a' : Arena}

theorem block_lt_of_op {block : BlockId} {op : OpId} (h : op ∈ (a.block block).ops) :
    block.index < a.blocks.size :=
  Nat.lt_of_not_le fun hle => by
    rw [block_of_le a hle] at h
    cases h

theorem block_lt_of_phi {block : BlockId} {phi : OpId} (h : phi ∈ (a.block block).phis) :
    block.index < a.blocks.size :=
  Nat.lt_of_not_le fun hle => by
    rw [block_of_le a hle] at h
    cases h

theorem block_lt_of_pred {block source : BlockId} (h : source ∈ (a.block block).preds) :
    block.index < a.blocks.size :=
  Nat.lt_of_not_le fun hle => by
    rw [block_of_le a hle] at h
    cases h

theorem op_lt_of_block {op : OpId} {block : BlockId} (h : (a.op op).block = some block) :
    op.index < a.ops.size :=
  Nat.lt_of_not_le fun hle => by
    rw [op_of_le a hle] at h
    cases h

namespace Wired

theorem op_lt (h : a.Wired) {block : BlockId} {op : OpId} (hop : op ∈ (a.block block).ops) :
    op.index < a.ops.size :=
  op_lt_of_block (h.placed block op (List.mem_append_right _ hop))

/-- An operation that stands in no block is in no list of operations. -/
theorem notMem_members (h : a.Wired) {op : OpId} (hop : (a.op op).block = none)
    (block : BlockId) : op ∉ a.members block := by
  intro hmem
  have hplaced := h.placed block op hmem
  rw [hop] at hplaced
  cases hplaced

theorem livePreds_eq (h : a.Wired) {block : BlockId}
    (hpreds : (a'.block block).preds = (a.block block).preds)
    (hdead : ∀ b : BlockId, b.index < a.blocks.size → (a'.block b).dead = (a.block b).dead) :
    a'.livePreds block = a.livePreds block := by
  unfold livePreds
  rw [hpreds]
  refine List.filter_congr fun source hsource => ?_
  rw [hdead source (h.known hsource)]

/-- The flow between blocks is what it was, but for operations that were taken out. -/
theorem thin (h : a.Wired) (hsize : a.blocks.size ≤ a'.blocks.size)
    (hops : ∀ block, (a'.block block).ops.Sublist (a.block block).ops)
    (hpreds : ∀ block, (a'.block block).preds = (a.block block).preds)
    (hdead : ∀ b : BlockId, b.index < a.blocks.size → (a'.block b).dead = (a.block b).dead)
    (hflow : ∀ block, ∀ op ∈ (a'.block block).ops, (a.op op).kind.SameFlow (a'.op op).kind)
    (hplaced : ∀ block, ∀ op ∈ a'.members block, (a'.op op).block = some block) : a'.Wired where
  ends block := by
    refine ((h.ends block).sublist (hops block)).imp_of_mem fun {op other} hop _ hterm => ?_
    rw [(hflow block op hop).terminates]
    exact hterm
  edges {block} hlive op hop target htarget := by
    have hold := (hops block).subset hop
    rw [(hflow block op hop).successors] at htarget
    rw [hdead block (block_lt_of_op hold)] at hlive
    obtain ⟨htlive, hpred⟩ := h.edges hlive op hold target htarget
    rw [hdead target (block_lt_of_pred hpred), hpreds]
    exact ⟨htlive, hpred⟩
  jumps {block source} hpred op hop target hkind := by
    rw [hpreds] at hpred
    exact h.jumps hpred op ((hops source).subset hop) target
      ((hflow source op hop).jump target hkind)
  known {block source} hpred := by
    rw [hpreds] at hpred
    exact Nat.lt_of_lt_of_le (h.known hpred) hsize
  placed := hplaced

end Wired

/-! ## Recording predecessors -/

theorem preds_link {source target : BlockId} (ht : target.index < a.blocks.size)
    (block : BlockId) :
    ((a.link source target).block block).preds =
      if block = target then addNew (a.block block).preds source else (a.block block).preds := by
  rw [link, block_modifyBlock_of_lt ht]
  split <;> rfl

theorem block_link_keep {β : Type} (get : Block → β) (hget : ∀ b preds, get { b with preds } = get b)
    (source target block : BlockId) :
    get ((a.link source target).block block) = get (a.block block) :=
  block_modifyBlock_keep a get target block fun b => hget b _

/-- A block that goes on, so that nothing follows from its being a predecessor. -/
theorem Wired.link (h : a.Wired) {source target : BlockId} (hs : source.index < a.blocks.size)
    (ht : target.index < a.blocks.size)
    (hgoes : ∀ op ∈ (a.block source).ops, (a.op op).kind.isTerminator = false) :
    (a.link source target).Wired := by
  have hops := block_link_keep (a := a) Block.ops (fun _ _ => rfl) source target
  have hphis := block_link_keep (a := a) Block.phis (fun _ _ => rfl) source target
  have hdead := block_link_keep (a := a) Block.dead (fun _ _ => rfl) source target
  have hpreds (block : BlockId) : ((a.link source target).block block).preds =
      if block = target then addNew (a.block block).preds source else (a.block block).preds :=
    preds_link ht block
  refine ⟨fun block => ?_, fun {block} hlive op hop next hnext => ?_,
    fun {block s} hpred op hop next hkind => ?_, fun {block s} hpred => ?_, fun block op hop => ?_⟩
  · rw [hops]
    exact h.ends block
  · rw [hdead] at hlive ⊢
    rw [hops] at hop
    obtain ⟨hnlive, hpred⟩ := h.edges hlive op hop next hnext
    refine ⟨hnlive, ?_⟩
    rw [hpreds]
    split
    · exact mem_addNew.2 (.inl hpred)
    · exact hpred
  · rw [hops] at hop
    rw [hpreds] at hpred
    split at hpred
    · rcases mem_addNew.1 hpred with hpred | rfl
      · exact h.jumps hpred op hop next hkind
      · -- the new predecessor does not jump yet
        have hkind : (a.op op).kind = .jump next := hkind
        have hterm := hgoes op hop
        rw [hkind] at hterm
        cases hterm
    · exact h.jumps hpred op hop next hkind
  · rw [show (a.link source target).blocks.size = a.blocks.size from size_blocks_modifyBlock ..]
    rw [hpreds] at hpred
    split at hpred
    · rcases mem_addNew.1 hpred with hpred | rfl
      · exact h.known hpred
      · exact hs
    · exact h.known hpred
  · rw [members, hops, hphis] at hop
    exact h.placed block op hop

/-- A block without φ operations gets a predecessor. -/
theorem Shaped.link (h : a.Shaped) {source target : BlockId} (hs : source.index < a.blocks.size)
    (ht : target.index < a.blocks.size) (hbare : (a.block target).phis = [])
    (hgoes : ∀ op ∈ (a.block source).ops, (a.op op).kind.isTerminator = false) :
    (a.link source target).Shaped := by
  refine ⟨h.toWired.link hs ht hgoes, fun block phi hphi => ?_⟩
  rw [block_link_keep Block.phis (fun _ _ => rfl)] at hphi
  have hne : block ≠ target := by
    rintro rfl
    rw [hbare] at hphi
    cases hphi
  obtain ⟨vars, result, hkind, hlength⟩ := h.merged block phi hphi
  refine ⟨vars, result, hkind, ?_⟩
  rw [h.livePreds_eq _ fun b _ => block_link_keep Block.dead (fun _ _ => rfl) source target b]
  · exact hlength
  · rw [preds_link ht, if_neg hne]

/-- The order of first predecessors goes on if a block that gets its first predecessor is none
itself. -/
theorem Ranked.link {D : BlockId → Prop} (h : a.Ranked D) {source target : BlockId}
    (ht : target.index < a.blocks.size)
    (hfirst : (a.block target).preds = [] →
      target ≠ source ∧ ∀ block, D block → target ∉ (a.block block).preds) :
    (a.link source target).Ranked D := by
  obtain ⟨rank, hrank⟩ := h
  by_cases hnone : (a.block target).preds = []
  · obtain ⟨hne, hleaf⟩ := hfirst hnone
    refine ⟨fun block => if block = target then rank source + 1 else rank block, ?_⟩
    intro block hblock s rest hpreds
    rw [preds_link ht] at hpreds
    split at hpreds
    · rename_i heq
      subst heq
      rw [hnone] at hpreds
      obtain ⟨rfl, -⟩ := List.cons.inj hpreds
      dsimp only
      rw [if_pos rfl, if_neg (Ne.symm hne)]
      exact Nat.lt_succ_self _
    · rename_i heq
      have hs : s ≠ target := by
        rintro rfl
        exact hleaf block hblock (by rw [hpreds]; exact List.mem_cons_self)
      dsimp only
      rw [if_neg heq, if_neg hs]
      exact hrank block hblock s rest hpreds
  · refine ⟨rank, fun block hblock s rest hpreds => ?_⟩
    rw [preds_link ht] at hpreds
    split at hpreds
    · rename_i heq
      subst heq
      obtain ⟨first, others, hold⟩ := List.exists_cons_of_ne_nil hnone
      rw [hold, addNew] at hpreds
      have hhead : first = s := by
        split at hpreds
        · exact (List.cons.inj hpreds).1
        · exact (List.cons.inj hpreds).1
      exact hhead ▸ hrank _ hblock first others hold
    · exact hrank block hblock s rest hpreds

theorem Ranked.congr {D : BlockId → Prop} (h : a.Ranked D)
    (hpreds : ∀ block, (a'.block block).preds = (a.block block).preds) : a'.Ranked D :=
  h.imp fun _ hrank block hblock source rest hrest =>
    hrank block hblock source rest ((hpreds block).symm.trans hrest)

/-- The orders of two regions go together if the second is left as it was outside of the first, and
its first predecessors there are outside of it too. -/
theorem Ranked.join {D E : BlockId → Prop} (hD : a'.Ranked D) (hE : a.Ranked E)
    (hclosed : ∀ block, D block → ∀ source ∈ (a'.block block).preds, D source)
    (hkeeps : ∀ block, ¬D block → (a'.block block).preds = (a.block block).preds)
    (hapart : ∀ block, E block → ¬D block → ∀ source ∈ (a.block block).preds, ¬D source) :
    a'.Ranked fun block => D block ∨ E block := by
  obtain ⟨inner, hinner⟩ := hD
  obtain ⟨outer, houter⟩ := hE
  classical
  refine ⟨fun block => if D block then inner block else outer block,
    fun block hblock source rest hpreds => ?_⟩
  dsimp only
  by_cases hin : D block
  · have hsource := hclosed block hin source (hpreds ▸ List.mem_cons_self)
    rw [if_pos hin, if_pos hsource]
    exact hinner block hin source rest hpreds
  · have hblock := hblock.resolve_left hin
    rw [hkeeps block hin] at hpreds
    rw [if_neg hin, if_neg (hapart block hblock hin source (hpreds ▸ List.mem_cons_self))]
    exact houter block hblock source rest hpreds

theorem Ranked.mono {D E : BlockId → Prop} (h : a.Ranked D) (hE : ∀ block, E block → D block) :
    a.Ranked E :=
  h.imp fun _ hrank block hblock => hrank block (hE block hblock)

/-! ## Placing operations -/

/-- Recording a predecessor and changing other fields of blocks can be done in any order. -/
theorem modify_modify {α : Type} (xs : Array α) (i j : Nat) {f g : α → α}
    (h : ∀ x, f (g x) = g (f x)) : (xs.modify i f).modify j g = (xs.modify j g).modify i f := by
  refine Array.ext_getElem? fun k => ?_
  simp only [Array.getElem?_modify]
  by_cases hi : i = k
  · by_cases hj : j = k
    · simp [hi, hj, Function.comp_def, h]
    · simp [hi, hj]
  · by_cases hj : j = k
    · simp [hi, hj]
    · simp [hi, hj]

theorem modifyBlock_append (a : Arena) (block other : BlockId) (op : OpId) {f : Block → Block}
    (hf : ∀ b : Block, f { b with ops := b.ops ++ [op] } = { f b with ops := (f b).ops ++ [op] }) :
    (a.append block op).modifyBlock other f = (a.modifyBlock other f).append block op := by
  have hblocks := modify_modify a.blocks block.index other.index
    (f := fun b => { b with ops := b.ops ++ [op] }) (g := f) fun b => (hf b).symm
  simp only [append, modifyBlock, modifyOp, hblocks]

theorem link_append (a : Arena) (block source target : BlockId) (op : OpId) :
    (a.append block op).link source target = (a.link source target).append block op :=
  modifyBlock_append a block target op fun _ => rfl

theorem modifyBlock_modifyFunc (a : Arena) (func : FuncId) (f : Func → Func) (block : BlockId)
    (g : Block → Block) :
    (a.modifyFunc func f).modifyBlock block g = (a.modifyBlock block g).modifyFunc func f := rfl

theorem link_modifyFunc (a : Arena) (func : FuncId) (f : Func → Func) (source target : BlockId) :
    (a.modifyFunc func f).link source target = (a.link source target).modifyFunc func f := rfl

theorem block_append_keep {β : Type} (get : Block → β) (hget : ∀ b ops, get { b with ops } = get b)
    (block : BlockId) (op : OpId) (b : BlockId) :
    get ((a.append block op).block b) = get (a.block b) :=
  block_modifyBlock_keep a get block b fun b => hget b _

/-- An operation is put at the end of a block that goes on. Its targets know the block already. -/
theorem Wired.append (h : a.Wired) {block : BlockId} {op : OpId}
    (hblock : block.index < a.blocks.size) (hop : op.index < a.ops.size)
    (hnew : (a.op op).block = none)
    (hgoes : ∀ o ∈ (a.block block).ops, (a.op o).kind.isTerminator = false)
    (htargets : (a.block block).dead = false → ∀ target ∈ (a.op op).kind.successors,
      (a.block target).dead = false ∧ block ∈ (a.block target).preds)
    (hjump : ∀ target, (a.op op).kind = .jump target →
      ∀ b, block ∈ (a.block b).preds → target = b) : (a.append block op).Wired := by
  have hops (b : BlockId) : ((a.append block op).block b).ops =
      if b = block then (a.block b).ops ++ [op] else (a.block b).ops := by
    rw [Arena.append, block_modifyOp, block_modifyBlock_of_lt hblock]
    split <;> rfl
  have hdead := block_append_keep (a := a) Block.dead (fun _ _ => rfl) block op
  have hpreds := block_append_keep (a := a) Block.preds (fun _ _ => rfl) block op
  have hphis := block_append_keep (a := a) Block.phis (fun _ _ => rfl) block op
  have hkind (o : OpId) : ((a.append block op).op o).kind = (a.op o).kind :=
    op_modifyOp_keep _ Op.kind _ _ fun _ => rfl
  have hplace (o : OpId) : ((a.append block op).op o).block =
      if o = op then some block else (a.op o).block := by
    rw [Arena.append, op_modifyOp_of_lt (by simpa using hop)]
    split <;> rfl
  -- an operation of a block was there before, or it is the new one
  have hcases {b : BlockId} {o : OpId} (ho : o ∈ ((a.append block op).block b).ops) :
      o ∈ (a.block b).ops ∨ b = block ∧ o = op := by
    rw [hops] at ho
    split at ho
    · rename_i hb
      exact (List.mem_append.1 ho).imp_right fun ho => ⟨hb, List.mem_singleton.1 ho⟩
    · exact .inl ho
  refine ⟨fun b => ?_, fun {b} hlive o ho next hnext => ?_, fun {b s} hpred o ho next hk => ?_,
    fun {b s} hpred => ?_, fun b o ho => ?_⟩
  · rw [hops]
    simp only [hkind]
    split
    · rename_i hb
      subst hb
      refine List.pairwise_append.2 ⟨h.ends b, List.pairwise_singleton _ _, ?_⟩
      exact fun o ho _ _ => hgoes o ho
    · exact h.ends b
  · rw [hdead] at hlive
    rw [hdead, hpreds]
    rw [hkind] at hnext
    obtain ho | ⟨rfl, rfl⟩ := hcases ho
    · exact h.edges hlive o ho next hnext
    · exact htargets hlive next hnext
  · rw [hpreds] at hpred
    rw [hkind] at hk
    obtain ho | ⟨rfl, rfl⟩ := hcases ho
    · exact h.jumps hpred o ho next hk
    · exact hjump next hk b hpred
  · rw [show (a.append block op).blocks.size = a.blocks.size by simp [Arena.append]]
    rw [hpreds] at hpred
    exact h.known hpred
  · rw [members, hphis] at ho
    have hold : o ∈ a.members b ∨ b = block ∧ o = op :=
      (List.mem_append.1 ho).elim (fun ho => .inl (List.mem_append_left _ ho)) fun ho =>
        (hcases ho).imp_left (List.mem_append_right _)
    rw [hplace]
    obtain hmem | ⟨rfl, rfl⟩ := hold
    · split
      · rename_i heq
        subst heq
        exact absurd hmem (h.notMem_members hnew b)
      · exact h.placed b o hmem
    · rw [if_pos rfl]

/-- φ operations that are not touched stay complete if control flow is well formed. -/
theorem Wired.shaped (h : a.Shaped) (h' : a'.Wired)
    (hpreds : ∀ block, (a'.block block).preds = (a.block block).preds)
    (hdead : ∀ b : BlockId, b.index < a.blocks.size → (a'.block b).dead = (a.block b).dead)
    (hphis : ∀ block, ∀ phi ∈ (a'.block block).phis,
      phi ∈ (a.block block).phis ∧ (a'.op phi).kind = (a.op phi).kind ∨ a'.Merged block phi) :
    a'.Shaped := by
  refine ⟨h', fun block phi hphi => ?_⟩
  rcases hphis block phi hphi with ⟨hold, hkind⟩ | hmerged
  · obtain ⟨vars, result, hk, hlength⟩ := h.merged block phi hold
    refine ⟨vars, result, hkind.trans hk, ?_⟩
    rw [h.livePreds_eq (hpreds block) hdead]
    exact hlength
  · exact hmerged

theorem Shaped.append (h : a.Shaped) {block : BlockId} {op : OpId}
    (h' : (a.append block op).Wired) : (a.append block op).Shaped :=
  h'.shaped h (block_append_keep Block.preds (fun _ _ => rfl) block op)
    (fun b _ => block_append_keep Block.dead (fun _ _ => rfl) block op b) fun b phi hphi => by
      rw [block_append_keep Block.phis fun _ _ => rfl] at hphi
      exact .inl ⟨hphi, op_modifyOp_keep _ Op.kind _ _ fun _ => rfl⟩

/-! ## φ operations -/

/-- A φ operation that stands in no block is put into one. -/
theorem Wired.attachPhi (h : a.Wired) {block : BlockId} {phi : OpId}
    (hblock : block.index < a.blocks.size) (hphi : phi.index < a.ops.size)
    (hnew : (a.op phi).block = none) : (a.attachPhi block phi).Wired := by
  have hkeep {β : Type} (get : Block → β) (hget : ∀ b phis, get { b with phis } = get b)
      (b : BlockId) : get ((a.attachPhi block phi).block b) = get (a.block b) :=
    block_modifyBlock_keep a get block b fun b => hget b _
  refine h.thin (by simp [Arena.attachPhi]) (fun b => ?_) (hkeep Block.preds fun _ _ => rfl)
    (fun b _ => hkeep Block.dead (fun _ _ => rfl) b) (fun b op _ => ?_) fun b op hop => ?_
  · exact hkeep Block.ops (fun _ _ => rfl) b ▸ List.Sublist.refl _
  · rw [show ((a.attachPhi block phi).op op).kind = (a.op op).kind from
      op_modifyOp_keep _ Op.kind _ _ fun _ => rfl]
    exact .refl _
  · have hplace : ((a.attachPhi block phi).op op).block =
        if op = phi then some block else (a.op op).block := by
      rw [Arena.attachPhi, op_modifyOp_of_lt (by simpa using hphi)]
      split <;> rfl
    have hold : op ∈ a.members b ∨ b = block ∧ op = phi := by
      rw [members, hkeep Block.ops fun _ _ => rfl, List.mem_append] at hop
      rw [members, List.mem_append]
      rcases hop with hop | hop
      · rw [Arena.attachPhi, block_modifyOp, block_modifyBlock_of_lt hblock] at hop
        split at hop
        · rename_i hb
          exact (mem_addNew.1 hop).imp .inl fun heq => ⟨hb, heq⟩
        · exact .inl (.inl hop)
      · exact .inl (.inr hop)
    rw [hplace]
    obtain hmem | ⟨rfl, rfl⟩ := hold
    · split
      · rename_i heq
        subst heq
        exact absurd hmem (h.notMem_members hnew b)
      · exact h.placed b op hmem
    · rw [if_pos rfl]

/-- A φ operation with an operand for each live predecessor is put into a block. -/
theorem Shaped.attachPhi (h : a.Shaped) {block : BlockId} {phi : OpId}
    (hblock : block.index < a.blocks.size) (hphi : phi.index < a.ops.size)
    (hnew : (a.op phi).block = none) (hmerged : a.Merged block phi) :
    (a.attachPhi block phi).Shaped := by
  have hpreds (b : BlockId) : ((a.attachPhi block phi).block b).preds = (a.block b).preds :=
    block_modifyBlock_keep a Block.preds block b fun _ => rfl
  have hdead (b : BlockId) : ((a.attachPhi block phi).block b).dead = (a.block b).dead :=
    block_modifyBlock_keep a Block.dead block b fun _ => rfl
  have hkind (op : OpId) : ((a.attachPhi block phi).op op).kind = (a.op op).kind :=
    op_modifyOp_keep _ Op.kind _ _ fun _ => rfl
  refine (h.toWired.attachPhi hblock hphi hnew).shaped h hpreds (fun b _ => hdead b)
    fun b op hop => ?_
  rw [Arena.attachPhi, block_modifyOp, block_modifyBlock_of_lt hblock] at hop
  split at hop
  · rename_i hb
    rcases mem_addNew.1 hop with hop | rfl
    · exact .inl ⟨hop, hkind op⟩
    · right
      obtain ⟨vars, result, hk, hlength⟩ := hmerged
      refine ⟨vars, result, (hkind op).trans hk, ?_⟩
      rw [hb, h.livePreds_eq (hpreds block) fun b _ => hdead b]
      exact hlength
  · exact .inl ⟨hop, hkind op⟩

end Arena

end QueryTaint
