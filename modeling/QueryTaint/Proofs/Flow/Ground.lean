import QueryTaint.Proofs.Arena.Shape
import QueryTaint.Proofs.Lower.Step

/-!
# The ground of a body

A body is lowered at a `Site`: an arena that is there before and the block where the body starts. The
blocks of the body are that entry and all blocks that are made later. `Ground` is what holds of the
arena at every moment of lowering the body: blocks of others are left alone, predecessors of the
body's blocks are blocks of the body, first predecessors are in no circle, and, if that was so at the
start, control flow is well formed in the whole arena.

Four kinds of changes are looked at: those that leave control flow alone (`Calm`), recording a
predecessor (`Footing.link`), and placing operations (`Footing.append`, `Footing.attachPhi`).
-/

namespace QueryTaint

/-- What matters of a block for control flow. -/
def Block.shape (b : Block) : List OpId × List OpId × List BlockId × Bool :=
  (b.ops, b.phis, b.preds, b.dead)

namespace Lower

/-! ## Changes that leave control flow alone -/

theorem SameBlocks.trans {a a' a'' : Arena} (h : SameBlocks a a') (h' : SameBlocks a' a'') :
    SameBlocks a a'' where
  size := Nat.le_trans h.size h'.size
  ops block := (h'.ops block).trans (h.ops block)
  phis block := (h'.phis block).trans (h.phis block)
  preds block := (h'.preds block).trans (h.preds block)
  dead block hb := (h'.dead block (Nat.lt_of_lt_of_le hb h.size)).trans (h.dead block hb)

/-- No operation is placed and no predecessor recorded. -/
structure Calm (a a' : Arena) : Prop where
  blocks : SameBlocks a a'
  ops : a.ops.size ≤ a'.ops.size
  op : ∀ op : OpId, op.index < a.ops.size → a'.op op = a.op op
  funcs : a.funcs.size ≤ a'.funcs.size
  entry : ∀ f : FuncId, f.index < a.funcs.size → (a'.func f).entry = (a.func f).entry

namespace Calm

variable {a a' a'' : Arena}

theorem refl (a : Arena) : Calm a a :=
  ⟨.of_blocks rfl, Nat.le_refl _, fun _ _ => rfl, Nat.le_refl _, fun _ _ => rfl⟩

theorem trans (h : Calm a a') (h' : Calm a' a'') : Calm a a'' where
  blocks := h.blocks.trans h'.blocks
  ops := Nat.le_trans h.ops h'.ops
  op op hop := (h'.op op (Nat.lt_of_lt_of_le hop h.ops)).trans (h.op op hop)
  funcs := Nat.le_trans h.funcs h'.funcs
  entry f hf := (h'.entry f (Nat.lt_of_lt_of_le hf h.funcs)).trans (h.entry f hf)

/-- Only operands change. -/
theorem of_operands (hblocks : a'.blocks = a.blocks) (hops : a'.ops = a.ops)
    (hfuncs : a'.funcs = a.funcs) : Calm a a' where
  blocks := .of_blocks hblocks
  ops := Nat.le_of_eq (congrArg Array.size hops.symm)
  op op _ := by rw [Arena.op, Arena.op, hops]
  funcs := Nat.le_of_eq (congrArg Array.size hfuncs.symm)
  entry f _ := by rw [Arena.func, Arena.func, hfuncs]

theorem newOperand (a : Arena) (kind : OperandKind) : Calm a (a.newOperand kind).2 :=
  of_operands rfl rfl rfl

theorem modifyOperand (a : Arena) (id : OperandId) (f : Operand → Operand) :
    Calm a (a.modifyOperand id f) :=
  of_operands rfl rfl rfl

theorem addOp (a : Arena) (kind : OpKind) (span : Span) : Calm a (a.addOp kind span).2 where
  blocks := .of_blocks rfl
  ops := by
    rw [show (a.addOp kind span).2.ops.size = a.ops.size + 1 from Array.size_push ..]
    exact Nat.le_succ _
  op op hop := by rw [Arena.op_addOp, if_neg (Nat.ne_of_lt hop)]
  funcs := Nat.le_refl _
  entry _ _ := rfl

theorem modifyFunc (a : Arena) (func : FuncId) {f : Func → Func} (hf : ∀ r, (f r).entry = r.entry) :
    Calm a (a.modifyFunc func f) where
  blocks := .of_blocks rfl
  ops := Nat.le_refl _
  op _ _ := rfl
  funcs := Nat.le_of_eq (Array.size_modify ..).symm
  entry g _ := by
    have hfunc : (a.modifyFunc func f).func g =
        if func.index = g.index ∧ g.index < a.funcs.size then f (a.func g) else a.func g :=
      getD_modify ..
    rw [hfunc]
    split
    · exact hf _
    · rfl

theorem modifyBlock (a : Arena) (id : BlockId) {f : Block → Block}
    (hf : ∀ b, (f b).shape = b.shape) : Calm a (a.modifyBlock id f) where
  blocks := .of_modify a id fun b => by
    have hb := hf b
    simp only [Block.shape, Prod.mk.injEq] at hb
    exact hb
  ops := Nat.le_refl _
  op _ _ := rfl
  funcs := Nat.le_refl _
  entry _ _ := rfl

theorem addGuard (a : Arena) (block : BlockId) (cond : OperandId) :
    Calm a (a.addGuard block cond) := by
  have hblock : Calm a (a.modifyBlock block fun b =>
      { b with guarded := true, guards := addNew b.guards cond }) :=
    modifyBlock a block fun _ => rfl
  exact hblock.trans (modifyOperand _ cond _)

theorem newBlock (a : Arena) (func : FuncId) : Calm a (a.newBlock (some func)).2 := by
  have hpush : Calm a { a with blocks := (a.newBlock (some func)).2.blocks } :=
    ⟨(sameBlocks_newBlock a func).trans (.of_blocks rfl), Nat.le_refl _, fun _ _ => rfl,
      Nat.le_refl _, fun _ _ => rfl⟩
  exact hpush.trans (modifyFunc _ func fun _ => rfl)

theorem newFunc (a : Arena) (name : String) : Calm a (a.newFunc name).2 where
  blocks := (sameBlocks_newBlock a ⟨a.funcs.size⟩).trans (.of_blocks rfl)
  ops := Nat.le_refl _
  op _ _ := rfl
  funcs := by
    rw [show (a.newFunc name).2.funcs.size = a.funcs.size + 1 from Array.size_push ..]
    exact Nat.le_succ _
  entry f hf := by
    rw [show (a.newFunc name).2.func f = if f.index = a.funcs.size then _ else a.func f from
      getD_push .., if_neg (Nat.ne_of_lt hf)]

theorem wired (h : Calm a a') (ha : a.Wired) : a'.Wired := by
  have hkind {block : BlockId} {op : OpId} (hop : op ∈ a'.members block) :
      op ∈ a.members block ∧ a'.op op = a.op op := by
    rw [Arena.members, h.blocks.ops, h.blocks.phis] at hop
    exact ⟨hop, h.op op (Arena.op_lt_of_block (ha.placed block op hop))⟩
  refine ha.thin h.blocks.size (fun block => ?_) h.blocks.preds h.blocks.dead
    (fun block op hop => ?_) fun block op hop => ?_
  · exact h.blocks.ops block ▸ List.Sublist.refl _
  · rw [(hkind (List.mem_append_right _ hop)).2]
    exact .refl _
  · rw [(hkind hop).2]
    exact ha.placed block op (hkind hop).1

theorem merged (h : Calm a a') (ha : a.Wired) {block : BlockId} {phi : OpId}
    (hphi : phi ∈ (a.block block).phis) (hmerged : a.Merged block phi) : a'.Merged block phi := by
  obtain ⟨vars, result, hkind, hlength⟩ := hmerged
  have hlt := Arena.op_lt_of_block (ha.placed block phi (List.mem_append_left _ hphi))
  refine ⟨vars, result, by rw [h.op phi hlt]; exact hkind, ?_⟩
  rw [ha.livePreds_eq (h.blocks.preds block) h.blocks.dead]
  exact hlength

theorem shaped (h : Calm a a') (ha : a.Shaped) : a'.Shaped := by
  refine ⟨h.wired ha.toWired, fun block phi hphi => ?_⟩
  rw [h.blocks.phis] at hphi
  exact h.merged ha.toWired hphi (ha.merged block phi hphi)

end Calm

/-! ## The site of a body -/

/-- Where a body is lowered: what there was before, the block where the body starts, and whether
control flow was well formed before. -/
structure Site where
  before : Arena
  entry : BlockId
  strict : Prop

namespace Site

variable (S : Site)

/-- A block of the body: the entry, or one that was made later. -/
def Owns (block : BlockId) : Prop := block = S.entry ∨ S.before.blocks.size ≤ block.index

/-- A block of the body that is there. -/
def Holds (a : Arena) (block : BlockId) : Prop := S.Owns block ∧ block.index < a.blocks.size

/-- What there was before is still there, but for the entry. -/
structure Past (a : Arena) : Prop where
  blocks : S.before.blocks.size ≤ a.blocks.size
  shape : ∀ block, ¬S.Owns block → (a.block block).shape = (S.before.block block).shape
  ops : S.before.ops.size ≤ a.ops.size
  op : ∀ op : OpId, op.index < S.before.ops.size → a.op op = S.before.op op
  funcs : S.before.funcs.size ≤ a.funcs.size
  entry : ∀ f : FuncId, f.index < S.before.funcs.size →
    (a.func f).entry = (S.before.func f).entry

end Site

/-- What holds of other blocks and of predecessors while a body is lowered. -/
structure Footing (S : Site) (a : Arena) : Prop where
  apart : S.strict → ∀ block, ¬S.Owns block → ∀ source ∈ (a.block block).preds, ¬S.Owns source
  past : S.Past a
  ranked : a.Ranked S.Owns
  closed : ∀ block, S.Owns block → ∀ source ∈ (a.block block).preds, S.Holds a source

/-- What holds of the arena while a body is lowered. -/
structure Ground (S : Site) (a : Arena) : Prop extends Footing S a where
  shaped : S.strict → a.Shaped

variable {S : Site} {a a' : Arena}

theorem Site.Holds.mono {block : BlockId} (h : S.Holds a block)
    (hsize : a.blocks.size ≤ a'.blocks.size) : S.Holds a' block :=
  ⟨h.1, Nat.lt_of_lt_of_le h.2 hsize⟩

/-- A change of one block of the body. -/
theorem Site.Past.change (h : S.Past a) {block : BlockId} (howns : S.Owns block)
    (hblocks : a'.blocks.size = a.blocks.size) (hops : a'.ops.size = a.ops.size)
    (hshape : ∀ other, other ≠ block → a'.block other = a.block other)
    (hop : ∀ op : OpId, op.index < S.before.ops.size → a'.op op = a.op op)
    (hfuncs : a'.funcs = a.funcs) : S.Past a' where
  blocks := by rw [hblocks]; exact h.blocks
  shape other hother := by
    rw [hshape other fun heq => hother (heq ▸ howns)]
    exact h.shape other hother
  ops := by rw [hops]; exact h.ops
  op op hlt := (hop op hlt).trans (h.op op hlt)
  funcs := by rw [hfuncs]; exact h.funcs
  entry f hf := by
    rw [Arena.func, hfuncs]
    exact h.entry f hf

namespace Footing

/-- Foreign blocks are there already. -/
theorem lt_of_not_owns (h : Footing S a) {block : BlockId} (hblock : ¬S.Owns block) :
    block.index < a.blocks.size :=
  Nat.lt_of_lt_of_le (Nat.lt_of_not_le fun hle => hblock (.inr hle)) h.past.blocks

/-- A change that keeps predecessors. -/
theorem keepPreds (h : Footing S a) (hpast : S.Past a') (hsize : a.blocks.size ≤ a'.blocks.size)
    (hpreds : ∀ block, (a'.block block).preds = (a.block block).preds) : Footing S a' where
  apart hstrict block hblock source hsource := by
    rw [hpreds] at hsource
    exact h.apart hstrict block hblock source hsource
  past := hpast
  ranked := h.ranked.congr hpreds
  closed block hblock source hsource := by
    rw [hpreds] at hsource
    exact (h.closed block hblock source hsource).mono hsize

theorem calm (h : Footing S a) (hc : Calm a a') : Footing S a' := by
  refine h.keepPreds ?_ hc.blocks.size hc.blocks.preds
  exact {
    blocks := Nat.le_trans h.past.blocks hc.blocks.size
    shape := fun block hblock => by
      rw [← h.past.shape block hblock]
      simp only [Block.shape, hc.blocks.ops, hc.blocks.phis, hc.blocks.preds,
        hc.blocks.dead block (h.lt_of_not_owns hblock)]
    ops := Nat.le_trans h.past.ops hc.ops
    op := fun op hop => (hc.op op (Nat.lt_of_lt_of_le hop h.past.ops)).trans (h.past.op op hop)
    funcs := Nat.le_trans h.past.funcs hc.funcs
    entry := fun f hf =>
      (hc.entry f (Nat.lt_of_lt_of_le hf h.past.funcs)).trans (h.past.entry f hf) }

/-- A block of the body gets a predecessor. -/
theorem link (h : Footing S a) {source target : BlockId} (hs : S.Holds a source)
    (ht : S.Holds a target)
    (hfirst : (a.block target).preds = [] →
      target ≠ source ∧ ∀ block, S.Owns block → target ∉ (a.block block).preds) :
    Footing S (a.link source target) where
  apart hstrict block hblock s hsource := by
    have hne : block ≠ target := fun heq => hblock (heq ▸ ht.1)
    rw [Arena.preds_link ht.2, if_neg hne] at hsource
    exact h.apart hstrict block hblock s hsource
  past := h.past.change ht.1 (Arena.size_blocks_modifyBlock ..) rfl
    (fun other hother => by rw [Arena.link, Arena.block_modifyBlock_of_lt ht.2, if_neg hother])
    (fun _ _ => rfl) rfl
  ranked := h.ranked.link ht.2 hfirst
  closed block hblock s hsource := by
    have hsize : a.blocks.size ≤ (a.link source target).blocks.size :=
      Nat.le_of_eq (Arena.size_blocks_modifyBlock ..).symm
    rw [Arena.preds_link ht.2] at hsource
    split at hsource
    · rcases mem_addNew.1 hsource with hsource | rfl
      · exact (h.closed block hblock s hsource).mono hsize
      · exact hs.mono hsize
    · exact (h.closed block hblock s hsource).mono hsize

/-- A new operation is put at the end of a block of the body. -/
theorem append (h : Footing S a) {block : BlockId} {op : OpId} (hblock : S.Holds a block)
    (hnew : S.before.ops.size ≤ op.index) : Footing S (a.append block op) := by
  refine h.keepPreds (h.past.change hblock.1 ?_ ?_ (fun other hother => ?_) (fun o ho => ?_) rfl) ?_
    (Arena.block_append_keep Block.preds (fun _ _ => rfl) block op)
  · exact Arena.size_blocks_modifyBlock ..
  · exact Arena.size_ops_modifyOp ..
  · rw [Arena.append, Arena.block_modifyOp, Arena.block_modifyBlock_of_lt hblock.2, if_neg hother]
  · have hne : op ≠ o := fun heq => Nat.not_lt.2 hnew (heq ▸ ho)
    rw [Arena.append, Arena.op_modifyOp, if_neg fun hc => hne hc.1, Arena.op_modifyBlock]
  · exact Nat.le_of_eq (Arena.size_blocks_modifyBlock ..).symm

/-- A new φ operation is put into a block of the body. -/
theorem attachPhi (h : Footing S a) {block : BlockId} {phi : OpId} (hblock : S.Holds a block)
    (hnew : S.before.ops.size ≤ phi.index) : Footing S (a.attachPhi block phi) := by
  refine h.keepPreds (h.past.change hblock.1 ?_ ?_ (fun other hother => ?_) (fun o ho => ?_) rfl) ?_
    fun other => ?_
  · exact Arena.size_blocks_modifyBlock ..
  · exact Arena.size_ops_modifyOp ..
  · rw [Arena.attachPhi, Arena.block_modifyOp, Arena.block_modifyBlock_of_lt hblock.2,
      if_neg hother]
  · have hne : phi ≠ o := fun heq => Nat.not_lt.2 hnew (heq ▸ ho)
    rw [Arena.attachPhi, Arena.op_modifyOp, if_neg fun hc => hne hc.1, Arena.op_modifyBlock]
  · exact Nat.le_of_eq (Arena.size_blocks_modifyBlock ..).symm
  · exact Arena.block_modifyBlock_keep a Block.preds block other fun _ => rfl

end Footing

namespace Ground

theorem calm (h : Ground S a) (hc : Calm a a') : Ground S a' :=
  ⟨h.toFooting.calm hc, fun hs => hc.shaped (h.shaped hs)⟩

/-- A block of the body gets a predecessor, which goes on yet. -/
theorem link (h : Ground S a) {source target : BlockId} (hs : S.Holds a source)
    (ht : S.Holds a target) (hbare : (a.block target).phis = [])
    (hfirst : (a.block target).preds = [] →
      target ≠ source ∧ ∀ block, S.Owns block → target ∉ (a.block block).preds)
    (hgoes : ∀ op ∈ (a.block source).ops, (a.op op).kind.isTerminator = false) :
    Ground S (a.link source target) :=
  ⟨h.toFooting.link hs ht hfirst, fun hstrict => (h.shaped hstrict).link hs.2 ht.2 hbare hgoes⟩

end Ground

end Lower

end QueryTaint
