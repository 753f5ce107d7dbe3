import QueryTaint.Proofs.Flow.Complete

/-!
# What searching for versions changes

When a body is complete, versions of variables are looked for in the predecessors of blocks. That
makes φ operations and gives them operands. All else stays what it is (`Refilled`): the operations
of blocks and their predecessors, and what operands are. A search leaves the φ operations alone that
were there before it (`Adds`), and the bindings of other variables (`Seeks`).
-/

namespace QueryTaint.Lower

/-- An operation stays what it is, but a φ operation may get other operands. -/
def Refills (kind kind' : OpKind) : Prop :=
  kind' = kind ∨ ∃ vars vars' result, kind = .phi vars result ∧ kind' = .phi vars' result

theorem Refills.refl (kind : OpKind) : Refills kind kind := .inl rfl

theorem Refills.trans {k k' k'' : OpKind} (h : Refills k k') (h' : Refills k' k'') :
    Refills k k'' := by
  rcases h with rfl | ⟨vars, vars', result, hk, hk'⟩
  · exact h'
  · rcases h' with rfl | ⟨w, w', result', hw, hw'⟩
    · exact .inr ⟨vars, vars', result, hk, hk'⟩
    · cases hk'.symm.trans hw
      exact .inr ⟨vars, w', result, hk, hw'⟩

/-- A φ operation keeps its result. -/
theorem Refills.phi {kind kind' : OpKind} (h : Refills kind kind') {vars : List OperandId}
    {result : OperandId} (hk : kind = .phi vars result) : ∃ vars', kind' = .phi vars' result := by
  rcases h with rfl | ⟨w, w', result', hw, hw'⟩
  · exact ⟨vars, hk⟩
  · cases hk.symm.trans hw
    exact ⟨w', hw'⟩

theorem Refills.of_phi {kind kind' : OpKind} (h : Refills kind kind') {vars : List OperandId}
    {result : OperandId} (hk : kind' = .phi vars result) : ∃ vars', kind = .phi vars' result := by
  rcases h with rfl | ⟨w, w', result', hw, hw'⟩
  · exact ⟨vars, hk⟩
  · cases hk.symm.trans hw'
    exact ⟨w, hw⟩

/-- Any other operation stays what it is. -/
theorem Refills.eq {kind kind' : OpKind} (h : Refills kind kind')
    (hk : ∀ vars result, kind ≠ .phi vars result) : kind' = kind := by
  rcases h with rfl | ⟨vars, -, result, hphi, -⟩
  · rfl
  · exact absurd hphi (hk vars result)

/-- Nothing changes but that φ operations are made and get operands. -/
structure Refilled (a a' : Arena) : Prop where
  operands : a.operands.size ≤ a'.operands.size
  kind : ∀ x : OperandId, x.index < a.operands.size →
    (a'.operand x).kind = (a.operand x).kind
  ops : a.ops.size ≤ a'.ops.size
  op : ∀ o : OpId, o.index < a.ops.size → Refills (a.op o).kind (a'.op o).kind
  size : a'.blocks.size = a.blocks.size
  listed : ∀ block, (a'.block block).ops = (a.block block).ops
  preds : ∀ block, (a'.block block).preds = (a.block block).preds
  dead : ∀ block, (a'.block block).dead = (a.block block).dead
  phis : ∀ block, (a.block block).phis ⊆ (a'.block block).phis

namespace Refilled

variable {a a' a'' : Arena}

theorem refl (a : Arena) : Refilled a a where
  operands := Nat.le_refl _
  kind _ _ := rfl
  ops := Nat.le_refl _
  op _ _ := .refl _
  size := rfl
  listed _ := rfl
  preds _ := rfl
  dead _ := rfl
  phis _ := List.Subset.refl _

theorem trans (h : Refilled a a') (h' : Refilled a' a'') : Refilled a a'' where
  operands := Nat.le_trans h.operands h'.operands
  kind x hx := (h'.kind x (Nat.lt_of_lt_of_le hx h.operands)).trans (h.kind x hx)
  ops := Nat.le_trans h.ops h'.ops
  op o ho := (h.op o ho).trans (h'.op o (Nat.lt_of_lt_of_le ho h.ops))
  size := h'.size.trans h.size
  listed block := (h'.listed block).trans (h.listed block)
  preds block := (h'.preds block).trans (h.preds block)
  dead block := (h'.dead block).trans (h.dead block)
  phis block := List.Subset.trans (h.phis block) (h'.phis block)

theorem livePreds (h : Refilled a a') (block : BlockId) :
    a'.livePreds block = a.livePreds block := by
  unfold Arena.livePreds
  rw [h.preds]
  exact List.filter_congr fun source _ => by rw [h.dead]

theorem isTemporary (h : Refilled a a') {x : OperandId} (hx : x.index < a.operands.size) :
    (a'.operand x).kind.isTemporary = (a.operand x).kind.isTemporary := by
  rw [h.kind x hx]

/-- A φ operation is put into a block. -/
theorem attachPhi (a : Arena) (block : BlockId) (phi : OpId) :
    Refilled a (a.attachPhi block phi) where
  operands := Nat.le_refl _
  kind _ _ := rfl
  ops := Nat.le_of_eq (Arena.size_ops_modifyOp ..).symm
  op o _ := .inl (kind_attachPhi a block phi o)
  size := Arena.size_blocks_modifyBlock ..
  listed := block_attachPhi_keep Block.ops (fun _ _ => rfl) block phi
  preds := block_attachPhi_keep Block.preds (fun _ _ => rfl) block phi
  dead := block_attachPhi_keep Block.dead (fun _ _ => rfl) block phi
  phis other := by
    rw [Arena.attachPhi, Arena.block_modifyOp, Arena.block_modifyBlock]
    split
    · exact fun x hx => mem_addNew.2 (.inl hx)
    · exact List.Subset.refl _

end Refilled

/-- Whether a search in a block goes on in its only predecessor. -/
def passes (a : Arena) (block : BlockId) : Bool :=
  (a.block block).preds.length = 1 && (a.livePreds block).length = 1

theorem Refilled.passes {a a' : Arena} (h : Refilled a a') (block : BlockId) :
    passes a' block = Lower.passes a block := by
  rw [Lower.passes, Lower.passes, h.preds, h.livePreds]

/-- Operations that are kept stay what they are, and the φ operations that are put into blocks are
new, each with a new result, and stand where predecessors are joined. -/
structure Adds (K : OpId → Prop) (a a' : Arena) : Prop extends Refilled a a' where
  keeps : ∀ o : OpId, o.index < a.ops.size → K o → (a'.op o).kind = (a.op o).kind
  made : ∀ block, ∀ phi ∈ (a'.block block).phis, phi ∈ (a.block block).phis ∨
    Lower.passes a block = false ∧ phi.index < a'.ops.size ∧
      ∀ vars result, (a'.op phi).kind = .phi vars result →
        a.operands.size ≤ result.index ∧ result.index < a'.operands.size

namespace Adds

variable {K K' : OpId → Prop} {a a' a'' : Arena}

theorem refl (K : OpId → Prop) (a : Arena) : Adds K a a :=
  ⟨.refl a, fun _ _ _ => rfl, fun _ _ => .inl⟩

theorem trans (h : Adds K a a') (h' : Adds K' a' a'')
    (hK : ∀ o : OpId, o.index < a.ops.size → K o → K' o) : Adds K a a'' where
  toRefilled := h.toRefilled.trans h'.toRefilled
  keeps o ho hk :=
    (h'.keeps o (Nat.lt_of_lt_of_le ho h.ops) (hK o ho hk)).trans (h.keeps o ho hk)
  made block phi hphi := by
    rcases h'.made block phi hphi with hphi | ⟨hpasses, hlt, hresult⟩
    · refine (h.made block phi hphi).imp_right ?_
      rintro ⟨hpasses, hlt, hresult⟩
      refine ⟨hpasses, Nat.lt_of_lt_of_le hlt h'.ops, fun vars result hkind => ?_⟩
      obtain ⟨vars', hkind'⟩ := (h'.op phi hlt).of_phi hkind
      obtain ⟨hge, hlt⟩ := hresult vars' result hkind'
      exact ⟨hge, Nat.lt_of_lt_of_le hlt h'.operands⟩
    · rw [h.toRefilled.passes] at hpasses
      exact .inr ⟨hpasses, hlt, fun vars result hkind =>
        (hresult vars result hkind).imp_left (Nat.le_trans h.operands)⟩

theorem mono (h : Adds K a a') (hK : ∀ o, K' o → K o) : Adds K' a a' :=
  { h with keeps := fun o ho hk => h.keeps o ho (hK o hk) }

/-- A change that leaves control flow alone, makes no block and keeps what operands are. -/
theorem of_calm (h : Calm a a') (hsize : a'.blocks.size = a.blocks.size)
    (hoperands : a.operands.size ≤ a'.operands.size)
    (hkind : ∀ x : OperandId, x.index < a.operands.size →
      (a'.operand x).kind = (a.operand x).kind) : Adds K a a' where
  operands := hoperands
  kind := hkind
  ops := h.ops
  op o ho := .inl (by rw [h.op o ho])
  size := hsize
  listed := h.blocks.ops
  preds := h.blocks.preds
  dead block := by
    rcases Nat.lt_or_ge block.index a.blocks.size with hlt | hge
    · exact h.blocks.dead block hlt
    · rw [Arena.block_of_le a hge, Arena.block_of_le a' (hsize ▸ hge)]
  phis block := by
    rw [h.blocks.phis]
    exact List.Subset.refl _
  keeps o ho _ := by rw [h.op o ho]
  made block phi hphi := by
    rw [h.blocks.phis] at hphi
    exact .inl hphi

theorem newOperand (a : Arena) (kind : OperandKind) : Adds K a (a.newOperand kind).2 := by
  refine of_calm (.newOperand a kind) rfl ?_ fun x hx => ?_
  · rw [show (a.newOperand kind).2.operands.size = a.operands.size + 1 from Array.size_push ..]
    exact Nat.le_succ _
  · rw [Arena.operand_newOperand, if_neg (Nat.ne_of_lt hx)]

theorem addOp (a : Arena) (kind : OpKind) (span : Span) : Adds K a (a.addOp kind span).2 := by
  refine of_calm (.addOp a kind span) rfl ?_ fun x hx => ?_
  · exact Nat.le_of_eq (Arena.size_foldl_recordSlot ..).symm
  · rw [Arena.operand_addOp _ _ _ _ hx, Operand.kind_note]

theorem modifyOperand (a : Arena) (id : OperandId) {f : Operand → Operand}
    (hf : ∀ o, (f o).kind = o.kind) : Adds K a (a.modifyOperand id f) :=
  of_calm (.modifyOperand a id f) rfl (Nat.le_of_eq (Arena.size_operands_modifyOperand ..).symm)
    fun x _ => Arena.operand_modifyOperand_keep a Operand.kind id x hf

/-- A new φ operation is put into a block where predecessors are joined. -/
theorem attachPhi (h : Adds K a a') {block : BlockId} {phi : OpId} {vars : List OperandId}
    {result : OperandId} (hpasses : Lower.passes a block = false)
    (hlt : phi.index < a'.ops.size) (hkind : (a'.op phi).kind = .phi vars result)
    (hnew : a.operands.size ≤ result.index) (hresult : result.index < a'.operands.size) :
    Adds K a (a'.attachPhi block phi) where
  toRefilled := h.toRefilled.trans (.attachPhi a' block phi)
  keeps o ho hk := (kind_attachPhi a' block phi o).trans (h.keeps o ho hk)
  made other o ho := by
    have hsize : (a'.attachPhi block phi).ops.size = a'.ops.size := Arena.size_ops_modifyOp ..
    rw [hsize, kind_attachPhi]
    rw [Arena.attachPhi, Arena.block_modifyOp, Arena.block_modifyBlock] at ho
    split at ho
    · rename_i heq
      obtain rfl : other = block := BlockId.ext_iff'.1 (by rw [heq.1])
      rcases mem_addNew.1 ho with ho | rfl
      · exact h.made other o ho
      · refine .inr ⟨hpasses, hlt, fun vars' result' hkind' => ?_⟩
        cases hkind.symm.trans hkind'
        exact ⟨hnew, hresult⟩
    · exact h.made other o ho

/-- A φ operation gets an operand. -/
theorem addPhiOperand (a : Arena) {phi : OpId} {vars : List OperandId} {result : OperandId}
    (hkind : (a.op phi).kind = .phi vars result) (x : OperandId) :
    Adds (· ≠ phi) a (a.addPhiOperand phi x) := by
  have hfill : Adds (· ≠ phi) a
      (a.modifyOp phi fun o => { o with kind := .phi (vars ++ [x]) result }) := by
    refine ⟨⟨Nat.le_refl _, fun _ _ => rfl, ?_, fun o _ => ?_, rfl, fun _ => rfl, fun _ => rfl,
      fun _ => rfl, fun _ => List.Subset.refl _⟩, fun o _ hne => ?_, fun _ _ => .inl⟩
    · exact Nat.le_of_eq (Arena.size_ops_modifyOp ..).symm
    · rw [Arena.op_modifyOp]
      split
      · rename_i heq
        obtain rfl : phi = o := heq.1
        exact .inr ⟨vars, _, result, hkind, rfl⟩
      · exact .refl _
    · rw [Arena.op_modifyOp, if_neg fun hc => hne hc.1.symm]
  rw [Arena.addPhiOperand, hkind]
  exact hfill.trans (.modifyOperand _ x fun _ => rfl) fun _ _ => id

end Adds

/-! ## Searches -/

variable {K K' : OpId → Prop} {b b' b'' : Builder} {name : String}

/-- A step of looking for versions of a variable: it adds φ operations, and binds the variable and no
other one. -/
structure Seeks (name : String) (K : OpId → Prop) (b b' : Builder) : Prop where
  arena : Adds K b.arena b'.arena
  complete : b'.scope.complete = b.scope.complete
  reads : b'.reads = b.reads
  others : ∀ block n, n ≠ name → b'.scope.lookup block n = b.scope.lookup block n

theorem Seeks.refl (b : Builder) : Seeks name K b b := ⟨.refl K b.arena, rfl, rfl, fun _ _ _ => rfl⟩

theorem Seeks.trans (h : Seeks name K b b') (h' : Seeks name K' b' b'')
    (hK : ∀ o : OpId, o.index < b.arena.ops.size → K o → K' o) : Seeks name K b b'' where
  arena := h.arena.trans h'.arena hK
  complete := h'.complete.trans h.complete
  reads := h'.reads.trans h.reads
  others block n hn := (h'.others block n hn).trans (h.others block n hn)

theorem Seeks.mono (h : Seeks name K b b') (hK : ∀ o, K' o → K o) : Seeks name K' b b' :=
  { h with arena := h.arena.mono hK }

theorem Seeks.of_arena {a : Arena} (h : Adds K b.arena a) :
    Seeks name K b { b with arena := a } :=
  ⟨h, rfl, rfl, fun _ _ _ => rfl⟩

theorem bindIn_seeks (block : BlockId) (name : String) (value : OperandId) (b : Builder) :
    Gives (bindIn block name value) b fun _ b' => Seeks name K b b' :=
  ⟨.refl K b.arena, rfl, rfl, fun other n hn =>
    (Scope.lookup_bind b.scope block other name n value).trans (if_neg fun hc => hn hc.2)⟩

/-- A φ operation without operands and its result, which is a new version of a variable. -/
structure FreshPhi (b b' : Builder) (result : OperandId) (phi : OpId) : Prop where
  scope : b'.scope = b.scope
  phis : ∀ block, (b'.arena.block block).phis = (b.arena.block block).phis
  new : b.arena.ops.size ≤ phi.index
  lt : phi.index < b'.arena.ops.size
  kind : (b'.arena.op phi).kind = .phi [] result
  newResult : b.arena.operands.size ≤ result.index
  ltResult : result.index < b'.arena.operands.size
  temporary : (b'.arena.operand result).kind.isTemporary = true

theorem newPhi_seeks (name : String) (b : Builder) :
    Gives (newPhi name) b fun made b' => Seeks name K b b' ∧ FreshPhi b b' made.1 made.2 := by
  have hmade := newPhi_makes name b
  -- the three operands and the operation are made one after the other
  generalize hvar : (b.arena.newOperand (.string name)).2 = a₁
  generalize hversion : (a₁.newOperand (.variable ⟨b.arena.operands.size⟩ none)).2 = a₂
  generalize hresult : (a₂.newOperand (.temporary (some ⟨a₁.operands.size⟩))).2 = a₃
  have h₁ : Adds K b.arena a₁ := hvar ▸ .newOperand b.arena _
  have h₂ : Adds K b.arena a₂ := h₁.trans (hversion ▸ .newOperand a₁ _) fun _ _ => id
  have h₃ : Adds K b.arena a₃ := h₂.trans (hresult ▸ .newOperand a₂ _) fun _ _ => id
  have hsize : a₃.operands.size = a₂.operands.size + 1 := hresult ▸ Array.size_push ..
  have hlt : a₂.operands.size < a₃.operands.size := hsize ▸ Nat.lt_succ_self _
  have hkind : (a₃.operand ⟨a₂.operands.size⟩).kind = .temporary (some ⟨a₁.operands.size⟩) := by
    rw [← hresult, Arena.operand_newOperand, if_pos rfl]
  have hop : Adds K a₃ (a₃.addOp (.phi [] ⟨a₂.operands.size⟩) .none).2 := .addOp a₃ _ _
  have hrun : (newPhi name).run b = ((⟨a₂.operands.size⟩, ⟨a₃.ops.size⟩),
      { b with arena := (a₃.addOp (.phi [] ⟨a₂.operands.size⟩) .none).2 }) := by
    subst hresult hversion hvar
    rfl
  rw [Gives, hrun] at hmade ⊢
  dsimp only at hmade ⊢
  obtain ⟨hidle, hindex, hltOp, hphi⟩ := hmade
  refine ⟨.of_arena (h₃.trans hop fun _ _ => id), rfl, hidle.arena.blocks.phis, Nat.le_of_eq hindex.symm, hltOp, ?_,
    h₂.operands, Nat.lt_of_lt_of_le hlt hop.operands, ?_⟩
  · rw [hphi]
  · rw [hop.kind ⟨a₂.operands.size⟩ hlt, hkind]
    rfl

theorem readInput_seeks (tag : String) (block : BlockId) (b : Builder) :
    Gives (readInput tag block) b fun _ b' => Seeks name K b b' := by
  have hfunc : Adds K b.arena (b.arena.modifyFunc b.func fun f => { f with readsInput := true }) :=
    .of_calm (.modifyFunc _ _ fun _ => rfl) rfl (Nat.le_refl _) fun _ _ => rfl
  have hblock (a : Arena) : Adds K a (a.modifyBlock block fun b => { b with readsInput := true }) :=
    .of_calm (.modifyBlock _ _ fun _ => rfl) (Arena.size_blocks_modifyBlock ..) (Nat.le_refl _)
      fun _ _ => rfl
  have h₁ := hfunc.trans (hblock _) fun _ _ => id
  have h₂ := h₁.trans (.newOperand _ (.symbolic tag)) fun _ _ => id
  exact .of_arena (h₂.trans (.modifyOperand _ _ fun _ => rfl) fun _ _ => id)

/-- A search for versions of a variable, whatever it finds. -/
def Searching (name : String) (read : BlockId → Build OperandId) : Prop :=
  ∀ block b, b.scope.complete = true →
    Gives (read block) b fun _ b' => Seeks name (fun _ => True) b b'

/-- A φ operation gets the operands that are found in some blocks. -/
theorem addIncoming_seeks {read : BlockId → Build OperandId} (hread : Searching name read)
    {phi : OpId} {preds : List BlockId} (hcomplete : b.scope.complete = true)
    (hlt : phi.index < b.arena.ops.size)
    (hkind : ∃ vars result, (b.arena.op phi).kind = .phi vars result) :
    Gives (addIncoming phi read preds) b fun _ b' => Seeks name (· ≠ phi) b b' := by
  induction preds generalizing b with
  | nil => exact .refl b
  | cons pred rest ih =>
    refine Gives.bind (hread pred b hcomplete) fun incoming b₁ h₁ => ?_
    obtain ⟨vars, result, hkind⟩ := hkind
    have hkind₁ := (h₁.arena.keeps phi hlt trivial).trans hkind
    have hadd := Adds.addPhiOperand b₁.arena hkind₁ incoming
    refine Gives.bind (P := fun _ b₂ => b₂ = { b₁ with
      arena := b₁.arena.addPhiOperand phi incoming }) rfl ?_
    rintro _ _ rfl
    have hlt₁ := Nat.lt_of_lt_of_le hlt h₁.arena.ops
    have h₂ : Seeks name (· ≠ phi) b { b₁ with arena := b₁.arena.addPhiOperand phi incoming } :=
      (h₁.mono fun _ _ => trivial).trans (.of_arena hadd) fun _ _ => id
    refine (ih (h₂.complete.trans hcomplete) (Nat.lt_of_lt_of_le hlt h₂.arena.ops) ?_).mono
      fun _ b₃ h₃ => h₂.trans h₃ fun _ _ => id
    obtain ⟨vars', hkind'⟩ := (hadd.op phi hlt₁).phi hkind₁
    exact ⟨vars', result, hkind'⟩

theorem readWithin_seeks (name : String) (steps : Nat) : Searching name (readWithin name steps) := by
  induction steps with
  | zero =>
    intro block b _
    exact Gives.bind (newPhi_seeks name b) fun made b₁ h₁ => h₁.1
  | succ steps ih =>
    intro block b hcomplete
    rw [readWithin]
    refine Gives.get ?_
    split
    · exact .refl b
    split
    · exact readInput_seeks _ block b
    refine Gives.get ?_
    rw [if_pos hcomplete]
    refine Gives.look (Gives.look ?_)
    split
    · refine Gives.bind (ih _ b hcomplete) fun value b₁ h₁ => ?_
      exact (bindIn_seeks block name value b₁).mono fun _ b₂ h₂ => h₁.trans h₂ fun _ _ => id
    · rename_i hpasses
      refine Gives.bind (newPhi_seeks (K := fun _ => True) name b) ?_
      rintro ⟨value, phi⟩ b₁ ⟨h₁, hphi⟩
      have hattach := h₁.arena.attachPhi (Bool.not_eq_true _ ▸ hpasses) hphi.lt hphi.kind
        hphi.newResult hphi.ltResult
      refine Gives.bind (P := fun _ b₂ => b₂ = { b₁ with
        arena := b₁.arena.attachPhi block phi }) rfl ?_
      rintro _ _ rfl
      have h₂ : Seeks name (fun _ => True) b { b₁ with arena := b₁.arena.attachPhi block phi } :=
        ⟨hattach, h₁.complete, h₁.reads, h₁.others⟩
      refine Gives.bind (P := fun _ b₃ => Seeks name (fun _ => True) b b₃ ∧
        b₃.arena = b₁.arena.attachPhi block phi) ?_ ?_
      · exact ⟨h₂.trans (bindIn_seeks block name value _) fun _ _ => id, rfl⟩
      rintro _ b₃ ⟨h₃, harena⟩
      have hlt₃ : phi.index < b₃.arena.ops.size := by
        rw [harena, show (b₁.arena.attachPhi block phi).ops.size = _ from
          Arena.size_ops_modifyOp ..]
        exact hphi.lt
      have hkind₃ : (b₃.arena.op phi).kind = .phi [] value := by
        rw [harena, kind_attachPhi]
        exact hphi.kind
      refine Gives.bind (addIncoming_seeks ih (h₃.complete.trans hcomplete) hlt₃
        ⟨_, _, hkind₃⟩) fun _ b₄ h₄ => ?_
      refine h₃.trans h₄ fun o ho _ heq => ?_
      exact Nat.not_lt.2 hphi.new (heq ▸ ho)

theorem readName_seeks (name : String) : Searching name (readName name) :=
  fun block b hcomplete => Gives.look (readWithin_seeks name _ block b hcomplete)

end QueryTaint.Lower
