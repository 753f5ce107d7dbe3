import QueryTaint.Proofs.Lower.Invariant

/-!
# Steps of lowering

What each way of changing the arena keeps of the invariant, and how steps of lowering are put
together: `Succeeds` says of a step that it does not fail and what holds after it, and `After` is
what holds after every step that lowers a part of a body.
-/

namespace QueryTaint.Lower

variable {F : Base} {D D' : Due} {b b' : Builder}

/-! ## Changes of the arena -/

theorem quiet_arena {a' : Arena} (hg : Grows b.arena a')
    (hops : ∀ block, (a'.block block).ops = (b.arena.block block).ops) :
    Quiet b { b with arena := a' } :=
  ⟨hg, hops, rfl, rfl, rfl, rfl, rfl, rfl, rfl⟩

/-- Blocks stay what they are but for fields that do not matter here. -/
structure SameBlocks (a a' : Arena) : Prop where
  size : a.blocks.size ≤ a'.blocks.size
  ops : ∀ block, (a'.block block).ops = (a.block block).ops
  phis : ∀ block, (a'.block block).phis = (a.block block).phis
  preds : ∀ block, (a'.block block).preds = (a.block block).preds
  dead : ∀ block : BlockId, block.index < a.blocks.size →
    (a'.block block).dead = (a.block block).dead

theorem SameBlocks.of_blocks {a a' : Arena} (h : a'.blocks = a.blocks) : SameBlocks a a' := by
  have hblock : ∀ block, a'.block block = a.block block := by
    intro block
    rw [Arena.block, Arena.block, h]
  refine ⟨?_, ?_, ?_, ?_, ?_⟩
  · exact Nat.le_of_eq (congrArg Array.size h.symm)
  all_goals
    intro block
    rw [hblock]
  exact fun _ => rfl

theorem SameBlocks.of_modify (a : Arena) (id : BlockId) {f : Block → Block}
    (hf : ∀ block, (f block).ops = block.ops ∧ (f block).phis = block.phis ∧
      (f block).preds = block.preds ∧ (f block).dead = block.dead) :
    SameBlocks a (a.modifyBlock id f) := by
  refine ⟨?_, ?_, ?_, ?_, ?_⟩
  · exact Nat.le_of_eq (Arena.size_blocks_modifyBlock ..).symm
  · exact fun block => Arena.block_modifyBlock_keep _ Block.ops _ _ fun b => (hf b).1
  · exact fun block => Arena.block_modifyBlock_keep _ Block.phis _ _ fun b => (hf b).2.1
  · exact fun block => Arena.block_modifyBlock_keep _ Block.preds _ _ fun b => (hf b).2.2.1
  · exact fun block _ => Arena.block_modifyBlock_keep _ Block.dead _ _ fun b => (hf b).2.2.2

theorem SameBlocks.grows {a a' : Arena} (h : SameBlocks a a')
    (hoperands : a.operands.size ≤ a'.operands.size) (hops : a.ops.size ≤ a'.ops.size)
    (hbare : ∀ x : OperandId, x.index < a.operands.size →
      (a'.operand x).kind.bare = (a.operand x).kind.bare)
    (hkind : ∀ op : OpId, op.index < a.ops.size → (a'.op op).kind = (a.op op).kind) :
    Grows a a' where
  operands := hoperands
  ops := hops
  blocks := h.size
  bare := hbare
  kind := hkind
  listed block := h.ops block ▸ List.prefix_rfl
  preds block := by rw [h.preds]; exact List.Subset.refl _
  dead := h.dead

theorem Inv.changeArena (h : Inv F D b) {a' : Arena} (hg : Grows b.arena a')
    (hblocks : SameBlocks b.arena a') (htidy : ∀ x, F.Mine a' x → F.Tidy a' x) :
    Inv F D { b with arena := a' } :=
  h.quiet (quiet_arena hg hblocks.ops) hblocks.phis htidy (hblocks.preds _)

/-- A change of blocks that does not matter. -/
theorem Inv.changeBlocks (h : Inv F D b) (a' : Arena) (hoperands : a'.operands = b.arena.operands)
    (hops : a'.ops = b.arena.ops) (hblocks : SameBlocks b.arena a') :
    Inv F D { b with arena := a' } ∧ Grows b.arena a' := by
  have hoperand : ∀ x, a'.operand x = b.arena.operand x := by
    intro x
    rw [Arena.operand, Arena.operand, hoperands]
  have hop : ∀ op, a'.op op = b.arena.op op := by
    intro op
    rw [Arena.op, Arena.op, hops]
  have hg : Grows b.arena a' := by
    refine hblocks.grows ?_ ?_ ?_ ?_
    · exact Nat.le_of_eq (congrArg Array.size hoperands.symm)
    · exact Nat.le_of_eq (congrArg Array.size hops.symm)
    · intro x _
      rw [hoperand]
    · intro op _
      rw [hop]
  refine ⟨h.changeArena hg hblocks fun x hx => ?_, hg⟩
  have hx : F.Mine b.arena x := by rwa [Base.Mine, ← hoperands]
  exact (h.tidy x hx).grows hg (by rw [hoperand]) (by rw [hoperand]) (by rw [hoperand])

/-- An operand changes, but not what it is. -/
theorem Inv.changeOperand (h : Inv F D b) (id : OperandId) {f : Operand → Operand}
    (hbare : ∀ o, (f o).kind.bare = o.kind.bare)
    (htidy : F.Mine b.arena id → Grows b.arena (b.arena.modifyOperand id f) →
      F.Tidy (b.arena.modifyOperand id f) id) :
    Inv F D { b with arena := b.arena.modifyOperand id f } ∧
      Grows b.arena (b.arena.modifyOperand id f) := by
  have hblocks : SameBlocks b.arena (b.arena.modifyOperand id f) := .of_blocks rfl
  have hg : Grows b.arena (b.arena.modifyOperand id f) := by
    refine hblocks.grows ?_ ?_ ?_ ?_
    · exact Nat.le_of_eq (Arena.size_operands_modifyOperand ..).symm
    · exact Nat.le_refl _
    · exact fun x _ => Arena.operand_modifyOperand_keep _ (fun o => o.kind.bare) _ _ hbare
    · exact fun _ _ => rfl
  refine ⟨h.changeArena hg hblocks fun x hx => ?_, hg⟩
  have hold : F.Mine b.arena x := by rwa [Base.Mine, Arena.size_operands_modifyOperand] at hx
  by_cases hid : x = id
  · subst hid
    exact htidy hold hg
  · have hsame : (b.arena.modifyOperand id f).operand x = b.arena.operand x := by
      rw [Arena.operand_modifyOperand, if_neg fun hc => hid hc.1.symm]
    exact (h.tidy x hold).grows hg (by rw [hsame]) (by rw [hsame]) (by rw [hsame])

/-- An operand is made. -/
theorem Inv.newOperand (h : Inv F D b) {kind : OperandKind}
    (hkind : F.Shaped b.arena ⟨b.arena.operands.size⟩ kind) :
    Inv F D { b with arena := (b.arena.newOperand kind).2 } ∧
      Grows b.arena (b.arena.newOperand kind).2 ∧
      F.Mine (b.arena.newOperand kind).2 ⟨b.arena.operands.size⟩ ∧
      ((b.arena.newOperand kind).2.operand ⟨b.arena.operands.size⟩).kind = kind := by
  have hblocks : SameBlocks b.arena (b.arena.newOperand kind).2 := .of_blocks rfl
  have hsize : (b.arena.newOperand kind).2.operands.size = b.arena.operands.size + 1 :=
    Array.size_push ..
  have hold : ∀ x : OperandId, x.index < b.arena.operands.size →
      (b.arena.newOperand kind).2.operand x = b.arena.operand x := by
    intro x hx
    rw [Arena.operand_newOperand, if_neg (Nat.ne_of_lt hx)]
  have hnew : (b.arena.newOperand kind).2.operand ⟨b.arena.operands.size⟩ = { kind } := by
    rw [Arena.operand_newOperand, if_pos rfl]
  have hg : Grows b.arena (b.arena.newOperand kind).2 := by
    refine hblocks.grows ?_ (Nat.le_refl _) ?_ fun _ _ => rfl
    · rw [hsize]
      exact Nat.le_succ _
    · intro x hx
      rw [hold x hx]
  have hmine : F.Mine (b.arena.newOperand kind).2 ⟨b.arena.operands.size⟩ :=
    ⟨h.operands, by rw [hsize]; exact Nat.lt_succ_self _⟩
  refine ⟨h.changeArena hg hblocks fun x hx => ?_, hg, hmine, by rw [hnew]⟩
  rcases Nat.lt_or_ge x.index b.arena.operands.size with hlt | hge
  · have hsame := hold x hlt
    exact (h.tidy x ⟨hx.1, hlt⟩).grows hg (by rw [hsame]) (by rw [hsame]) (by rw [hsame])
  · have hx : x = ⟨b.arena.operands.size⟩ := by
      have hlt := hx.2
      rw [hsize] at hlt
      exact OperandId.ext_iff'.1 (by simp only; omega)
    rw [hx]
    refine ⟨?_, ?_, ?_⟩ <;> rw [hnew]
    · exact hkind.grows hg
    · exact nofun
    · exact nofun

/-- An operation on operands of the body is made. -/
theorem Inv.addOp (h : Inv F D b) {kind : OpKind} (span : Span)
    (hkind : ∀ sort, ∀ x ∈ kind.mentioned sort, F.Mine b.arena x) :
    Inv F D { b with arena := (b.arena.addOp kind span).2 } ∧
      Grows b.arena (b.arena.addOp kind span).2 ∧
      ((b.arena.addOp kind span).2.op ⟨b.arena.ops.size⟩).kind = kind := by
  have hblocks : SameBlocks b.arena (b.arena.addOp kind span).2 := .of_blocks rfl
  have hsize : (b.arena.addOp kind span).2.operands.size = b.arena.operands.size :=
    Arena.size_foldl_recordSlot ..
  have hops : (b.arena.addOp kind span).2.ops.size = b.arena.ops.size + 1 := Array.size_push ..
  have hnew : ((b.arena.addOp kind span).2.op ⟨b.arena.ops.size⟩).kind = kind := by
    rw [Arena.op_addOp, if_pos rfl]
  have hg : Grows b.arena (b.arena.addOp kind span).2 := by
    refine hblocks.grows ?_ ?_ ?_ ?_
    · exact Nat.le_of_eq hsize.symm
    · rw [hops]
      exact Nat.le_succ _
    · intro x hx
      rw [Arena.operand_addOp _ _ _ _ hx, Operand.kind_note]
    · intro op hop
      rw [Arena.op_addOp, if_neg (Nat.ne_of_lt hop)]
  refine ⟨h.changeArena hg hblocks fun x hx => ?_, hg, hnew⟩
  have hx : F.Mine b.arena x := by rwa [Base.Mine, hsize] at hx
  have htidy := h.tidy x hx
  have hoperand := Arena.operand_addOp b.arena kind span none hx.2
  have hassertions : ((b.arena.addOp kind span).2.operand x).assertions =
      (b.arena.operand x).assertions := by
    rw [hoperand]
    unfold Operand.note
    split <;> split <;> rfl
  refine ⟨?_, ?_, ?_⟩
  · rw [hoperand, Operand.kind_note]
    exact htidy.shaped.grows hg
  · intro op hop
    have hop : op ∈ ((b.arena.addOp kind span).2.operand x).listed true := hop
    rw [hoperand, Operand.mem_listed_note] at hop
    rcases hop with hop | ⟨-, rfl⟩
    · exact (htidy.defs op hop).grows hg
    · refine ⟨by rw [hops]; exact Nat.lt_succ_self _, ?_⟩
      rw [hnew]
      exact fun sort y hy => (hkind sort y hy).grows hg
  · rw [hassertions]
    exact fun s hs => (htidy.asserted s hs).grows hg

/-! ## Putting steps together -/

section Logic

variable {α β : Type} {m : Build α} {x : Lowering α} {P Q : α → Builder → Prop}
  {R : β → Builder → Prop}

/-- What holds of the result of a step that cannot fail and of the builder after it. -/
def Gives (m : Build α) (b : Builder) (Q : α → Builder → Prop) : Prop :=
  Q (m.run b).1 (m.run b).2

/-- A step does not fail, and something holds of its result and of the builder after it. -/
def Succeeds (x : Lowering α) (b : Builder) (Q : α → Builder → Prop) : Prop :=
  ∃ y b', x.run.run b = (.ok y, b') ∧ Q y b'

theorem Gives.bind {f : α → Build β} (hm : Gives m b P)
    (hf : ∀ y b', P y b' → Gives (f y) b' R) : Gives (m >>= f) b R :=
  hf _ _ hm

theorem Gives.pure {y : α} (h : Q y b) : Gives (pure y) b Q := h

theorem Gives.mono (h : Gives m b P) (hPQ : ∀ y b', P y b' → Q y b') : Gives m b Q := hPQ _ _ h

theorem Gives.and (h : Gives m b P) (h' : Gives m b Q) : Gives m b fun y b' => P y b' ∧ Q y b' :=
  ⟨h, h'⟩

/-- A step that fails leaves out the steps after it. -/
theorem run_bind_of_ok {b' : Builder} {y : α} (h : x.run.run b = (.ok y, b'))
    (f : α → Lowering β) : (x >>= f).run.run b = (f y).run.run b' := by
  rw [ExceptT.run_bind, StateT.run_bind, h]
  rfl

theorem run_bind_of_error {b' : Builder} {e : Error} (h : x.run.run b = (.error e, b'))
    (f : α → Lowering β) : (x >>= f).run.run b = (.error e, b') := by
  rw [ExceptT.run_bind, StateT.run_bind, h]
  rfl

/-- Both of two steps succeed if they succeed one after the other. -/
theorem exists_of_run_bind {f : α → Lowering β} {b' : Builder} {z : β}
    (h : (x >>= f).run.run b = (.ok z, b')) :
    ∃ y b₁, x.run.run b = (.ok y, b₁) ∧ (f y).run.run b₁ = (.ok z, b') := by
  rcases hx : x.run.run b with ⟨e | y, b₁⟩
  · rw [run_bind_of_error hx] at h
    cases h
  · exact ⟨y, b₁, rfl, (run_bind_of_ok hx f).symm.trans h⟩

/-- The first or the second of two steps fails if they fail one after the other. -/
theorem error_of_run_bind {f : α → Lowering β} {b' : Builder} {e : Error}
    (h : (x >>= f).run.run b = (.error e, b')) : x.run.run b = (.error e, b') ∨
      ∃ y b₁, x.run.run b = (.ok y, b₁) ∧ (f y).run.run b₁ = (.error e, b') := by
  rcases hx : x.run.run b with ⟨e' | y, b₁⟩
  · cases (run_bind_of_error hx f).symm.trans h
    exact .inl rfl
  · exact .inr ⟨y, b₁, rfl, (run_bind_of_ok hx f).symm.trans h⟩

theorem Succeeds.bind {f : α → Lowering β} (hx : Succeeds x b P)
    (hf : ∀ y b', P y b' → Succeeds (f y) b' R) : Succeeds (x >>= f) b R := by
  obtain ⟨y, b₁, hrun, hy⟩ := hx
  obtain ⟨z, b₂, hrun', hz⟩ := hf y b₁ hy
  exact ⟨z, b₂, (run_bind_of_ok hrun f).trans hrun', hz⟩

theorem Succeeds.pure {y : α} (h : Q y b) : Succeeds (pure y) b Q := ⟨y, b, rfl, h⟩

theorem Succeeds.mono (h : Succeeds x b P) (hPQ : ∀ y b', P y b' → Q y b') : Succeeds x b Q := by
  obtain ⟨y, b', hrun, hy⟩ := h
  exact ⟨y, b', hrun, hPQ y b' hy⟩

theorem Succeeds.lift (h : Gives m b Q) : Succeeds (liftM m) b Q := ⟨_, _, rfl, h⟩

/-- Looking at the builder. -/
theorem Gives.get {f : Builder → Build β} (h : Gives (f b) b R) : Gives (get >>= f) b R := h

theorem Succeeds.get {f : Builder → Lowering β} (h : Succeeds (f b) b R) :
    Succeeds (get >>= f) b R :=
  Succeeds.bind (P := fun y b' => y = b ∧ b' = b) ⟨b, b, rfl, rfl, rfl⟩ fun _ _ ⟨hy, hb⟩ => by
    rw [hy, hb]
    exact h

/-- Looking something up in the arena. -/
theorem Gives.look {f : Arena → α} {g : α → Build β} (h : Gives (g (f b.arena)) b R) :
    Gives (look f >>= g) b R := h

theorem Succeeds.look {f : Arena → α} {g : α → Lowering β} (h : Succeeds (g (f b.arena)) b R) :
    Succeeds (look f >>= g) b R :=
  Succeeds.bind (P := fun y b' => y = f b.arena ∧ b' = b) ⟨f b.arena, b, rfl, rfl, rfl⟩
    fun _ _ ⟨hy, hb⟩ => by
      rw [hy, hb]
      exact h

/-- What every step keeps is kept by all of them. -/
theorem Gives.forM {f : α → Build Unit} {I : Builder → Prop} {l : List α} (h : I b)
    (hf : ∀ x ∈ l, ∀ b', I b' → Gives (f x) b' fun _ b'' => I b'') :
    Gives (l.forM f) b fun _ b' => I b' := by
  induction l generalizing b with
  | nil => exact h
  | cons x l ih =>
    refine Gives.bind (hf x List.mem_cons_self b h) fun _ b₁ h₁ => ?_
    exact ih h₁ fun y hy => hf y (List.mem_cons_of_mem _ hy)

theorem Succeeds.forM {f : α → Lowering Unit} {I : Builder → Prop} {l : List α} (h : I b)
    (hf : ∀ x ∈ l, ∀ b', I b' → Succeeds (f x) b' fun _ b'' => I b'') :
    Succeeds (l.forM f) b fun _ b' => I b' := by
  induction l generalizing b with
  | nil => exact Succeeds.pure h
  | cons x l ih =>
    refine Succeeds.bind (hf x List.mem_cons_self b h) fun _ b₁ h₁ => ?_
    exact ih h₁ fun y hy => hf y (List.mem_cons_of_mem _ hy)

end Logic

/-- What holds after every step that lowers a part of a body. -/
structure After (F : Base) (D : Due) (b b' : Builder) : Prop where
  inv : Inv F D b'
  grows : Grows b.arena b'.arena

theorem After.trans {b₁ b₂ : Builder} (h : After F D b b₁) (h' : After F D' b₁ b₂) :
    After F D' b b₂ :=
  ⟨h'.inv, h.grows.trans h'.grows⟩

/-- A step that neither places operations nor binds versions. -/
structure Still (b b' : Builder) : Prop where
  block : b'.block = b.block
  scope : b'.scope = b.scope
  ops : ∀ block, (b'.arena.block block).ops = (b.arena.block block).ops

theorem Still.trans {b₁ b₂ : Builder} (h : Still b b₁) (h' : Still b₁ b₂) : Still b b₂ :=
  ⟨h'.block.trans h.block, h'.scope.trans h.scope, fun block => (h'.ops block).trans (h.ops block)⟩

/-! ## Making operands and operations -/

theorem newOperand_gives (h : Inv F D b) (kind : OperandKind)
    (hkind : F.Shaped b.arena ⟨b.arena.operands.size⟩ kind) :
    Gives (newOperand kind) b fun x b' => After F D b b' ∧ Still b b' ∧ F.Mine b'.arena x ∧
      (b'.arena.operand x).kind = kind := by
  obtain ⟨hinv, hg, hmine, hk⟩ := h.newOperand hkind
  exact ⟨⟨hinv, hg⟩, ⟨rfl, rfl, fun _ => rfl⟩, hmine, hk⟩

theorem newString_gives (h : Inv F D b) (s : String) :
    Gives (newString s) b fun x b' => After F D b b' ∧ Still b b' ∧ F.Mine b'.arena x ∧
      (b'.arena.operand x).kind = .string s :=
  newOperand_gives h _ trivial

theorem newVariable_gives (h : Inv F D b) (name : String) :
    Gives (newVariable name) b fun x b' => After F D b b' ∧ Still b b' ∧ F.Mine b'.arena x ∧
      ∃ n, (b'.arena.operand x).kind = .variable n none ∧ b'.arena.stringOf? n = some name := by
  refine Gives.bind (newString_gives h name) ?_
  rintro n b₁ ⟨h₁, hs₁, hn, hkind⟩
  refine (newOperand_gives h₁.inv (.variable n none) ⟨hn, hn.2, ⟨name, hkind⟩, nofun⟩).mono ?_
  rintro x b₂ ⟨h₂, hs₂, hx, hxkind⟩
  refine ⟨h₁.trans h₂, hs₁.trans hs₂, hx, n, hxkind, ?_⟩
  rw [Arena.stringOf?, h₂.grows.scalar hn.2 hkind]
  rfl

/-- The name behind a version of a variable. -/
theorem Inv.nameOf?_version (h : Inv F D b) {x owner n : OperandId} {value : Option OperandId}
    (hx : F.Mine b.arena x) (hkind : (b.arena.operand x).kind = .temporary (some owner))
    (howner : (b.arena.operand owner).kind = .variable n value) :
    b.arena.nameOf? x = b.arena.stringOf? n := by
  rw [(h.tidy x hx).nameOf?_eq, Base.shortName?, hkind]
  dsimp only
  rw [howner]

/-- The name of a variable operand stays what it is. -/
theorem Inv.stringOf?_variable (h : Inv F D b) {x n : OperandId} {value : Option OperandId}
    (hx : F.Mine b.arena x) (hkind : (b.arena.operand x).kind = .variable n value) :
    ∃ text, b.arena.stringOf? n = some text ∧
      ∀ {a' : Arena}, Grows b.arena a' → a'.stringOf? n = some text := by
  have hshaped := (h.tidy x hx).shaped
  rw [hkind] at hshaped
  obtain ⟨hn, -, ⟨text, htext⟩, -⟩ := hshaped
  have hs : b.arena.stringOf? n = some text := by
    rw [Arena.stringOf?, htext]
    rfl
  exact ⟨text, hs, fun hg => (Base.stringOf?_grows hg hn.2 htext).trans hs⟩

/-- A version of a variable is made. -/
theorem newVersion_gives (h : Inv F D b) {owner n : OperandId} {value : Option OperandId}
    (howner : F.Mine b.arena owner) (hkind : (b.arena.operand owner).kind = .variable n value) :
    Gives (newTemporary (some owner)) b fun x b' => After F D b b' ∧ Still b b' ∧
      F.Mine b'.arena x ∧ (b'.arena.operand x).kind = .temporary (some owner) ∧
      b'.arena.nameOf? x = b.arena.stringOf? n ∧ b.arena.operands.size ≤ x.index := by
  have hnew : Gives (newTemporary (some owner)) b fun x _ => b.arena.operands.size ≤ x.index :=
    Nat.le_refl _
  refine ((newOperand_gives h (.temporary (some owner))
    ⟨howner, howner.2, .inl ⟨n, value, hkind⟩⟩).and hnew).mono ?_
  rintro x b' ⟨⟨h', hs, hx, hxkind⟩, hnew⟩
  refine ⟨h', hs, hx, hxkind, ?_, hnew⟩
  obtain ⟨value', hkind'⟩ := h'.grows.isVariable howner.2 hkind
  obtain ⟨text, htext, hstay⟩ := h.stringOf?_variable howner hkind
  rw [h'.inv.nameOf?_version hx hxkind hkind', htext]
  exact hstay h'.grows

/-- A temporary that is no version of a variable. -/
theorem newTemporary_gives (h : Inv F D b) :
    Gives (newTemporary none) b fun x b' => After F D b b' ∧ Still b b' ∧ F.Mine b'.arena x ∧
      b'.arena.nameOf? x = none := by
  refine (newOperand_gives h (.temporary none) trivial).mono ?_
  rintro x b' ⟨h', hs, hx, hxkind⟩
  refine ⟨h', hs, hx, ?_⟩
  rw [(h'.inv.tidy x hx).nameOf?_eq, Base.shortName?, hxkind]

theorem detached_gives (h : Inv F D b) (kind : OpKind) (span : Span)
    (hkind : ∀ sort, ∀ x ∈ kind.mentioned sort, F.Mine b.arena x) :
    Gives (detached kind span) b fun op b' => After F D b b' ∧ Still b b' ∧
      op.index < b'.arena.ops.size ∧ (b'.arena.op op).kind = kind ∧ b.arena.ops.size ≤ op.index := by
  obtain ⟨hinv, hg, hk⟩ := h.addOp span hkind
  refine ⟨⟨hinv, hg⟩, ⟨rfl, rfl, fun _ => rfl⟩, ?_, hk, Nat.le_refl _⟩
  have hsize : (b.arena.addOp kind span).2.ops.size = b.arena.ops.size + 1 := Array.size_push ..
  exact Nat.lt_of_lt_of_eq (Nat.lt_succ_self _) hsize.symm

theorem changeFunc_gives (h : Inv F D b) (f : Func → Func) :
    Gives (changeFunc f) b fun _ b' => After F D b b' ∧ Still b b' := by
  obtain ⟨hinv, hg⟩ := h.changeBlocks (b.arena.modifyFunc b.func f) rfl rfl (.of_blocks rfl)
  exact ⟨⟨hinv, hg⟩, ⟨rfl, rfl, fun _ => rfl⟩⟩

/-! ## Placing operations -/

theorem forall_mem_one {p : Slot × OperandId → Prop} {field : Field} {id : OperandId} :
    (∀ e ∈ OpKind.one field id, p e) ↔ p (⟨field, none⟩, id) := by
  simp [OpKind.one]

theorem forall_mem_optional {p : Slot × OperandId → Prop} {field : Field} {id : Option OperandId} :
    (∀ e ∈ OpKind.optional field id, p e) ↔ ∀ x ∈ id, p (⟨field, none⟩, x) := by
  cases id <;> simp [OpKind.optional, OpKind.one]

theorem forall_mem_many {p : Slot × OperandId → Prop} {field : Field} {ids : List OperandId} :
    (∀ e ∈ OpKind.many field ids, p e) ↔ ∀ i x, ids[i]? = some x → p (⟨field, some i⟩, x) := by
  constructor
  · exact fun h i x hx => h _ (OpKind.mem_many.2 ⟨i, hx, rfl⟩)
  · rintro h ⟨slot, x⟩ he
    obtain ⟨i, hi, rfl⟩ := OpKind.mem_many.1 he
    exact h i x hi

/-- Slots of an operation that read operands of the body. -/
def Base.ReadsAll (F : Base) (a : Arena) (kind : OpKind) (slots : List (Slot × OperandId)) : Prop :=
  ∀ e ∈ slots, F.Mine a e.2 ∧ kind.writes e.1 = false

/-- An operation that may be placed in the current block: it writes the version that is due and no
other. -/
structure Emits (F : Base) (D : Due) (b : Builder) (kind : OpKind) : Prop where
  mine : ∀ e ∈ kind.slots, F.Mine b.arena e.2
  noPhi : ∀ vars result, kind ≠ .phi vars result
  targets : ∀ target ∈ kind.successors, F.Target b.arena target
  writes : ∀ name, IsPlainName name →
    ((kind.mentioned true).find? fun x => b.arena.nameOf? x = some name) =
      D.version.filter fun x => b.arena.nameOf? x = some name
  asserts : ∀ e s r, kind = .assertion e s r → ∀ name, IsPlainName name →
    b.arena.nameOf? r = some name →
    Current b b.block (b.arena.block b.block).ops.length name e

theorem Emits.mentioned {kind : OpKind} (h : Emits F D b kind) {sort : Bool} {x : OperandId}
    (hx : x ∈ kind.mentioned sort) : F.Mine b.arena x := by
  obtain ⟨slot, hm, -⟩ := OpKind.mem_mentioned.1 hx
  exact h.mine (slot, x) hm

/-- The links that an operation makes. -/
def linksOf (block : BlockId) (kind : OpKind) : List (BlockId × BlockId) :=
  kind.successors.map (block, ·)

/-- An operation that may be emitted may be put at the end of the current block once it is made. -/
theorem Emits.appendable {b₁ : Builder} {kind : OpKind} {op : OpId} (hkind : Emits F D b kind)
    (h : Inv F D b) (h₁ : After F D b b₁) (hs₁ : Still b b₁) (hlt : op.index < b₁.arena.ops.size)
    (hop : (b₁.arena.op op).kind = kind) : Appendable F D b₁ b₁.block op := by
  have he : Evolves F D b b₁ :=
    ⟨h, h₁.grows, h₁.inv.tidy, by rw [hs₁.scope]; exact fun _ hp => hp⟩
  constructor
  case holds => exact h₁.inv.here
  case lt => exact hlt
  case noPhi => rw [hop]; exact hkind.noPhi
  case mine => rw [hop]; exact fun x hx => (hkind.mentioned hx).grows h₁.grows
  case targets => rw [hop]; exact fun target ht => (hkind.targets target ht).grows h₁.grows
  case here => exact fun _ => rfl
  case writes =>
    intro name hplain
    have hfind : b₁.arena.writtenVersion? name op =
        (kind.mentioned true).find? fun x => b.arena.nameOf? x = some name := by
      rw [Arena.writtenVersion?, hop]
      refine OpKind.find?_congr fun x hx => ?_
      rw [he.nameOf?_eq (hkind.mentioned hx)]
    rw [hfind, hkind.writes name hplain]
    cases hversion : D.version with
    | none => rfl
    | some x => rw [Option.filter_some, Option.filter_some, he.nameOf?_eq (h.due x hversion).1]
  case asserts =>
    intro e s r hassertion name hplain hr
    rw [hop] at hassertion
    have hmem : r ∈ kind.mentioned true := by
      rw [hassertion]
      exact List.mem_cons_self
    rw [he.nameOf?_eq (hkind.mentioned hmem)] at hr
    rw [hs₁.block, hs₁.ops]
    exact he.current h.here.1 (Nat.le_refl _) (hkind.asserts e s r hassertion name hplain hr)

theorem emit_gives (h : Inv F D b) {kind : OpKind} (hkind : Emits F D b kind) (span : Span) :
    Gives (emit kind span) b fun _ b' =>
      After F ⟨none, D.links ++ linksOf b.block kind⟩ b b' ∧ b'.block = b.block := by
  refine Gives.bind (detached_gives h kind span fun sort x hx => hkind.mentioned hx) ?_
  rintro op b₁ ⟨h₁, hs₁, hlt, hop, -⟩
  have happend := h₁.inv.append (hkind.appendable h h₁ hs₁ hlt hop)
  rw [hop, hs₁.block] at happend
  refine Gives.get (Gives.bind (P := fun _ b₂ =>
    b₂ = { b₁ with arena := b₁.arena.append b₁.block op }) rfl ?_)
  rintro _ b₂ rfl
  have h₂ : After F ⟨none, D.links ++ linksOf b.block kind⟩ b
      { b₁ with arena := b₁.arena.append b₁.block op } := by
    rw [hs₁.block]
    exact ⟨happend, h₁.grows.trans (grows_append (hs₁.block ▸ h₁.inv.here.2) op)⟩
  refine Gives.look ?_
  dsimp only
  split
  · refine Gives.bind (changeFunc_gives h₂.inv _) ?_
    rintro _ b₃ ⟨h₃, hs₃⟩
    exact ⟨h₂.trans h₃, hs₃.block.trans hs₁.block⟩
  · exact ⟨h₂, hs₁.block⟩

/-- An operation that writes no version of a variable, places no assertion and is no φ. -/
theorem Emits.of_unnamed {kind : OpKind} (hversion : D.version = none)
    (hmine : ∀ e ∈ kind.slots, F.Mine b.arena e.2)
    (htargets : ∀ target ∈ kind.successors, F.Target b.arena target)
    (hphi : ∀ vars result, kind ≠ .phi vars result)
    (hassertion : ∀ e s r, kind ≠ .assertion e s r)
    (hwrites : ∀ x ∈ kind.mentioned true, b.arena.nameOf? x = none) : Emits F D b kind where
  mine := hmine
  noPhi := hphi
  targets := htargets
  writes name _ := by
    rw [hversion, Option.filter_none, List.find?_eq_none]
    intro x hx
    rw [hwrites x hx]
    exact Bool.false_ne_true
  asserts e s r h := absurd h (hassertion e s r)

/-- An operation that only reads. -/
theorem Emits.of_reads {kind : OpKind} (hversion : D.version = none)
    (hreads : F.ReadsAll b.arena kind kind.slots)
    (htargets : ∀ target ∈ kind.successors, F.Target b.arena target)
    (hphi : ∀ vars result, kind ≠ .phi vars result)
    (hassertion : ∀ e s r, kind ≠ .assertion e s r) : Emits F D b kind := by
  refine .of_unnamed hversion (fun e he => (hreads e he).1) htargets hphi hassertion ?_
  intro x hx
  obtain ⟨slot, hm, hw⟩ := OpKind.mem_mentioned.1 hx
  rw [(hreads _ hm).2] at hw
  cases hw

theorem linksOf_of_nil {block : BlockId} {kind : OpKind} (h : kind.successors = []) :
    linksOf block kind = [] := by
  rw [linksOf, h, List.map_nil]

/-- An operation that only reads is placed. -/
theorem emitReads_gives (h : Inv F {} b) (kind : OpKind)
    (hreads : F.ReadsAll b.arena kind kind.slots) (hsuccessors : kind.successors = [])
    (hphi : ∀ vars result, kind ≠ .phi vars result)
    (hassertion : ∀ e s r, kind ≠ .assertion e s r) (span : Span) :
    Gives (emit kind span) b fun _ b' => After F {} b b' ∧ b'.block = b.block := by
  have hemits : Emits F {} b kind := by
    refine .of_reads rfl hreads ?_ hphi hassertion
    rw [hsuccessors]
    exact nofun
  have hgives := emit_gives h hemits span
  rw [linksOf_of_nil hsuccessors] at hgives
  exact hgives

/-- Makes of a result an operation that reads operands of the body and writes the result. -/
structure ValueOp (F : Base) (b : Builder) (make : OperandId → OpKind) : Prop where
  slots : ∀ r, ∃ reads, (make r).slots = reads ++ OpKind.one .result r ∧
    F.ReadsAll b.arena (make r) reads
  successors : ∀ r, (make r).successors = []
  noPhi : ∀ r vars result, make r ≠ .phi vars result
  noAssertion : ∀ r e s result, make r ≠ .assertion e s result

/-- An operation that makes a value is placed; its result stands for no variable. -/
theorem ValueOp.emit_gives {make : OperandId → OpKind} (hmake : ValueOp F b make) {b₁ : Builder}
    (h₁ : After F {} b b₁) {r : OperandId} (hr : F.Mine b₁.arena r)
    (hname : b₁.arena.nameOf? r = none) (span : Span) :
    Gives (emit (make r) span) b₁ fun _ b' => After F {} b₁ b' ∧ b'.block = b₁.block := by
  obtain ⟨reads, hslots, hreads⟩ := hmake.slots r
  have hemits : Emits F {} b₁ (make r) := by
    refine .of_unnamed rfl ?_ ?_ (hmake.noPhi r) (hmake.noAssertion r) ?_
    · rw [hslots, List.forall_mem_append, forall_mem_one]
      exact ⟨fun e he => (hreads e he).1.grows h₁.grows, hr⟩
    · rw [hmake.successors]
      exact nofun
    · intro x hx
      obtain ⟨slot, hm, hw⟩ := OpKind.mem_mentioned.1 hx
      rw [hslots] at hm
      rcases List.mem_append.1 hm with hm | hm
      · rw [(hreads _ hm).2] at hw
        cases hw
      · cases List.mem_singleton.1 hm
        exact hname
  have hgives := Lower.emit_gives h₁.inv hemits span
  rw [linksOf_of_nil (hmake.successors r)] at hgives
  exact hgives

theorem emitValue_gives (h : Inv F {} b) {make : OperandId → OpKind} (hmake : ValueOp F b make)
    (span : Span) :
    Gives (emitValue span make) b fun r b' => After F {} b b' ∧ b'.block = b.block ∧
      F.Mine b'.arena r := by
  refine Gives.bind (newTemporary_gives h) ?_
  rintro r b₁ ⟨h₁, hs₁, hr, hname⟩
  refine Gives.bind (hmake.emit_gives h₁ hr hname span) ?_
  rintro _ b₂ ⟨h₂, hblock⟩
  exact ⟨h₁.trans h₂, hblock.trans hs₁.block, hr.grows h₂.grows⟩

theorem emitCall_gives (h : Inv F {} b) {make : OperandId → OpKind} (hmake : ValueOp F b make)
    (span : Span) :
    Gives (emitCall span make) b fun r b' => After F {} b b' ∧ F.Mine b'.arena r := by
  refine Gives.bind (newTemporary_gives h) ?_
  rintro r b₁ ⟨h₁, -, hr, hname⟩
  refine Gives.bind (hmake.emit_gives h₁ hr hname span) ?_
  rintro op b₂ ⟨h₂, -⟩
  refine Gives.bind (changeFunc_gives h₂.inv _) ?_
  rintro _ b₃ ⟨h₃, -⟩
  exact ⟨(h₁.trans h₂).trans h₃, (hr.grows h₂.grows).grows h₃.grows⟩

/-! ## Blocks and jumps -/

theorem grows_link (a : Arena) (source target : BlockId) : Grows a (a.link source target) where
  operands := Nat.le_refl _
  ops := Nat.le_refl _
  blocks := by simp [Arena.link]
  bare _ _ := rfl
  kind _ _ := rfl
  listed block := by
    have hops : ((a.link source target).block block).ops = (a.block block).ops :=
      Arena.block_modifyBlock_keep _ Block.ops _ _ fun _ => rfl
    exact hops ▸ List.prefix_rfl
  preds block := by
    rw [Arena.link, Arena.block_modifyBlock]
    split
    · exact fun x hx => mem_addNew.2 (.inl hx)
    · exact List.Subset.refl _
  dead block _ := Arena.block_modifyBlock_keep _ Block.dead _ _ fun _ => rfl

/-- A predecessor is recorded, as may be due. -/
theorem Inv.link (h : Inv F D b) (D' : Due) (source : BlockId) {target : BlockId}
    (ht : F.Target b.arena target) (hlinks : ∀ l ∈ D.links, l ∈ D'.links ∨ l = (source, target))
    (hversion : D'.version = D.version) :
    Inv F D' { b with arena := b.arena.link source target } ∧
      Grows b.arena (b.arena.link source target) := by
  have hg := grows_link b.arena source target
  have hentry : F.entry ≠ target := by
    intro he
    have hlt := h.entry
    rw [he] at hlt
    exact Nat.lt_irrefl _ (Nat.lt_of_lt_of_le hlt ht.1)
  refine ⟨h.settle (quiet_arena hg ?_) ?_ ?_ ?_ hversion ?_, hg⟩
  · exact fun block => Arena.block_modifyBlock_keep _ Block.ops _ _ fun _ => rfl
  · intro block _ phi hphi
    rw [show ((b.arena.link source target).block block).phis = (b.arena.block block).phis from
      Arena.block_modifyBlock_keep _ Block.phis _ _ fun _ => rfl] at hphi
    exact .inl hphi
  · exact fun x hx => (h.tidy x hx).grows hg rfl rfl rfl
  · rw [Arena.link, Arena.block_modifyBlock, if_neg fun hc => hentry hc.1.symm]
    exact h.start
  · intro l hl
    refine (hlinks l hl).imp_right ?_
    rintro rfl
    rw [Arena.link, Arena.block_modifyBlock_of_lt ht.2.1, if_pos rfl]
    exact mem_addNew.2 (.inr rfl)

theorem emitJump {target : BlockId} (ht : F.Target b.arena target) :
    Emits F {} b (.jump target) := by
  refine .of_unnamed rfl nofun ?_ nofun nofun nofun
  intro x hx
  rw [List.mem_singleton.1 hx]
  exact ht

theorem jump_gives (h : Inv F {} b) {target : BlockId} (ht : F.Target b.arena target)
    (span : Span) :
    Gives (jump target span) b fun _ b' => After F {} b b' ∧ b'.block = b.block := by
  refine Gives.bind (emit_gives h (emitJump ht) span) ?_
  rintro _ b₁ ⟨h₁, hblock⟩
  refine Gives.get ?_
  rw [hblock]
  obtain ⟨hinv, hg⟩ := h₁.inv.link {} b.block (ht.grows h₁.grows)
    (fun l hl => .inr (List.mem_singleton.1 hl)) rfl
  exact ⟨h₁.trans ⟨hinv, hg⟩, hblock⟩

theorem jumpIf_gives (h : Inv F {} b) {cond : OperandId} {ifTarget elseTarget : BlockId}
    (hcond : F.Mine b.arena cond) (hif : F.Target b.arena ifTarget)
    (helse : F.Target b.arena elseTarget) (span : Span) :
    Gives (jumpIf cond ifTarget elseTarget span) b fun _ b' =>
      After F {} b b' ∧ b'.block = b.block := by
  have hemits : Emits F {} b (.jumpIf cond ifTarget elseTarget) := by
    refine .of_reads rfl (forall_mem_one.2 ⟨hcond, rfl⟩) ?_ nofun nofun
    intro target ht
    rcases List.mem_cons.1 ht with rfl | ht
    · exact hif
    · rw [List.mem_singleton.1 ht]
      exact helse
  refine Gives.bind (emit_gives h hemits span) ?_
  rintro _ b₁ ⟨h₁, hblock⟩
  refine Gives.get ?_
  rw [hblock]
  obtain ⟨hinv₂, hg₂⟩ := h₁.inv.changeBlocks
    (b₁.arena.modifyBlock b.block fun block => { block with guarded := true }) rfl rfl
    (.of_modify _ _ fun _ => ⟨rfl, rfl, rfl, rfl⟩)
  have h₂ : After F _ b _ := h₁.trans ⟨hinv₂, hg₂⟩
  obtain ⟨hinv₃, hg₃⟩ := hinv₂.link ⟨none, [(b.block, elseTarget)]⟩ b.block (hif.grows h₂.grows)
    (fun l hl => by
      rcases List.mem_cons.1 hl with rfl | hl
      · exact .inr rfl
      · exact .inl hl) rfl
  obtain ⟨hinv₄, hg₄⟩ := hinv₃.link {} b.block (helse.grows (h₂.grows.trans hg₃))
    (fun l hl => .inr (List.mem_singleton.1 hl)) rfl
  exact ⟨⟨hinv₄, (h₂.grows.trans hg₃).trans hg₄⟩, hblock⟩

theorem block_newBlock (a : Arena) (func : FuncId) (block : BlockId) :
    (a.newBlock (some func)).2.block block =
      if block.index = a.blocks.size then { func := some func } else a.block block := by
  simp only [Arena.newBlock, Arena.modifyFunc, Arena.block, getD_push]

theorem sameBlocks_newBlock (a : Arena) (func : FuncId) :
    SameBlocks a (a.newBlock (some func)).2 := by
  have hblock : ∀ block, ((a.newBlock (some func)).2.block block).ops = (a.block block).ops ∧
      ((a.newBlock (some func)).2.block block).phis = (a.block block).phis ∧
      ((a.newBlock (some func)).2.block block).preds = (a.block block).preds ∧
      ((a.newBlock (some func)).2.block block).dead = (a.block block).dead := by
    intro block
    rw [block_newBlock]
    split
    · rename_i hid
      rw [Arena.block_of_le _ (Nat.le_of_eq hid.symm)]
      exact ⟨rfl, rfl, rfl, rfl⟩
    · exact ⟨rfl, rfl, rfl, rfl⟩
  refine ⟨?_, fun block => (hblock block).1, fun block => (hblock block).2.1,
    fun block => (hblock block).2.2.1, fun block _ => (hblock block).2.2.2⟩
  exact Nat.le_of_lt (Nat.lt_of_lt_of_eq (Nat.lt_succ_self _) (Array.size_push ..).symm)

/-- A block is made. -/
theorem newBlock_gives (h : Inv F {} b) :
    Gives newBlock b fun block b' => After F {} b b' ∧ Still b b' ∧ F.Target b'.arena block := by
  have hsame := sameBlocks_newBlock b.arena b.func
  have hsize : (b.arena.newBlock (some b.func)).2.blocks.size = b.arena.blocks.size + 1 :=
    Array.size_push ..
  obtain ⟨hinv, hg⟩ := h.changeBlocks (b.arena.newBlock (some b.func)).2 rfl rfl hsame
  have hdead : ((b.arena.newBlock (some b.func)).2.block ⟨b.arena.blocks.size⟩).dead = false := by
    rw [block_newBlock, if_pos rfl]
  refine ⟨⟨hinv, hg⟩, ⟨rfl, rfl, hsame.ops⟩, h.blocks, ?_, hdead⟩
  exact Nat.lt_of_lt_of_eq (Nat.lt_succ_self _) hsize.symm

theorem goTo_gives (h : Inv F {} b) {block : BlockId} (hblock : F.Holds b.arena block) :
    Gives (goTo block) b fun _ b' => After F {} b b' ∧ b'.block = block ∧ b'.arena = b.arena :=
  ⟨⟨h.goTo rfl hblock, .refl _⟩, rfl, rfl⟩

theorem SameBlocks.modify_new {a a' : Arena} (h : SameBlocks a a') {id : BlockId}
    (hid : a.blocks.size ≤ id.index) {f : Block → Block}
    (hf : ∀ block, (f block).ops = block.ops ∧ (f block).phis = block.phis ∧
      (f block).preds = block.preds) :
    SameBlocks a (a'.modifyBlock id f) := by
  refine ⟨?_, ?_, ?_, ?_, ?_⟩
  · rw [Arena.size_blocks_modifyBlock]
    exact h.size
  · exact fun block => (Arena.block_modifyBlock_keep _ Block.ops _ _ fun b => (hf b).1).trans
      (h.ops block)
  · exact fun block => (Arena.block_modifyBlock_keep _ Block.phis _ _ fun b => (hf b).2.1).trans
      (h.phis block)
  · exact fun block => (Arena.block_modifyBlock_keep _ Block.preds _ _ fun b => (hf b).2.2).trans
      (h.preds block)
  · intro block hlt
    have hne : ¬id = block := by
      rintro rfl
      exact Nat.lt_irrefl _ (Nat.lt_of_lt_of_le hlt hid)
    rw [Arena.block_modifyBlock, if_neg fun hc => hne hc.1]
    exact h.dead block hlt

/-- Lowering goes on in a new block that nothing leads to. It was not there before, so that no
block that is there changes. -/
theorem goDead_gives (h : Inv F {} b) : Gives goDead b fun _ b' => After F {} b b' := by
  have hsame := sameBlocks_newBlock b.arena b.func
  have hsize : (b.arena.newBlock (some b.func)).2.blocks.size = b.arena.blocks.size + 1 :=
    Array.size_push ..
  obtain ⟨hinv, hg⟩ := h.changeBlocks
    ((b.arena.newBlock (some b.func)).2.modifyBlock ⟨b.arena.blocks.size⟩
      fun block => { block with dead := true }) rfl rfl
    (hsame.modify_new (Nat.le_refl _) fun _ => ⟨rfl, rfl, rfl⟩)
  refine ⟨hinv.goTo rfl ⟨.inr h.blocks, ?_⟩, hg⟩
  rw [Arena.size_blocks_modifyBlock, hsize]
  exact Nat.lt_succ_self _

/-! ## Conditions -/

/-- The conditions around a statement do not matter. -/
theorem Inv.changeConditions (h : Inv F D b) (conditions : List OperandId) :
    Inv F D { b with scope := { b.scope with conditions } } :=
  h.quiet ⟨.refl _, fun _ => rfl, rfl, rfl, rfl, rfl, rfl, rfl, rfl⟩ (fun _ => rfl) h.tidy rfl

theorem negate_gives (h : Inv F {} b) {cond : OperandId} (hcond : F.Mine b.arena cond) :
    Gives (negate cond) b fun x b' => After F {} b b' ∧ b'.block = b.block ∧
      F.Mine b'.arena x := by
  refine Gives.bind (newTemporary_gives h) ?_
  rintro r b₁ ⟨h₁, hs₁, hr, -⟩
  refine Gives.bind (detached_gives h₁.inv (.unary .booleanNot cond r) .none ?_) ?_
  · intro sort x hx
    obtain ⟨slot, hm, -⟩ := OpKind.mem_mentioned.1 hx
    rcases List.mem_cons.1 hm with hm | hm
    · cases hm
      exact hcond.grows h₁.grows
    · cases List.mem_singleton.1 hm
      exact hr
  · rintro op b₂ ⟨h₂, hs₂, -⟩
    exact ⟨h₁.trans h₂, hs₂.block.trans hs₁.block, hr.grows h₂.grows⟩

theorem Inv.addGuard (h : Inv F D b) (block : BlockId) (cond : OperandId) :
    Inv F D { b with arena := b.arena.addGuard block cond } ∧
      Grows b.arena (b.arena.addGuard block cond) := by
  obtain ⟨hinv₁, hg₁⟩ := h.changeBlocks
    (b.arena.modifyBlock block fun block => { block with
      guarded := true
      guards := addNew block.guards cond }) rfl rfl (.of_modify _ _ fun _ => ⟨rfl, rfl, rfl, rfl⟩)
  obtain ⟨hinv₂, hg₂⟩ := hinv₁.changeOperand cond (f := (·.addCondUsage block)) (fun _ => rfl)
    fun hx hg => by
      have hkeep := fun {β : Type} (get : Operand → β) (hget : ∀ o, get (o.addCondUsage block) =
        get o) => Arena.operand_modifyOperand_keep (b.arena.modifyBlock block fun block =>
          { block with guarded := true, guards := addNew block.guards cond }) get cond cond hget
      exact (hinv₁.tidy cond hx).grows hg (hkeep Operand.kind fun _ => rfl)
        (hkeep Operand.defs fun _ => rfl) (hkeep Operand.assertions fun _ => rfl)
  exact ⟨hinv₂, hg₁.trans hg₂⟩

theorem guardBlock_gives (h : Inv F {} b) (block : BlockId) :
    Gives (guardBlock block) b fun _ b' => After F {} b b' ∧ b'.block = b.block := by
  have key : ∀ (conditions : List OperandId) (b₁ : Builder), After F {} b b₁ → b₁.block = b.block →
      After F {} b { b₁ with
        arena := conditions.foldl (fun a cond => a.addGuard block cond) b₁.arena } ∧
        b₁.block = b.block := by
    intro conditions
    induction conditions with
    | nil => exact fun b₁ h₁ hb => ⟨h₁, hb⟩
    | cons cond conditions ih =>
      intro b₁ h₁ hb
      obtain ⟨hinv, hg⟩ := h₁.inv.addGuard block cond
      exact ih { b₁ with arena := b₁.arena.addGuard block cond } ⟨hinv, h₁.grows.trans hg⟩ hb
  exact key _ b ⟨h, .refl _⟩ rfl

/-- A step that is run under one more condition does what it does. -/
theorem under_succeeds {α : Type} {x : Lowering α} {R : Arena → α → Prop} (h : Inv F {} b)
    (cond : OperandId)
    (hx : ∀ b₁, After F {} b b₁ → b₁.block = b.block →
      Succeeds x b₁ fun y b' => After F {} b₁ b' ∧ R b'.arena y) :
    Succeeds (under cond x) b fun y b' => After F {} b b' ∧ R b'.arena y := by
  have h₁ : After F {} b
      { b with scope := { b.scope with conditions := cond :: b.scope.conditions } } :=
    ⟨h.changeConditions _, .refl _⟩
  refine Succeeds.bind (P := fun _ b' => b' =
    { b with scope := { b.scope with conditions := cond :: b.scope.conditions } })
    (.lift rfl) ?_
  rintro _ _ rfl
  refine Succeeds.bind (hx _ h₁ rfl) ?_
  rintro y b₂ ⟨h₂, hy⟩
  refine Succeeds.bind (P := fun _ b' => b' =
    { b₂ with scope := { b₂.scope with conditions := b₂.scope.conditions.tail } })
    (.lift rfl) ?_
  rintro _ _ rfl
  exact .pure ⟨h₁.trans (h₂.trans ⟨h₂.inv.changeConditions _, .refl _⟩), hy⟩

end QueryTaint.Lower
