import QueryTaint.Proofs.Flow.Standing

/-!
# Steps that build control flow

How the steps that all lowering is made of keep `Standing` and `Ready`: operations are placed at the
end of the current block (`Steps`), a block is left by a jump (`Standing.leave`), and lowering goes on
elsewhere. A step that fails leaves an arena behind where `Ground` holds yet (`Results`).
-/

namespace QueryTaint.Lower

variable {S : Site} {R : Reserve} {b b' : Builder}

/-! ## Putting steps together -/

section Logic

variable {α β : Type} {m : Build α} {x : Lowering α} {P Q : α → Builder → Prop}
  {T : β → Builder → Prop}

/-- What holds after a step that may fail: if it fails, the ground of the body is left behind. -/
structure Results (S : Site) (x : Lowering α) (b : Builder) (Q : α → Builder → Prop) : Prop where
  ok : ∀ y b', x.run.run b = (.ok y, b') → Q y b'
  error : ∀ e b', x.run.run b = (.error e, b') → Ground S b'.arena

theorem Results.of_run {y : α} (hrun : x.run.run b = (.ok y, b')) (h : Q y b') :
    Results S x b Q where
  ok z b'' hz := by
    cases hrun.symm.trans hz
    exact h
  error e b'' he := by cases hrun.symm.trans he

theorem Results.bind {f : α → Lowering β} (hx : Results S x b P)
    (hf : ∀ y b', P y b' → Results S (f y) b' T) : Results S (x >>= f) b T where
  ok z b' hz := by
    obtain ⟨y, b₁, hy, hz⟩ := exists_of_run_bind hz
    exact (hf y b₁ (hx.ok y b₁ hy)).ok z b' hz
  error e b' he := by
    rcases error_of_run_bind he with he | ⟨y, b₁, hy, he⟩
    · exact hx.error e b' he
    · exact (hf y b₁ (hx.ok y b₁ hy)).error e b' he

theorem Results.pure {y : α} (h : Q y b) : Results S (pure y) b Q := .of_run rfl h

theorem Results.mono (h : Results S x b P) (hPQ : ∀ y b', P y b' → Q y b') : Results S x b Q :=
  ⟨fun y b' hy => hPQ y b' (h.ok y b' hy), h.error⟩

theorem Results.lift (h : Gives m b Q) : Results S (liftM m) b Q := .of_run rfl h

theorem Results.get {f : Builder → Lowering β} (h : Results S (f b) b T) :
    Results S (get >>= f) b T :=
  Results.bind (P := fun y b' => y = b ∧ b' = b) (.of_run rfl ⟨rfl, rfl⟩) fun _ _ ⟨hy, hb⟩ => by
    rw [hy, hb]
    exact h

theorem Results.look {f : Arena → α} {g : α → Lowering β} (h : Results S (g (f b.arena)) b T) :
    Results S (look f >>= g) b T :=
  Results.bind (P := fun y b' => y = f b.arena ∧ b' = b) (.of_run rfl ⟨rfl, rfl⟩)
    fun _ _ ⟨hy, hb⟩ => by
      rw [hy, hb]
      exact h

theorem Results.forM {f : α → Lowering Unit} {I : Builder → Prop} {l : List α} (h : I b)
    (hf : ∀ x ∈ l, ∀ b', I b' → Results S (f x) b' fun _ b'' => I b'') :
    Results S (l.forM f) b fun _ b' => I b' := by
  induction l generalizing b with
  | nil => exact .pure h
  | cons x l ih =>
    refine Results.bind (hf x List.mem_cons_self b h) fun _ b₁ h₁ => ?_
    exact ih h₁ fun y hy => hf y (List.mem_cons_of_mem _ hy)

/-- A step that cannot fail and leaves control flow alone. -/
def Rests (m : Build α) : Prop := ∀ b, Gives m b fun _ b' => Idle b b'

/-- A step that cannot fail and goes on at the end of an open block. -/
def Steps (m : Build α) : Prop :=
  ∀ ⦃S : Site⦄ ⦃R : Reserve⦄ ⦃b : Builder⦄, Ready S R b → Gives m b fun _ b' => Ready S R b'

/-- A step that may fail and goes on at the end of an open block. -/
def Moves (x : Lowering α) : Prop :=
  ∀ ⦃S : Site⦄ ⦃R : Reserve⦄ ⦃b : Builder⦄, Ready S R b → Results S x b fun _ b' => Ready S R b'

theorem Rests.bind {f : α → Build β} (hm : Rests m) (hf : ∀ y, Rests (f y)) : Rests (m >>= f) :=
  fun b => Gives.bind (hm b) fun y b₁ h₁ => (hf y b₁).mono fun _ _ h₂ => h₁.trans h₂

theorem Rests.pure (y : α) : Rests (pure y : Build α) := fun b => .refl b

theorem Rests.get {f : Builder → Build β} (h : ∀ b, Rests (f b)) : Rests (get >>= f) :=
  fun b => h b b

theorem Rests.steps (h : Rests m) : Steps m := fun _ _ b hb => (h b).mono fun _ _ => hb.idle

theorem Steps.bind {f : α → Build β} (hm : Steps m) (hf : ∀ y, Steps (f y)) : Steps (m >>= f) :=
  fun _ _ _ hb => Gives.bind (hm hb) fun y _ h₁ => hf y h₁

theorem Steps.pure (y : α) : Steps (pure y : Build α) := fun _ _ _ hb => hb

theorem Steps.moves (h : Steps m) : Moves (liftM m) := fun _ _ _ hb => Results.lift (h hb)

theorem Rests.moves (h : Rests m) : Moves (liftM m) := h.steps.moves

theorem Moves.bind {f : α → Lowering β} (hx : Moves x) (hf : ∀ y, Moves (f y)) :
    Moves (x >>= f) := fun _ _ _ hb => Results.bind (hx hb) fun y _ h₁ => hf y h₁

theorem Moves.pure (y : α) : Moves (pure y : Lowering α) := fun _ _ _ hb => .pure hb

theorem Moves.get {f : Builder → Lowering β} (h : ∀ b, Moves (f b)) : Moves (get >>= f) :=
  fun _ _ b hb => Results.get (h b hb)

theorem Moves.forM {f : α → Lowering Unit} {l : List α} (h : ∀ x ∈ l, Moves (f x)) :
    Moves (l.forM f) := fun S R _ hb =>
  Results.forM (I := Ready S R) hb fun x hx _ h₁ => h x hx h₁

theorem Moves.throw (e : Error) : Moves (throw e : Lowering α) := fun _ _ b hb =>
  { ok := fun y b' hy => (by
      cases (show ((.error e : Except Error α), b) = (.ok y, b') from hy))
    error := fun e' b' he => by
      cases (show ((.error e : Except Error α), b) = (.error e', b') from he)
      exact hb.standing.ground }

end Logic

/-! ## Steps that leave control flow alone -/

theorem modify_moves {f : Builder → Builder} (h : ∀ b, Idle b (f b)) :
    Moves (modify f : Lowering Unit) :=
  fun _ _ b hb => .of_run rfl (hb.idle (h b))

theorem change_rests {f : Arena → Arena} (h : ∀ a, Calm a (f a)) : Rests (change f) :=
  fun b => .of_arena (h b.arena)

theorem newOperand_rests (kind : OperandKind) : Rests (newOperand kind) :=
  fun b => .of_arena (Calm.newOperand b.arena kind)

theorem newString_rests (s : String) : Rests (newString s) := newOperand_rests _

theorem newTemporary_rests (owner : Option OperandId) : Rests (newTemporary owner) :=
  newOperand_rests _

theorem newVariable_rests (name : String) : Rests (newVariable name) :=
  .bind (newString_rests name) fun _ => newOperand_rests _

theorem detached_rests (kind : OpKind) (span : Span) : Rests (detached kind span) :=
  fun b => .of_arena (Calm.addOp b.arena kind span)

theorem changeFunc_rests {f : Func → Func} (hf : ∀ r, (f r).entry = r.entry) :
    Rests (changeFunc f) :=
  fun b => .of_arena (Calm.modifyFunc b.arena b.func hf)

theorem changeConditions_rests (f : List OperandId → List OperandId) :
    Rests (changeScope fun s => { s with conditions := f s.conditions }) :=
  fun _ => ⟨.refl _, rfl, rfl, rfl, rfl, rfl⟩

theorem bindIn_rests (block : BlockId) (name : String) (value : OperandId) :
    Rests (bindIn block name value) :=
  fun _ => ⟨.refl _, rfl, rfl, rfl, rfl, rfl⟩

theorem negate_rests (cond : OperandId) : Rests (negate cond) :=
  .bind (newTemporary_rests none) fun _ => .bind (detached_rests _ _) fun _ => .pure _

theorem guardBlock_rests (block : BlockId) : Rests (guardBlock block) := by
  refine .get fun b => change_rests fun a => ?_
  induction b.scope.conditions.reverse generalizing a with
  | nil => exact .refl a
  | cons cond rest ih => exact (Calm.addGuard a block cond).trans (ih _)

/-! ## Placing operations -/

/-- The arena after an operation is made and put at the end of a block. -/
def placed (a : Arena) (block : BlockId) (kind : OpKind) (span : Span) : Arena :=
  (a.addOp kind span).2.append block ⟨a.ops.size⟩

theorem successors_of_goes {kind : OpKind} (h : kind.isTerminator = false) :
    kind.successors = [] := by
  cases kind <;> first | rfl | cases h

theorem op_addOp_self (a : Arena) (kind : OpKind) (span : Span) :
    (a.addOp kind span).2.op ⟨a.ops.size⟩ = { kind, span } := by
  rw [Arena.op_addOp, if_pos rfl]

theorem lt_ops_addOp (a : Arena) (kind : OpKind) (span : Span) :
    a.ops.size < (a.addOp kind span).2.ops.size :=
  Nat.lt_of_lt_of_eq (Nat.lt_succ_self _) (Array.size_push ..).symm

/-- An operation is made, and put at the end of a block that goes on. The blocks where it leads
know the block already. -/
theorem shaped_placed {a : Arena} (h : a.Shaped) {block : BlockId}
    (hblock : block.index < a.blocks.size) (kind : OpKind) (span : Span)
    (hgoes : ∀ op ∈ (a.block block).ops, (a.op op).kind.isTerminator = false)
    (htargets : ∀ target ∈ kind.successors,
      (a.block target).dead = false ∧ block ∈ (a.block target).preds)
    (hjump : ∀ target, kind = .jump target → ∀ other, block ∈ (a.block other).preds →
      target = other) : (placed a block kind span).Shaped := by
  have hcalm := Calm.addOp a kind span
  have hop := op_addOp_self a kind span
  have hshaped := hcalm.shaped h
  refine hshaped.append (hshaped.toWired.append hblock (lt_ops_addOp a kind span) ?_ ?_ ?_ ?_)
  · rw [hop]
  · intro op hmem
    rw [hcalm.op op (h.toWired.op_lt hmem)]
    exact hgoes op hmem
  · rw [hop]
    exact fun _ => htargets
  · rw [hop]
    exact hjump

theorem Standing.place (h : Standing S R b) {block : BlockId} (hblock : S.Holds b.arena block)
    (kind : OpKind) (span : Span)
    (hends : kind.isTerminator = true → block ∉ R.opens ++ b.scope.gotos.map (·.2))
    (hshaped : S.strict → (placed b.arena block kind span).Shaped) :
    Standing S R { b with arena := placed b.arena block kind span } := by
  have h₁ := h.idle (.of_arena (Calm.addOp b.arena kind span))
  refine h₁.append hblock (lt_ops_addOp ..) h.ground.past.ops (fun p hp => ?_) ?_ hshaped
  · intro heq
    have hlt := (h.pending p hp).lt
    rw [heq] at hlt
    exact Nat.lt_irrefl _ hlt
  · dsimp only
    rw [op_addOp_self]
    exact hends

/-- An operation that does not end a block may be put at the end of every block that goes on. -/
theorem Standing.placeInside (h : Standing S R b) {block : BlockId}
    (hblock : S.Holds b.arena block)
    (hgoes : S.strict → ∀ op ∈ (b.arena.block block).ops,
      (b.arena.op op).kind.isTerminator = false)
    {kind : OpKind} (hkind : kind.isTerminator = false) (span : Span) :
    Standing S R { b with arena := placed b.arena block kind span } := by
  refine h.place hblock kind span ?_ fun hs => ?_
  · rw [hkind]
    exact nofun
  · refine shaped_placed (h.ground.shaped hs) hblock.2 kind span (hgoes hs) ?_ ?_
    · rw [successors_of_goes hkind]
      exact nofun
    · rintro target rfl
      cases hkind

theorem Ready.place (h : Ready S R b) {kind : OpKind} (hkind : kind.isTerminator = false)
    (span : Span) : Ready S R { b with arena := placed b.arena b.block kind span } where
  standing := h.standing.placeInside h.here.holds (fun _ op hop => (h.here.goes op hop).2) hkind
    span
  here := by
    refine (h.here.calm (Calm.addOp b.arena kind span)).append h.here.holds (lt_ops_addOp ..) ?_
    rw [op_addOp_self]
    exact fun _ => hkind
  free := h.free

theorem modifyFunc_id (a : Arena) (func : FuncId) : a.modifyFunc func id = a := by
  have hfuncs : a.funcs.modify func.index id = a.funcs := by
    refine Array.ext_getElem? fun i => ?_
    rw [Array.getElem?_modify]
    split
    · simp
    · rfl
  rw [Arena.modifyFunc, hfuncs]

/-- An operation is put at the end of the current block, and the record of the function may
change. -/
theorem emit_places (kind : OpKind) (span : Span) (b : Builder) :
    Gives (emit kind span) b fun op b' => op = ⟨b.arena.ops.size⟩ ∧
      ∃ f : Func → Func, (∀ r, (f r).entry = r.entry) ∧
        b' = { b with arena := (placed b.arena b.block kind span).modifyFunc b.func f } := by
  refine Gives.bind (P := fun op b₁ => op = ⟨b.arena.ops.size⟩ ∧
    b₁ = { b with arena := (b.arena.addOp kind span).2 }) ⟨rfl, rfl⟩ ?_
  rintro _ _ ⟨rfl, rfl⟩
  refine Gives.get (Gives.bind (P := fun _ b₂ =>
    b₂ = { b with arena := placed b.arena b.block kind span }) rfl ?_)
  rintro _ _ rfl
  refine Gives.look ?_
  dsimp only
  split
  · exact ⟨rfl, fun f => { f with sources := f.sources ++ [⟨b.arena.ops.size⟩] }, fun _ => rfl, rfl⟩
  · exact ⟨rfl, id, fun _ => rfl, by rw [modifyFunc_id]; rfl⟩

/-- An operation that does not end a block is put at the end of the current one. -/
theorem emit_steps {kind : OpKind} (hkind : kind.isTerminator = false) (span : Span) :
    Steps (emit kind span) := by
  intro S R b h
  refine (emit_places kind span b).mono ?_
  rintro _ _ ⟨-, f, hf, rfl⟩
  exact (h.place hkind span).idle (.of_arena (Calm.modifyFunc _ b.func hf))

theorem emitValue_steps {make : OperandId → OpKind}
    (hmake : ∀ r, (make r).isTerminator = false) (span : Span) : Steps (emitValue span make) :=
  .bind (newTemporary_rests none).steps fun r => .bind (emit_steps (hmake r) span) fun _ => .pure _

theorem emitCall_steps {make : OperandId → OpKind}
    (hmake : ∀ r, (make r).isTerminator = false) (span : Span) : Steps (emitCall span make) :=
  .bind (newTemporary_rests none).steps fun r => .bind (emit_steps (hmake r) span) fun _ =>
    .bind (changeFunc_rests (by exact fun _ => rfl)).steps fun _ => .pure _

/-! ## Leaving a block -/

/-- A block may be left for another one. -/
structure Site.Reach (S : Site) (a : Arena) (source target : BlockId) : Prop where
  landing : S.Landing a target
  first : (a.block target).preds = [] →
    target ≠ source ∧ ∀ block, S.Owns block → target ∉ (a.block block).preds

variable {a a' : Arena}

theorem Site.Reach.calm {source target : BlockId} (h : S.Reach a source target) (hc : Calm a a') :
    S.Reach a' source target where
  landing := h.landing.calm hc
  first := by
    simp only [hc.blocks.preds]
    exact h.first

theorem Site.Reach.link {source target other : BlockId} (h : S.Reach a source target)
    (hother : S.Landing a other) : S.Reach (a.link source other) source target where
  landing := h.landing.link
  first hnone := by
    have hold : (a.block target).preds = [] :=
      Decidable.of_not_not fun hne => preds_link_ne_nil hother.holds.2 hne hnone
    obtain ⟨hne, hleaf⟩ := h.first hold
    refine ⟨hne, fun block hblock => ?_⟩
    rw [Arena.preds_link hother.holds.2]
    split
    · rw [mem_addNew, not_or]
      exact ⟨hleaf block hblock, hne⟩
    · exact hleaf block hblock

/-- A block in reserve is reached unless it is the source. -/
theorem Standing.reach (h : Standing S R b) {source target : BlockId} (ht : R.targets target)
    (hway : target ∈ R.opens ∨ R.fed target)
    (hfree : source ∉ R.opens ++ b.scope.gotos.map (·.2)) : S.Reach b.arena source target where
  landing := h.targets target ht
  first hnone := by
    rcases hway with hopen | hfed
    · refine ⟨fun heq => hfree (List.mem_append_left _ (heq ▸ hopen)), ?_⟩
      exact (h.opens target (List.mem_append_left _ hopen)).leaf
    · exact absurd hnone (h.fed target hfed)

theorem Standing.reachLabel (h : Standing S R b) {name : String} {target : BlockId}
    (ht : b.scope.labels.get? name = some target) (source : BlockId) :
    S.Reach b.arena source target where
  landing := (h.labels name target ht).1
  first hnone := absurd hnone (h.labels name target ht).2.1

/-- A block becomes a predecessor of several. -/
def linkAll (a : Arena) (source : BlockId) (targets : List BlockId) : Arena :=
  targets.foldl (fun a target => a.link source target) a

/-- What is known of predecessors after a block became a predecessor of several. -/
def Reserve.linkedAll (R : Reserve) (source : BlockId) (targets : List BlockId) : Reserve :=
  targets.foldl (fun R target => R.linked source target) R

/-- A block that is no predecessor of any block becomes one of the given blocks and of no others. -/
theorem mem_preds_linkAll {source block : BlockId} {targets : List BlockId}
    (hlt : ∀ target ∈ targets, target.index < a.blocks.size) :
    source ∈ ((linkAll a source targets).block block).preds ↔
      source ∈ (a.block block).preds ∨ block ∈ targets := by
  induction targets generalizing a with
  | nil => exact ⟨.inl, fun h => h.elim id nofun⟩
  | cons target rest ih =>
    have ht := hlt target List.mem_cons_self
    have hrest : ∀ t ∈ rest, t.index < (a.link source target).blocks.size := fun t hmem => by
      rw [blocks_size_link]
      exact hlt t (List.mem_cons_of_mem _ hmem)
    rw [linkAll, List.foldl_cons]
    refine (ih hrest).trans ?_
    rw [Arena.preds_link ht, List.mem_cons]
    split
    · rename_i heq
      rw [mem_addNew]
      exact ⟨fun _ => .inr (.inl heq), fun _ => .inl (.inr rfl)⟩
    · rename_i hne
      exact ⟨Or.imp_right .inr, Or.imp_right fun h => h.resolve_left hne⟩

theorem Standing.linkAll (h : Standing S R b) {source : BlockId} {targets : List BlockId}
    (hs : S.Holds b.arena source) (hfree : source ∉ R.opens ++ b.scope.gotos.map (·.2))
    (hgoes : ∀ op ∈ (b.arena.block source).ops, (b.arena.op op).kind.isTerminator = false)
    (ht : ∀ target ∈ targets, S.Reach b.arena source target) :
    Standing S (R.linkedAll source targets)
      { b with arena := Lower.linkAll b.arena source targets } := by
  induction targets generalizing R b with
  | nil => exact h
  | cons target rest ih =>
    have hreach := ht target List.mem_cons_self
    refine ih (h.link hs hfree hgoes hreach.landing hreach.first)
      (hs.mono (Nat.le_of_eq (blocks_size_link ..).symm)) hfree ?_ fun t hmem => ?_
    · dsimp only
      rw [Arena.block_link_keep Block.ops fun _ _ => rfl]
      exact hgoes
    · exact (ht t (List.mem_cons_of_mem _ hmem)).link hreach.landing

theorem linkAll_keep {β : Type} (get : Block → β) (hget : ∀ b preds, get { b with preds } = get b)
    (a : Arena) (source : BlockId) (targets : List BlockId) (block : BlockId) :
    get ((linkAll a source targets).block block) = get (a.block block) := by
  induction targets generalizing a with
  | nil => rfl
  | cons target rest ih => exact (ih _).trans (Arena.block_link_keep get hget source target block)

theorem op_linkAll (a : Arena) (source : BlockId) (targets : List BlockId) (op : OpId) :
    (linkAll a source targets).op op = a.op op := by
  induction targets generalizing a with
  | nil => rfl
  | cons target rest ih => exact ih _

theorem blocks_size_linkAll (a : Arena) (source : BlockId) (targets : List BlockId) :
    (linkAll a source targets).blocks.size = a.blocks.size := by
  induction targets generalizing a with
  | nil => rfl
  | cons target rest ih => exact (ih _).trans (blocks_size_link ..)

theorem Reserve.opens_linkedAll (R : Reserve) (source : BlockId) (targets : List BlockId) :
    (R.linkedAll source targets).opens = R.opens := by
  induction targets generalizing R with
  | nil => rfl
  | cons target rest ih => exact ih _

theorem modifyBlock_placed (a : Arena) (block other : BlockId) (kind : OpKind) (span : Span)
    {f : Block → Block}
    (hf : ∀ (b : Block) (op : OpId),
      f { b with ops := b.ops ++ [op] } = { f b with ops := (f b).ops ++ [op] }) :
    (placed a block kind span).modifyBlock other f = placed (a.modifyBlock other f) block kind span :=
  Arena.modifyBlock_append _ _ _ _ (hf · _)

theorem link_placed (a : Arena) (block source target : BlockId) (kind : OpKind) (span : Span) :
    (placed a block kind span).link source target = placed (a.link source target) block kind span :=
  modifyBlock_placed a block target kind span fun _ _ => rfl

/-- A block that was kept is left: it becomes a predecessor of the blocks where it leads, and the
operation that leads there is put at its end. -/
theorem Standing.leave {source : BlockId} (h : Standing S (R.keep source) b) (kind : OpKind)
    (span : Span) (targets : List BlockId)
    (hsuccessors : ∀ target ∈ kind.successors, target ∈ targets)
    (hjump : ∀ target, kind = .jump target → targets = [target])
    (ht : ∀ target ∈ targets, S.Reach b.arena source target) :
    Standing S (R.linkedAll source targets)
      { b with arena := placed (Lower.linkAll b.arena source targets) source kind span } := by
  have hopen := h.opens source List.mem_cons_self
  have hfree := (List.nodup_cons.1 h.distinct).1
  have hgoes : ∀ op ∈ (b.arena.block source).ops, (b.arena.op op).kind.isTerminator = false :=
    fun op hop => (hopen.goes op hop).2
  have hlinked := (h.within (R.within_keep source)).linkAll hopen.holds hfree hgoes ht
  have hlt : ∀ target ∈ targets, target.index < b.arena.blocks.size :=
    fun target hmem => (ht target hmem).landing.holds.2
  have hops := linkAll_keep Block.ops (fun _ _ => rfl) b.arena source targets
  have hsize := blocks_size_linkAll b.arena source targets
  refine hlinked.place (hopen.holds.mono (Nat.le_of_eq hsize.symm)) kind span (fun _ => ?_)
    fun hs => shaped_placed (hlinked.ground.shaped hs) ?_ kind span ?_ ?_ ?_
  · rw [Reserve.opens_linkedAll]
    exact hfree
  · dsimp only
    rw [hsize]
    exact hopen.holds.2
  · dsimp only
    rw [hops]
    intro op hmem
    rw [op_linkAll]
    exact hgoes op hmem
  · intro target hmem
    have hmem := hsuccessors target hmem
    refine ⟨?_, (mem_preds_linkAll hlt).2 (.inr hmem)⟩
    exact (linkAll_keep Block.dead (fun _ _ => rfl) b.arena source targets target).trans
      (ht target hmem).landing.live
  · intro target hkind other hother
    rcases (mem_preds_linkAll hlt).1 hother with hold | hmem
    · by_cases howns : S.Owns other
      · exact absurd hold (hopen.leaf other howns)
      · exact absurd hopen.holds.1 (h.ground.apart hs other howns source hold)
    · rw [hjump target hkind] at hmem
      exact (List.mem_singleton.1 hmem).symm

theorem mem_preds_link {source target : BlockId} (ht : target.index < a.blocks.size) :
    source ∈ ((a.link source target).block target).preds := by
  rw [Arena.preds_link ht, if_pos rfl]
  exact mem_addNew.2 (.inr rfl)

/-- The current block is left for no other block. -/
theorem emit_leaves (h : Ready S R b) {kind : OpKind} (hkind : kind.successors = []) (span : Span) :
    Gives (emit kind span) b fun _ b' => Standing S R b' := by
  refine (emit_places kind span b).mono ?_
  rintro _ _ ⟨-, f, hf, rfl⟩
  have hleave := h.keep.leave kind span [] (by rw [hkind]; exact nofun)
    (by rintro target rfl; cases hkind) nofun
  exact hleave.idle (.of_arena (Calm.modifyFunc _ b.func hf))

theorem jump_leaves (h : Ready S R b) {target : BlockId} (ht : S.Reach b.arena b.block target)
    (span : Span) :
    Gives (jump target span) b fun _ b' => Standing S (R.linked b.block target) b' ∧
      b'.block = b.block ∧ b.block ∈ (b'.arena.block target).preds := by
  refine Gives.bind (emit_places (.jump target) span b) ?_
  rintro _ _ ⟨-, f, hf, rfl⟩
  refine Gives.get ?_
  have hleave := h.keep.leave (.jump target) span [target] (fun _ => id)
    (by rintro _ ⟨⟩; rfl) (by simpa using ht)
  have harena : ((placed b.arena b.block (.jump target) span).modifyFunc b.func f).link b.block
      target = (placed (linkAll b.arena b.block [target]) b.block (.jump target) span).modifyFunc
        b.func f := by
    rw [Arena.link_modifyFunc, link_placed]
    rfl
  have hstanding := hleave.idle (.of_arena (Calm.modifyFunc _ b.func hf))
  refine ⟨?_, rfl, ?_⟩
  · exact (congrArg (fun a => Standing S (R.linked b.block target) { b with arena := a })
      harena).mpr hstanding
  · exact mem_preds_link (a := (placed ..).modifyFunc ..)
      (Nat.lt_of_lt_of_eq ht.landing.holds.2 (blocks_size_append ..).symm)

theorem jumpIf_leaves (h : Ready S R b) (cond : OperandId) {ifTarget elseTarget : BlockId}
    (hif : S.Reach b.arena b.block ifTarget) (helse : S.Reach b.arena b.block elseTarget)
    (span : Span) :
    Gives (jumpIf cond ifTarget elseTarget span) b fun _ b' =>
      Standing S ((R.linked b.block ifTarget).linked b.block elseTarget) b' ∧
        b'.block = b.block := by
  refine Gives.bind (emit_places (.jumpIf cond ifTarget elseTarget) span b) ?_
  rintro _ _ ⟨-, f, hf, rfl⟩
  refine Gives.get ⟨?_, rfl⟩
  have hguard : Calm b.arena (b.arena.modifyBlock b.block fun b => { b with guarded := true }) :=
    Calm.modifyBlock _ _ fun _ => rfl
  have hleave := (h.idle (.of_arena hguard)).keep.leave (.jumpIf cond ifTarget elseTarget) span
    [ifTarget, elseTarget] (fun _ => id) nofun
    (by simpa using And.intro (hif.calm hguard) (helse.calm hguard))
  -- the links and the mark of the block can be made before the operation is placed
  have harena : ((((placed b.arena b.block (.jumpIf cond ifTarget elseTarget) span).modifyFunc b.func
      f).modifyBlock b.block fun b => { b with guarded := true }).link b.block ifTarget).link b.block
        elseTarget =
      (placed (linkAll (b.arena.modifyBlock b.block fun b => { b with guarded := true }) b.block
        [ifTarget, elseTarget]) b.block (.jumpIf cond ifTarget elseTarget) span).modifyFunc b.func
          f := by
    rw [Arena.modifyBlock_modifyFunc, Arena.link_modifyFunc, Arena.link_modifyFunc,
      modifyBlock_placed _ _ _ _ _ fun _ _ => rfl, link_placed, link_placed]
    rfl
  have hstanding := hleave.idle (.of_arena (Calm.modifyFunc _ b.func hf))
  exact (congrArg (fun a => Standing S ((R.linked b.block ifTarget).linked b.block elseTarget)
    { b with arena := a }) harena).mpr hstanding

/-! ## New blocks -/

/-- A block that was not there is kept. -/
theorem Standing.fresh (h : Standing S R b) (hc : Calm b.arena a') (block : BlockId)
    (hnew : b.arena.blocks.size ≤ block.index) (hlt : block.index < a'.blocks.size) :
    Standing S (R.keep block) { b with arena := a' } := by
  have h' := h.idle (.of_arena hc)
  refine { h' with opens := fun other hother => ?_, distinct := List.nodup_cons.2 ⟨?_, h'.distinct⟩ }
  · rcases List.mem_cons.1 hother with rfl | hother
    · refine ⟨⟨.inr (Nat.le_trans h.ground.past.blocks hnew), hlt⟩, ?_, fun source hsource => ?_⟩
      · dsimp only
        rw [hc.blocks.ops, Arena.block_of_le _ hnew]
        exact nofun
      · dsimp only
        rw [hc.blocks.preds]
        exact fun hmem => Nat.not_lt.2 hnew (h.ground.closed source hsource other hmem).2
    · exact h'.opens other hother
  · exact fun hmem => Nat.not_lt.2 hnew (h.opens block hmem).holds.2

/-- A block that jumps may lead to is kept. -/
def Reserve.reserve (R : Reserve) (block : BlockId) : Reserve := (R.keep block).aim block

/-- Nothing is known of a block. -/
structure Reserve.Unknown (R : Reserve) (block : BlockId) : Prop where
  untargeted : ¬R.targets block
  unwatched : R.watched block = none
  undecided : R.deaths block = none

/-- Nothing is known of a block that is not there yet. -/
theorem Standing.unknown (h : Standing S R b) {block : BlockId}
    (hnew : b.arena.blocks.size ≤ block.index) : R.Unknown block where
  untargeted htarget := Nat.not_lt.2 hnew (h.targets block htarget).holds.2
  unwatched := Option.eq_none_iff_forall_ne_some.2 fun preds hsome =>
    Nat.not_lt.2 hnew (h.watched block preds hsome).1
  undecided := Option.eq_none_iff_forall_ne_some.2 fun dead hsome =>
    Nat.not_lt.2 hnew (h.deaths block dead hsome).1

/-- A new block. -/
structure Fresh (R : Reserve) (b : Builder) (block : BlockId) : Prop extends R.Unknown block where
  unlabelled : ∀ name, b.scope.labels.get? name ≠ some block
  preds : (b.arena.block block).preds = []

theorem Standing.reserve (h : Standing S R b) (hc : Calm b.arena a') (block : BlockId)
    (hnew : b.arena.blocks.size ≤ block.index) (hlt : block.index < a'.blocks.size)
    (hlive : (a'.block block).dead = false) :
    Standing S (R.reserve block) { b with arena := a' } ∧
      Fresh R { b with arena := a' } block := by
  have h' := h.fresh hc block hnew hlt
  refine ⟨{ h' with targets := fun other hother => ?_ }, h.unknown hnew, ?_, ?_⟩
  · rcases hother with rfl | hother
    · refine ⟨(h'.opens other List.mem_cons_self).holds, hlive, ?_⟩
      dsimp only
      rw [hc.blocks.phis, Arena.block_of_le _ hnew]
      rfl
    · exact h'.targets other hother
  · exact fun name hname => Nat.not_lt.2 hnew (h.labels name block hname).1.holds.2
  · dsimp only
    rw [hc.blocks.preds, Arena.block_of_le _ hnew]
    rfl

theorem newBlock_reserves (h : Standing S R b) :
    Gives newBlock b fun block b' => Standing S (R.reserve block) b' ∧ Fresh R b' block ∧
      Idle b b' ∧ b.arena.blocks.size ≤ block.index := by
  have hc := Calm.newBlock b.arena b.func
  have hlive : ((b.arena.newBlock (some b.func)).2.block ⟨b.arena.blocks.size⟩).dead = false := by
    rw [block_newBlock, if_pos rfl]
  have hlt : b.arena.blocks.size < (b.arena.newBlock (some b.func)).2.blocks.size :=
    Nat.lt_of_lt_of_eq (Nat.lt_succ_self _) (Array.size_push ..).symm
  obtain ⟨hstanding, hfresh⟩ :=
    h.reserve hc ⟨b.arena.blocks.size⟩ (Nat.le_refl _) hlt hlive
  exact ⟨hstanding, hfresh, .of_arena hc, Nat.le_refl _⟩

theorem newBlock_ready (h : Ready S R b) :
    Gives newBlock b fun block b' => Ready S (R.reserve block) b' ∧ Fresh R b' block ∧
      b'.block = b.block := by
  refine (newBlock_reserves h.standing).mono ?_
  rintro block b' ⟨hstanding, hfresh, hidle, hnew⟩
  have h' := h.idle hidle
  refine ⟨⟨hstanding, h'.here, fun hmem => ?_⟩, hfresh, hidle.block⟩
  rcases List.mem_cons.1 hmem with heq | hmem
  · have hlt := h.here.holds.2
    rw [← hidle.block, heq] at hlt
    exact Nat.not_lt.2 hnew hlt
  · exact h'.free hmem

theorem goDead_ready (h : Standing S R b) : Gives goDead b fun _ b' => Ready S R b' := by
  have hsame := sameBlocks_newBlock b.arena b.func
  have hcalm : Calm b.arena ((b.arena.newBlock (some b.func)).2.modifyBlock
      ⟨b.arena.blocks.size⟩ fun block => { block with dead := true }) :=
    { Calm.newBlock b.arena b.func with
      blocks := hsame.modify_new (Nat.le_refl _) fun _ => ⟨rfl, rfl, rfl⟩ }
  refine (h.fresh hcalm ⟨b.arena.blocks.size⟩ (Nat.le_refl _) ?_).goTo
  rw [Arena.size_blocks_modifyBlock]
  exact Nat.lt_of_lt_of_eq (Nat.lt_succ_self _) (Array.size_push ..).symm

/-- The current block ends, and nothing leads to what follows. -/
theorem endHere_moves {kind : OpKind} (hkind : kind.successors = []) (span : Span) :
    Moves (do let _ ← emit kind span; goDead : Lowering Unit) := fun _ _ _ h =>
  Results.bind (.lift (emit_leaves h hkind span)) fun _ _ h₁ => .lift (goDead_ready h₁)

end QueryTaint.Lower
