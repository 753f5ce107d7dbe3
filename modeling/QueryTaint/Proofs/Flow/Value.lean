import QueryTaint.Lower.Value
import QueryTaint.Proofs.Flow.Step

/-!
# Versions and assertions build control flow

Reading a variable makes at most a φ that waits (`Reads`). What a condition asserts is put into the
branches behind it without ending them (`assertBranches_stands`).
-/

namespace QueryTaint.Lower

variable {S : Site} {R : Reserve} {b b' : Builder}

/-! ## Versions of variables -/

/-- A step that makes at most φs that wait. -/
structure Lingers (b b' : Builder) : Prop where
  arena : Calm b.arena b'.arena
  block : b'.block = b.block
  gotos : b'.scope.gotos = b.scope.gotos

theorem Lingers.trans {b'' : Builder} (h : Lingers b b') (h' : Lingers b' b'') : Lingers b b'' :=
  ⟨h.arena.trans h'.arena, h'.block.trans h.block, h'.gotos.trans h.gotos⟩

theorem Lingers.holds (h : Lingers b b') (hhere : S.Holds b.arena b.block) :
    S.Holds b'.arena b'.block := by
  rw [h.block]
  exact hhere.mono h.arena.blocks.size

theorem Idle.lingers (h : Idle b b') : Lingers b b' := ⟨h.arena, h.block, h.gotos⟩

section Logic

variable {α β : Type} {m : Build α}

/-- A step that reads and writes variables in a block of the body. -/
def Reads (m : Build α) : Prop :=
  ∀ ⦃S : Site⦄ ⦃R : Reserve⦄ ⦃b : Builder⦄, Standing S R b → S.Holds b.arena b.block →
    Gives m b fun _ b' => Standing S R b' ∧ Lingers b b'

theorem Rests.reads (h : Rests m) : Reads m := fun _ _ b hb _ =>
  (h b).mono fun _ _ hi => ⟨hb.idle hi, hi.lingers⟩

theorem Reads.pure (y : α) : Reads (pure y : Build α) := (Rests.pure y).reads

theorem Reads.bind {f : α → Build β} (hm : Reads m) (hf : ∀ y, Reads (f y)) : Reads (m >>= f) := by
  intro S R b hb hhere
  refine Gives.bind (hm hb hhere) ?_
  rintro y b₁ ⟨hb₁, hl₁⟩
  exact (hf y hb₁ (hl₁.holds hhere)).mono fun _ _ ⟨hb₂, hl₂⟩ => ⟨hb₂, hl₁.trans hl₂⟩

theorem Reads.get {f : Builder → Build β} (h : ∀ b, Reads (f b)) : Reads (get >>= f) :=
  fun _ _ b hb hhere => h b hb hhere

theorem Reads.steps (h : Reads m) : Steps m := by
  intro S R b hb
  refine (h hb.standing hb.here.holds).mono ?_
  rintro y b' ⟨hstanding, hl⟩
  refine ⟨hstanding, ?_, ?_⟩
  · rw [hl.block]
    exact hb.here.calm hl.arena
  · rw [hl.block, hl.gotos]
    exact hb.free

theorem Reads.moves (h : Reads m) : Moves (liftM m) := h.steps.moves

end Logic

theorem newPhi_rests (name : String) : Rests (newPhi name) :=
  .bind (newVariable_rests name) fun _ => .bind (newTemporary_rests _) fun _ =>
    .bind (detached_rests _ _) fun _ => .pure _

theorem readInput_rests (tag : String) (block : BlockId) : Rests (readInput tag block) :=
  .bind (changeFunc_rests (by exact fun _ => rfl)) fun _ =>
    .bind (change_rests fun a => Calm.modifyBlock a block (by exact fun _ => rfl)) fun _ =>
    .bind (newOperand_rests _) fun _ =>
    .bind (change_rests fun a => Calm.modifyOperand a _ _) fun _ => .pure _

/-- The φ operation that is made is the newest one, and stands in no block. -/
theorem newPhi_makes (name : String) (b : Builder) :
    Gives (newPhi name) b fun made b' => Idle b b' ∧ made.2.index = b.arena.ops.size ∧
      made.2.index < b'.arena.ops.size ∧
      b'.arena.op made.2 = { kind := .phi [] made.1, span := .none } := by
  refine Gives.bind (P := fun _ b₁ => Idle b b₁ ∧ b₁.arena.ops.size = b.arena.ops.size)
    ⟨newVariable_rests name b, rfl⟩ ?_
  rintro var b₁ ⟨h₁, hs₁⟩
  refine Gives.bind (P := fun _ b₂ => Idle b₁ b₂ ∧ b₂.arena.ops.size = b₁.arena.ops.size)
    ⟨newTemporary_rests (some var) b₁, rfl⟩ ?_
  rintro result b₂ ⟨h₂, hs₂⟩
  exact ⟨(h₁.trans h₂).trans (detached_rests (.phi [] result) .none b₂), hs₂.trans hs₁,
    lt_ops_addOp b₂.arena _ _, op_addOp_self b₂.arena _ _⟩

/-- A φ is made that waits for its operands. -/
theorem Standing.wait (h : Standing S R b) {block : BlockId} (hblock : S.Holds b.arena block)
    (name : String) :
    Gives (do
      let (value, phi) ← newPhi name
      changeScope fun s => { s with pending := s.pending.push ⟨block, name, phi⟩ }
      bindIn block name value
      return value) b fun _ b' => Standing S R b' ∧ Lingers b b' := by
  refine Gives.bind (newPhi_makes name b) ?_
  rintro ⟨value, phi⟩ b₁ ⟨hidle, hphi, hlt, hop⟩
  dsimp only at hphi hlt hop
  have h₁ := h.idle hidle
  have hold : ∀ p ∈ b₁.scope.pending, p.phi ≠ phi := by
    rw [hidle.pending]
    rintro p hp rfl
    exact Nat.ne_of_lt (h.pending p hp).lt hphi
  refine ⟨{ h₁ with pending := fun p hp => ?_, distinctPhis := ?_ },
    hidle.arena, hidle.block, hidle.gotos⟩
  · rcases Array.mem_push.1 hp with hp | rfl
    · exact h₁.pending p hp
    · refine ⟨hblock.mono hidle.arena.blocks.size, ?_, hlt, ?_, ?_⟩
      · rw [hphi]
        exact h.ground.past.ops
      · exact congrArg Op.block hop
      · exact ⟨value, congrArg Op.kind hop⟩
  · change ((b₁.scope.pending.push ⟨block, name, phi⟩).toList.map (·.phi)).Nodup
    rw [Array.toList_push, List.map_append, List.map_singleton]
    refine List.nodup_append.2 ⟨h₁.distinctPhis, List.pairwise_singleton _ _, ?_⟩
    rintro o ho o' ho' rfl
    obtain ⟨p, hp, rfl⟩ := List.mem_map.1 ho
    exact hold p (Array.mem_toList_iff.1 hp) (List.mem_singleton.1 ho')

theorem readName_stands (h : Standing S R b) {block : BlockId} (hblock : S.Holds b.arena block)
    (name : String) :
    Gives (readName name block) b fun _ b' => Standing S R b' ∧ Lingers b b' := by
  have hsteps : ∃ n, (b.arena.blocks.size + 1) * (b.arena.blocks.size + 1) = n + 1 :=
    Nat.exists_eq_succ_of_ne_zero (Nat.mul_ne_zero (Nat.succ_ne_zero _) (Nat.succ_ne_zero _))
  obtain ⟨n, hn⟩ := hsteps
  refine Gives.look ?_
  rw [hn, readWithin]
  refine Gives.get ?_
  split
  · exact ⟨h, (Idle.refl b).lingers⟩
  · split
    · exact (readInput_rests _ block b).mono fun _ _ hi => ⟨h.idle hi, hi.lingers⟩
    · refine Gives.get ?_
      rw [if_neg (by rw [h.building]; exact Bool.false_ne_true)]
      exact h.wait hblock name

theorem readHere_reads (name : String) : Reads (readHere name) := by
  intro S R b hb hhere
  refine Gives.get (Gives.bind (readName_stands hb hhere name) ?_)
  rintro x b₁ ⟨h₁, hl₁⟩
  exact ⟨h₁.idle ⟨.refl _, rfl, rfl, rfl, rfl, rfl⟩, hl₁.trans ⟨.refl _, rfl, rfl⟩⟩

theorem readVariable_reads (id : OperandId) : Reads (readVariable id) := by
  intro S R b
  induction id using WellFounded.induction (measure OperandId.index).wf generalizing b with
  | _ id ih =>
    intro hb hhere
    have hself : Gives (pure id) b fun _ b' => Standing S R b' ∧ Lingers b b' :=
      Reads.pure id hb hhere
    rw [readVariable]
    refine Gives.get ?_
    split
    · rename_i name value hkind
      split
      · exact readHere_reads _ hb hhere
      · split
        · rename_i hlt
          refine Gives.bind (ih name hlt hb hhere) ?_
          exact fun _ b₁ h₁ => h₁
        · exact hself
    · rename_i owner hkind
      have howner : Gives (if _h : owner.index < id.index then readVariable owner else pure id) b
          fun _ b' => Standing S R b' ∧ Lingers b b' := by
        split
        · rename_i hlt
          exact ih owner hlt hb hhere
        · exact hself
      dsimp only
      split
      · split
        · exact hself
        · exact howner
      · exact howner
    · exact hself

theorem writeVariable_reads (id : OperandId) : Reads (writeVariable id) := by
  refine .get fun b => ?_
  dsimp only
  split
  · split
    · rename_i text _
      have hversion (var : OperandId) : Reads (do
          let version ← newTemporary (some var)
          bindIn b.block text version
          return version) :=
        .bind (newTemporary_rests _).reads fun _ => .bind (bindIn_rests _ _ _).reads fun _ => .pure _
      split
      · exact .bind (.pure _) hversion
      · exact .bind (newOperand_rests _).reads hversion
    · exact .bind (readVariable_reads _) fun _ => .pure _
  · exact .pure _

theorem current_moves {x : Lowering OperandId} (hx : Moves x) : Moves (current x) :=
  .bind hx fun id => (readVariable_reads id).moves

mutual

theorem readAssertion_reads : ∀ s : Assertion, Reads (readAssertion s)
  | .type value negated => by
    rw [readAssertion]
    exact .bind (readVariable_reads value) fun _ => .pure _
  | .composite children mode negated => by
    rw [readAssertion]
    exact .bind (readAssertions_reads children) fun _ => .pure _

theorem readAssertions_reads : ∀ l : List Assertion, Reads (readAssertions l)
  | [] => by
    rw [readAssertions]
    exact .pure _
  | s :: rest => by
    rw [readAssertions]
    exact .bind (readAssertion_reads s) fun _ => .bind (readAssertions_reads rest) fun _ => .pure _

end

/-! ## Assertions -/

/-- A block that does not end with an operation that ends a block goes on. -/
theorem goes_of_terminator? {a : Arena} (h : a.Wired) {block : BlockId}
    (hnone : (a.terminator? block).isNone = true) :
    ∀ op ∈ (a.block block).ops, (a.op op).kind.isTerminator = false := by
  intro op hop
  have hends := h.ends block
  rw [Arena.terminator?] at hnone
  obtain ⟨before, last, hlast⟩ := List.eq_nil_or_concat' (a.block block).ops |>.resolve_left
    (List.ne_nil_of_mem hop)
  rw [hlast] at hop hends hnone
  rcases List.mem_append.1 hop with hop | hop
  · exact (List.pairwise_append.1 hends).2.2 op hop last List.mem_cons_self
  · rw [List.mem_singleton.1 hop]
    rw [List.getLast?_concat, Option.filter_some] at hnone
    exact Bool.eq_false_iff.2 fun hterm => by
      rw [if_pos hterm] at hnone
      cases hnone

/-- An operation that does not end a block is put at the end of the current block, which goes on. -/
theorem emit_stands (h : Standing S R b) (hhere : S.Holds b.arena b.block)
    (hgoes : S.strict → ∀ op ∈ (b.arena.block b.block).ops,
      (b.arena.op op).kind.isTerminator = false)
    {kind : OpKind} (hkind : kind.isTerminator = false) (span : Span) :
    Gives (emit kind span) b fun _ b' =>
      Standing S R b' ∧ b'.arena.blocks.size = b.arena.blocks.size := by
  refine (emit_places kind span b).mono ?_
  rintro _ _ ⟨-, f, hf, rfl⟩
  exact ⟨(h.placeInside hhere hgoes hkind span).idle (.of_arena (Calm.modifyFunc _ b.func hf)),
    blocks_size_append ..⟩

theorem assertIn_stands (h : Standing S R b) {block : BlockId} (hblock : S.Holds b.arena block)
    (negated : Bool) (asserted : VarAssertion) :
    Gives (assertIn block negated asserted) b fun _ b' =>
      Standing S R b' ∧ b.arena.blocks.size ≤ b'.arena.blocks.size := by
  refine Gives.look ?_
  split
  case isFalse => exact ⟨h, Nat.le_refl _⟩
  case isTrue hnone =>
    refine Gives.bind (P := fun _ b₁ => b₁ = { b with block }) rfl ?_
    rintro _ _ rfl
    refine Gives.bind (readVariable_reads asserted.var (h.anywhere block) hblock) ?_
    rintro read b₁ ⟨h₁, hl₁⟩
    refine Gives.bind (writeVariable_reads asserted.var h₁ (hl₁.holds hblock)) ?_
    rintro write b₂ ⟨h₂, hl₂⟩
    have hl₂ := hl₁.trans hl₂
    refine Gives.bind (readAssertion_reads asserted.assertion h₂ (hl₂.holds hblock)) ?_
    rintro assertion b₃ ⟨h₃, hl₃⟩
    have hl := hl₂.trans hl₃
    have hgoes : S.strict → ∀ op ∈ (b₃.arena.block b₃.block).ops,
        (b₃.arena.op op).kind.isTerminator = false := by
      intro hs op hop
      have hwired := (h.ground.shaped hs).toWired
      rw [hl.block, hl.arena.blocks.ops] at hop
      rw [hl.arena.op op (hwired.op_lt hop)]
      exact goes_of_terminator? hwired hnone op hop
    refine Gives.bind (emit_stands h₃ (hl.holds hblock) hgoes rfl .none) ?_
    rintro _ b₄ ⟨h₄, hsize⟩
    exact ⟨h₄, Nat.le_trans hl.arena.blocks.size (Nat.le_of_eq hsize.symm)⟩

/-- What a condition asserts is put into two blocks of the body. -/
theorem assertBranches_stands (h : Standing S R b) (cond : OperandId) {ifBlock elseBlock : BlockId}
    (hif : S.Holds b.arena ifBlock) (helse : S.Holds b.arena elseBlock) :
    Gives (assertBranches cond ifBlock elseBlock) b fun _ b' => Standing S R b' := by
  refine Gives.get (Gives.look ?_)
  refine Gives.bind (Gives.forM (I := fun b' => Standing S R b' ∧
    b.arena.blocks.size ≤ b'.arena.blocks.size) ⟨h, Nat.le_refl _⟩ ?_) ?_
  · rintro asserted - b₁ ⟨h₁, hsize₁⟩
    refine Gives.bind (assertIn_stands h₁ (hif.mono hsize₁) false asserted) ?_
    rintro _ b₂ ⟨h₂, hsize₂⟩
    have hsize := Nat.le_trans hsize₁ hsize₂
    refine (assertIn_stands h₂ (helse.mono hsize) true asserted).mono ?_
    exact fun _ b₃ ⟨h₃, hsize₃⟩ => ⟨h₃, Nat.le_trans hsize hsize₃⟩
  · exact fun _ b₁ h₁ => h₁.1.anywhere b.block

end QueryTaint.Lower
