import QueryTaint.Proofs.Version.Step

/-!
# The steps that lowering is made of

The steps that all lowering is made of keep what is known of a builder: operands and operations are
made (`Fills`), blocks of the function are made, entered and left (`Runs`), and variables are read and
written. While a body is lowered, a read makes at most a φ that waits (`readName_runs`), and a write
binds a version of the variable (`writeVariable_runs`).
-/

namespace QueryTaint.Version

open Lower

variable {α β : Type} {b b' : Builder} {G : Set BlockId} {block : BlockId}

/-! ## Filling the arena -/

theorem change_fills {f : Arena → Arena} (h : ∀ a : Arena, a.Spares (f a)) : Fills (change f) :=
  fun b hjoins hlaid => .spares hjoins hlaid (h b.arena)

theorem changeFunc_fills {f : Func → Func} (hf : ∀ r, (f r).entry = r.entry) :
    Fills (changeFunc f) :=
  fun b hjoins hlaid => .spares hjoins hlaid (.modifyFunc b.arena b.func hf)

theorem newOperand_fills (kind : OperandKind) : Fills (newOperand kind) :=
  fun b hjoins hlaid => .spares hjoins hlaid (.newOperand b.arena kind)

theorem newString_fills (s : String) : Fills (newString s) := newOperand_fills _

theorem newTemporary_fills (owner : Option OperandId) : Fills (newTemporary owner) :=
  newOperand_fills _

theorem newOperand_kind (hjoins : b.arena.Joins) (hlaid : b.arena.Laid) (kind : OperandKind) :
    Gives (newOperand kind) b fun x b' => Filled b b' ∧ (b'.arena.operand x).kind = kind :=
  ⟨newOperand_fills kind hjoins hlaid,
    congrArg Operand.kind ((Arena.operand_newOperand ..).trans (if_pos rfl))⟩

theorem newString_names (hjoins : b.arena.Joins) (hlaid : b.arena.Laid) (name : String) :
    Gives (newString name) b fun n b' => Filled b b' ∧ b'.arena.stringOf? n = some name :=
  (newOperand_kind hjoins hlaid (.string name)).mono fun _ _ ⟨hf, hkind⟩ =>
    ⟨hf, congrArg OperandKind.string? hkind⟩

/-- A new temporary that is no version of a variable may be the result of every operation. -/
theorem newTemporary_suits (hjoins : b.arena.Joins) (hlaid : b.arena.Laid) :
    Gives (newTemporary none) b fun r b' => b'.arena.Nameless r ∧
      ∀ kind : OpKind, kind.sole? = none ∨ kind.sole? = some r → b'.arena.Suits kind := by
  have hr := Arena.nameless_of_temporary (newOperand_kind (b := b) hjoins hlaid (.temporary none)).2
  refine ⟨hr, fun kind hsole => hsole.elim .of_sole? fun hkind => .of_nameless hkind hr ?_⟩
  exact fun op hop => Nat.lt_irrefl _ (hjoins.result_lt hop)

theorem detached_filled (hjoins : b.arena.Joins) (hlaid : b.arena.Laid) {kind : OpKind}
    (hkind : b.arena.Suits kind) (span : Span) :
    Gives (detached kind span) b fun _ b' => Filled b b' :=
  .addOp hjoins hlaid hkind span

theorem emit_filled (hjoins : b.arena.Joins) (hlaid : b.arena.Laid) {kind : OpKind}
    (hkind : b.arena.Suits kind) (span : Span) :
    Gives (emit kind span) b fun _ b' => Filled b b' := by
  refine Gives.bind (detached_filled hjoins hlaid hkind span) fun op b₁ h₁ => ?_
  have hrest : Fills (do
      let block := (← get).block
      change (·.append block op)
      if ← look fun a => kind.reads.any fun id => (a.operand id).tainted then
        changeFunc fun f => { f with sources := f.sources ++ [op] }
      return op) := by
    refine .get fun b => .bind (change_fills fun a => .append a b.block op) fun _ => .look fun _ => ?_
    split
    · exact .bind (changeFunc_fills (by exact fun _ => rfl)) fun _ => .pure _
    · exact .pure _
  exact (hrest h₁.joins h₁.laid).mono fun _ _ => h₁.trans

theorem emit_fills {kind : OpKind} (hkind : kind.sole? = none) (span : Span) :
    Fills (emit kind span) :=
  fun _ hjoins hlaid => emit_filled hjoins hlaid (.of_sole? hkind) span

/-- An operation is made whose result is made for it. -/
theorem resultFor_fills (make : OperandId → OpKind) {place : OpKind → Build α}
    (hmake : ∀ r, (make r).sole? = none ∨ (make r).sole? = some r)
    (hplace : ∀ {kind : OpKind} {b : Builder}, b.arena.Joins → b.arena.Laid → b.arena.Suits kind →
      Gives (place kind) b fun _ b' => Filled b b')
    {next : OperandId → α → Build β} (hnext : ∀ r y, Fills (next r y)) : Fills (do
      let result ← newTemporary none
      let y ← place (make result)
      next result y) := by
  intro b hjoins hlaid
  refine Gives.bind ((newTemporary_fills none hjoins hlaid).and (newTemporary_suits hjoins hlaid)) ?_
  rintro r b₁ ⟨h₁, -, hsuits⟩
  refine Gives.bind (hplace h₁.joins h₁.laid (hsuits _ (hmake r))) fun y b₂ h₂ => ?_
  exact (hnext r y h₂.joins h₂.laid).mono fun _ _ h₃ => (h₁.trans h₂).trans h₃

/-- The same while lowering goes on. -/
theorem Goes.resultFor (make : OperandId → OpKind) {place : OpKind → Build α}
    (hmake : ∀ r, (make r).sole? = none ∨ (make r).sole? = some r)
    (hplace : ∀ {kind : OpKind} {b : Builder}, b.arena.Joins → b.arena.Laid → b.arena.Suits kind →
      Gives (place kind) b fun _ b' => Filled b b')
    {next : OperandId → Lowering β} (hnext : ∀ r, Goes G (next r)) : Goes G (do
      let result ← newTemporary none
      let _ ← place (make result)
      next result) := by
  have hmade : Fills (do
      let result ← newTemporary none
      let _ ← place (make result)
      return result) := resultFor_fills make hmake hplace fun _ _ => .pure _
  have hrest := build (hmade.runs (G := G)) hnext
  exact hrest

theorem emitValue_fills {make : OperandId → OpKind}
    (hmake : ∀ r, (make r).sole? = none ∨ (make r).sole? = some r) (span : Span) :
    Fills (emitValue span make) :=
  resultFor_fills make hmake (fun hjoins hlaid hkind => emit_filled hjoins hlaid hkind span)
    fun _ _ => .pure _

theorem emitCall_fills {make : OperandId → OpKind} (hmake : ∀ r, (make r).sole? = none)
    (span : Span) : Fills (emitCall span make) :=
  .bind (newTemporary_fills none) fun r => .bind (emit_fills (hmake r) span) fun _ =>
    .bind (changeFunc_fills (by exact fun _ => rfl)) fun _ => .pure _

theorem negate_fills (cond : OperandId) : Fills (negate cond) :=
  resultFor_fills (.unary .booleanNot cond) (fun _ => .inr rfl)
    (fun hjoins hlaid hkind => detached_filled hjoins hlaid hkind .none) fun _ _ => .pure _

theorem guardBlock_fills (block : BlockId) : Fills (guardBlock block) := by
  refine .get fun b => change_fills fun a => ?_
  induction b.scope.conditions.reverse generalizing a with
  | nil => exact .refl a
  | cons cond rest ih => exact (Arena.Spares.addGuard a block cond).trans (ih _)

theorem aside_fills {f : Builder → Builder} (h : ∀ b, Aside b (f b)) :
    Fills (modify f : Build Unit) :=
  fun b hjoins hlaid => .same hjoins hlaid (h b).arena (h b).func (h b).block (h b).scope

theorem isDead_fills (block : BlockId) : Fills (isDead block) :=
  fun _ hjoins hlaid => .same hjoins hlaid rfl rfl rfl rfl

/-! ## Going from block to block -/

theorem goTo_runs (hblock : block ∈ G) : Runs G (goTo block) :=
  fun _ hb hG => hb.goTo (hG block hblock)

theorem link_runs {source target : BlockId} (hs : source ∈ G) (ht : target ∈ G) :
    Runs G (change (·.link source target)) :=
  fun _ hb hG => hb.filled (.link hb.apt.joins hb.apt.laid ((hG source hs).trans (hG target ht).symm))

theorem jump_runs {target : BlockId} (ht : target ∈ G) (span : Span) : Runs G (jump target span) :=
  .bind (emit_fills rfl span).runs fun _ => .get fun _ =>
    link_runs (Set.mem_insert ..) (Set.mem_insert_of_mem _ ht)

theorem jumpIf_runs (cond : OperandId) {ifTarget elseTarget : BlockId} (hif : ifTarget ∈ G)
    (helse : elseTarget ∈ G) (span : Span) : Runs G (jumpIf cond ifTarget elseTarget span) := by
  refine .bind (emit_fills rfl span).runs fun _ => .get fun b => ?_
  have hguard : Runs (insert b.block G)
      (change (·.modifyBlock b.block fun b => { b with guarded := true })) :=
    (change_fills fun a => .modifyBlock a b.block (by exact fun _ => rfl) (by exact fun _ => rfl)
      (by exact fun _ => rfl)).runs
  have hlinks : Runs (insert b.block G) (do
      change (·.modifyBlock b.block fun b => { b with guarded := true })
      change (·.link b.block ifTarget)
      change (·.link b.block elseTarget)) :=
    .bind hguard fun _ => .bind (link_runs (Set.mem_insert ..) (Set.mem_insert_of_mem _ hif)) fun _ =>
      link_runs (Set.mem_insert ..) (Set.mem_insert_of_mem _ helse)
  exact hlinks

theorem changeConditions_runs (f : List OperandId → List OperandId) :
    Runs G (changeScope fun s => { s with conditions := f s.conditions }) :=
  fun _ hb _ => hb.rescope (hb.apt.rescope _ (fun _ _ => id) (fun _ _ _ => hb.apt.versions)
    (fun _ _ => hb.apt.labels) hb.apt.gotos) rfl rfl

theorem under_goes {x : Lowering α} (cond : OperandId) (hx : Goes G x) : Goes G (Lower.under cond x) :=
  .build (changeConditions_runs (cond :: ·)) fun _ => .bind hx fun _ =>
    .build (changeConditions_runs List.tail) fun _ => .pure _

theorem inBlock_goes {x : Lowering α} (hblock : block ∈ G) (hx : Goes G x) :
    Goes G (inBlock block x) :=
  .get fun _ => .build (goTo_runs (Set.mem_insert_of_mem _ hblock)) fun _ =>
    .bind (hx.mono (Set.subset_insert ..)) fun _ => .build (goTo_runs (Set.mem_insert ..)) fun _ =>
      .pure _

/-- A block is made that has no φs yet. -/
theorem newBlock_makes (hb : Open b) : Gives newBlock b fun block b' => Next b b' ∧
    (b'.arena.block block).func = some b'.func ∧ b.arena.blocks.size ≤ block.index ∧
      block.index < b'.arena.blocks.size ∧ (b'.arena.block block).phis = [] := by
  have hm := Arena.Makes.newBlock b.arena (hb.apt.laid.func_lt hb.apt.here)
  refine ⟨hb.makes hm (.inl rfl), ?_, Nat.le_refl _, hm.lt, ?_⟩
  · exact congrArg Block.func hm.self
  · exact congrArg Block.phis hm.self

theorem Runs.newBlock {f : BlockId → Build β} (h : ∀ block, Runs (insert block G) (f block)) :
    Runs G (newBlock >>= f) := fun _ hb hG =>
  Gives.bind (newBlock_makes hb) fun block _ ⟨h₁, hfunc, _⟩ =>
    (h block h₁.isOpen ((hG.next h₁).insert hfunc)).mono fun _ _ h₂ => h₁.trans h₂

theorem Goes.newBlock {f : BlockId → Lowering β} (h : ∀ block, Goes (insert block G) (f block)) :
    Goes G (liftM Lower.newBlock >>= f) := fun _ hb hG =>
  Yields.bind (.lift (newBlock_makes hb)) fun block _ ⟨h₁, hfunc, _⟩ =>
    (h block h₁.isOpen ((hG.next h₁).insert hfunc)).mono fun _ _ h₂ => h₁.trans h₂

theorem goDead_runs : Runs G goDead :=
  .newBlock fun block => .bind
    (change_fills fun a => .modifyBlock a block (by exact fun _ => rfl) (by exact fun _ => rfl)
      (by exact fun _ => rfl)).runs
    fun _ => goTo_runs (Set.mem_insert ..)

/-! ## Versions -/

/-- The name of a new version is that of its variable. -/
theorem nameOf?_newTemporary {a : Arena} {var name : OperandId} {value : Option OperandId}
    {text : String} (hvar : (a.operand var).kind = .variable name value)
    (hname : a.stringOf? name = some text) :
    (a.newOperand (.temporary (some var))).2.nameOf? ⟨a.operands.size⟩ = some text := by
  have hs := Arena.Spares.newOperand a (.temporary (some var))
  have hold : var.index < a.operands.size := Arena.lt_of_kind fun c => by rw [hvar]; exact nofun
  have hkind : ((a.newOperand (.temporary (some var))).2.operand var).kind = .variable name value := by
    rw [Arena.operand_newOperand, if_neg (Nat.ne_of_lt hold), hvar]
  have hself : ((a.newOperand (.temporary (some var))).2.operand ⟨a.operands.size⟩).kind =
      .temporary (some var) := congrArg Operand.kind ((Arena.operand_newOperand ..).trans (if_pos rfl))
  rw [Arena.nameOf?_version hself hkind]
  exact hs.later.stringOf? hname

/-- A variable is made that is named by a string. -/
theorem newVariable_names (hjoins : b.arena.Joins) (hlaid : b.arena.Laid) (name : String) :
    Gives (newVariable name) b fun var b' => Filled b b' ∧
      ∃ n, (b'.arena.operand var).kind = .variable n none ∧ b'.arena.stringOf? n = some name := by
  refine Gives.bind (newString_names hjoins hlaid name) ?_
  rintro n b₁ ⟨h₁, hn⟩
  refine (newOperand_kind h₁.joins h₁.laid (.variable n none)).mono ?_
  exact fun var b₂ ⟨h₂, hvar⟩ => ⟨h₁.trans h₂, n, hvar, h₂.later.stringOf? hn⟩

/-- A version of a variable is made. -/
theorem newTemporary_names (hjoins : b.arena.Joins) (hlaid : b.arena.Laid) {var name : OperandId}
    {value : Option OperandId} {text : String}
    (hvar : (b.arena.operand var).kind = .variable name value)
    (hname : b.arena.stringOf? name = some text) :
    Gives (newTemporary (some var)) b fun x b' => Filled b b' ∧ b'.arena.nameOf? x = some text :=
  ⟨newTemporary_fills _ hjoins hlaid, nameOf?_newTemporary hvar hname⟩

/-- A φ is made for a variable, which its result is a version of. -/
theorem newPhi_names (hjoins : b.arena.Joins) (hlaid : b.arena.Laid) (name : String) :
    Gives (newPhi name) b fun made b' => Filled b b' ∧ b'.arena.nameOf? made.1 = some name ∧
      b'.arena.variableOf? made.2 = some name := by
  refine Gives.bind (newVariable_names hjoins hlaid name) ?_
  rintro var b₁ ⟨h₁, n, hvar, hn⟩
  have hfresh : Gives (newTemporary (some var)) b₁ fun result b₂ =>
      ∀ op, (b₂.arena.op op).kind.sole? ≠ some result :=
    fun op hop => Nat.lt_irrefl _ (h₁.joins.result_lt hop)
  refine Gives.bind ((newTemporary_names h₁.joins h₁.laid hvar hn).and hfresh) ?_
  rintro result b₂ ⟨⟨h₂, hname⟩, hfresh⟩
  have hsuits : b₂.arena.Suits (.phi [] result) := by
    refine ⟨fun hr => ?_, fun hr hj => (by cases hj), fun hr => ?_, fun hkind => ?_⟩
    · cases hr
      exact hfresh
    · cases hr
      exact .inr ⟨name, hname⟩
    · cases hkind
      exact fun _ => nofun
  refine Gives.bind (P := fun phi b₃ => Filled b₂ b₃ ∧ b₃.arena.variableOf? phi = b₃.arena.nameOf? result)
    ⟨detached_filled h₂.joins h₂.laid hsuits .none, ?_⟩ ?_
  · change (((b₂.arena.addOp _ _).2.op ⟨b₂.arena.ops.size⟩).kind.joined?).bind _ = _
    rw [Arena.op_addOp, if_pos rfl]
    rfl
  · rintro phi b₃ ⟨h₃, hphi⟩
    have hname := h₃.later.nameOf? hname
    exact ⟨(h₁.trans h₂).trans h₃, hname, hphi.trans hname⟩

theorem bindIn_next (hb : Open b) {name : String} {x : OperandId}
    (hname : b.arena.nameOf? x = some name) (block : BlockId) :
    Gives (bindIn block name x) b fun _ b' => Next b b' := hb.bind hname block

theorem readInput_fills (tag : String) (block : BlockId) : Fills (readInput tag block) :=
  .bind (changeFunc_fills (by exact fun _ => rfl)) fun _ =>
    .bind (change_fills fun a => .modifyBlock a block (by exact fun _ => rfl) (by exact fun _ => rfl)
      (by exact fun _ => rfl)) fun _ =>
    .bind (newOperand_fills _) fun input =>
    .bind (change_fills fun a => .modifyOperand a input (by exact fun _ => rfl)) fun _ => .pure _

/-! ## Reading and writing while a body is lowered -/

theorem readName_runs (name : String) (hblock : block ∈ G) : Runs G (readName name block) := by
  intro b hb hG
  have hsteps : ∃ n, (b.arena.blocks.size + 1) * (b.arena.blocks.size + 1) = n + 1 :=
    Nat.exists_eq_succ_of_ne_zero (Nat.mul_ne_zero (Nat.succ_ne_zero _) (Nat.succ_ne_zero _))
  obtain ⟨n, hn⟩ := hsteps
  refine Gives.look ?_
  rw [hn, readWithin]
  refine Gives.get ?_
  split
  · exact hb.next
  · rename_i hnone
    split
    · exact (readInput_fills _ block).runs hb hG
    · rename_i hinput
      refine Gives.get ?_
      rw [if_neg (by rw [hb.building]; exact Bool.false_ne_true)]
      -- a φ is made, which waits from now on
      refine Gives.bind (newPhi_names hb.apt.joins hb.apt.laid name) ?_
      rintro ⟨value, phi⟩ b₁ ⟨h₁, hvalue, hphi⟩
      have hb₁ := hb.filled h₁
      have hfunc : (b₁.arena.block block).func = some b₁.func := by
        rw [h₁.func]
        exact h₁.later.func (hG block hblock)
      exact hb₁.trans (hb₁.isOpen.wait hfunc hphi hvalue hinput (by rw [h₁.scope]; exact hnone))

theorem readHere_runs (name : String) : Runs G (readHere name) :=
  .get fun _ => .bind (readName_runs name (Set.mem_insert ..)) fun _ =>
    .bind (Fills.runs (aside_fills fun _ => ⟨rfl, rfl, rfl, rfl⟩)) fun _ => .pure _

theorem readVariable_runs (id : OperandId) : Runs G (readVariable id) := by
  intro b
  induction id using WellFounded.induction (measure OperandId.index).wf generalizing b with
  | _ id ih =>
    intro hb hG
    have hself : Gives (pure id) b fun _ b' => Next b b' := hb.next
    rw [readVariable]
    refine Gives.get ?_
    split
    · rename_i name value hkind
      split
      · exact readHere_runs _ hb hG
      · split
        · rename_i hlt
          refine Gives.bind (ih name hlt hb hG) ?_
          exact fun _ b₁ h₁ => h₁
        · exact hself
    · rename_i owner hkind
      have howner : Gives (if _h : owner.index < id.index then readVariable owner else pure id) b
          fun _ b' => Next b b' := by
        split
        · rename_i hlt
          exact ih owner hlt hb hG
        · exact hself
      dsimp only
      split
      · split
        · exact hself
        · exact howner
      · exact howner
    · exact hself

/-- A new version of a variable is bound to its name. -/
theorem bindVersion_next (hb : Open b) {var name : OperandId} {value : Option OperandId}
    {text : String} (hvar : (b.arena.operand var).kind = .variable name value)
    (hname : b.arena.stringOf? name = some text) (block : BlockId) :
    Gives (do
      let version ← newTemporary (some var)
      bindIn block text version
      return version) b fun _ b' => Next b b' := by
  refine Gives.bind (newTemporary_names hb.apt.joins hb.apt.laid hvar hname) ?_
  rintro version b₁ ⟨h₁, hversion⟩
  have hb₁ := hb.filled h₁
  exact hb₁.trans (bindIn_next hb₁.isOpen hversion block)

theorem writeVariable_runs (id : OperandId) : Runs G (writeVariable id) := by
  intro b hb hG
  refine Gives.get ?_
  dsimp only
  split
  · rename_i name value hvar
    split
    · rename_i text hname
      split
      · exact bindVersion_next hb hvar hname _
      · refine Gives.bind (newOperand_kind hb.apt.joins hb.apt.laid (.variable name none)) ?_
        rintro var b₁ ⟨h₁, hkind⟩
        have hb₁ := hb.filled h₁
        exact (bindVersion_next hb₁.isOpen hkind (h₁.later.stringOf? hname) b.block).mono
          fun _ _ h₂ => hb₁.trans h₂
    · exact Runs.bind (readVariable_runs _) (fun _ => .pure _) hb hG
  · exact hb.next

theorem current_goes {x : Lowering OperandId} (hx : Goes G x) : Goes G (current x) :=
  .bind hx fun id => .lift (readVariable_runs id)

/-! ## Assertions -/

mutual

theorem readAssertion_runs : ∀ s : Assertion, Runs G (readAssertion s)
  | .type value negated => by
    rw [readAssertion]
    exact .bind (readVariable_runs value) fun _ => .pure _
  | .composite children mode negated => by
    rw [readAssertion]
    exact .bind (readAssertions_runs children) fun _ => .pure _

theorem readAssertions_runs : ∀ l : List Assertion, Runs G (readAssertions l)
  | [] => by
    rw [readAssertions]
    exact .pure _
  | s :: rest => by
    rw [readAssertions]
    exact .bind (readAssertion_runs s) fun _ => .bind (readAssertions_runs rest) fun _ => .pure _

end

theorem assertIn_runs (hblock : block ∈ G) (negated : Bool) (asserted : VarAssertion) :
    Runs G (assertIn block negated asserted) := by
  refine .look fun _ => ?_
  split
  · exact .bind (goTo_runs hblock) fun _ => .bind (readVariable_runs _) fun _ =>
      .bind (writeVariable_runs _) fun _ => .bind (readAssertion_runs _) fun _ =>
        .bind (emit_fills rfl .none).runs fun _ => .pure _
  · exact .pure _

theorem assertBranches_runs (cond : OperandId) {ifBlock elseBlock : BlockId} (hif : ifBlock ∈ G)
    (helse : elseBlock ∈ G) : Runs G (assertBranches cond ifBlock elseBlock) :=
  .get fun _ => .look fun _ => .bind (.forM fun asserted _ =>
    .bind (assertIn_runs (Set.mem_insert_of_mem _ hif) false asserted) fun _ =>
      assertIn_runs (Set.mem_insert_of_mem _ helse) true asserted) fun _ =>
    goTo_runs (Set.mem_insert ..)

end QueryTaint.Version

/-!
## Completing φs

Once a body is there, the φs that wait take what is read in the live predecessors of their blocks. A
read that needs more φs puts them into blocks where the variable is not bound (`readWithin_closes`),
so that the φs of a block stay φs of different variables. Whatever is found for a φ is a version of
its variable (`addIncoming_closes`), and after the last φ none waits any more (`finishBody_closes`).
-/

namespace QueryTaint.Version

open Lower

variable {L : List PendingPhi} {b b' b'' : Builder} {block : BlockId} {name : String} {phi : OpId}

/-! ### Placing φs -/

theorem Apt.tail {p : PendingPhi} (h : Apt (p :: L) b) : Apt L b :=
  { h with
    waits := fun q hq => h.waits q (List.mem_cons_of_mem _ hq)
    distinct := (List.pairwise_cons.1 h.distinct).2
    taken := fun hfunc hphi hname => (h.taken hfunc hphi hname).imp_right
      fun hfree q hq => hfree q (List.mem_cons_of_mem _ hq) }

/-- A φ of a variable that is bound in the block is put into it. -/
theorem Apt.place (h : Apt L b) (hphi : b.arena.variableOf? phi = some name)
    (hbound : b.scope.lookup block name ≠ none)
    (hfree : ∀ p ∈ (b.arena.block block).phis, b.arena.variableOf? p ≠ some name)
    (hwaits : ∀ p ∈ L, p.block = block → p.name ≠ name) :
    Apt L { b with arena := b.arena.attachPhi block phi } := by
  refine h.attachPhi (Arena.lt_of_variableOf? hphi) (.inr ⟨name, hphi, hfree⟩) fun n hn => ?_
  rw [hphi] at hn
  cases hn
  exact ⟨hbound, hwaits⟩

/-- What holds after a step that completes φs of the function. -/
structure Closes (L : List PendingPhi) (b b' : Builder) : Prop where
  apt : Apt L b'
  complete : b'.scope.complete = true
  after : After {b.func} b b'

theorem Closes.refl (h : Apt L b) (hcomplete : b.scope.complete = true) : Closes L b b :=
  ⟨h, hcomplete, .refl b⟩

theorem Closes.trans {L' : List PendingPhi} (h : Closes L b b') (h' : Closes L' b' b'') :
    Closes L' b b'' :=
  ⟨h'.apt, h'.complete, h.after.trans (h.after.func ▸ h'.after)⟩

theorem Closes.func (h : Closes L b b') (hblock : (b.arena.block block).func = some b.func) :
    (b'.arena.block block).func = some b'.func := by
  rw [h.after.func]
  exact h.after.later.func hblock

theorem Closes.of_filled (h : Apt L b) (hcomplete : b.scope.complete = true) (hf : Filled b b') :
    Closes L b b' :=
  ⟨h.filled hf, hf.scope ▸ hcomplete, hf.after⟩

/-- A φ that is put into a block of the function changes no other function. -/
theorem after_attachPhi (hblock : (b.arena.block block).func = some b.func) (phi : OpId)
    (scope : Scope) :
    After {b.func} b { b with arena := b.arena.attachPhi block phi, scope } where
  later := Arena.later_attachPhi ..
  func := rfl
  phis other _ hother := by
    refine (Arena.phis_attachPhi ..).trans (if_neg fun hsame => ?_)
    exact hother b.func rfl (hsame.1 ▸ hblock)
  made _ hge hlt := absurd (Nat.lt_of_lt_of_eq hlt (Arena.size_blocks_modifyBlock ..))
    (Nat.not_lt.2 hge)

/-! ### Reading in predecessors -/

/-- A step gives a version of a variable in every block of the function. -/
def Finds (L : List PendingPhi) (name : String) (read : BlockId → Build OperandId) : Prop :=
  ∀ ⦃b : Builder⦄ ⦃block : BlockId⦄, Apt L b → b.scope.complete = true →
    (b.arena.block block).func = some b.func →
      Gives (read block) b fun x b' => Closes L b b' ∧ b'.arena.nameOf? x = some name

theorem filled_addPhiOperand (hjoins : b.arena.Joins) (hlaid : b.arena.Laid) {x : OperandId}
    (hphi : b.arena.variableOf? phi = some name) (hx : b.arena.nameOf? x = some name) :
    Filled b { b with arena := b.arena.addPhiOperand phi x } := by
  have hl := Arena.later_addPhiOperand b.arena phi x
  have hblocks : (b.arena.addPhiOperand phi x).blocks = b.arena.blocks := by
    unfold Arena.addPhiOperand
    split <;> rfl
  have hblock (other : BlockId) :
      (b.arena.addPhiOperand phi x).block other = b.arena.block other := by
    rw [Arena.block, Arena.block, hblocks]
  exact ⟨hl, hjoins.addPhiOperand hphi hx,
    hlaid.keep hjoins hl (fun _ => by rw [hblock]) (fun _ => by rw [hblock])
      (fun _ => by rw [hblock]) (by rw [hblocks]),
    fun _ => by rw [hblock], by rw [hblocks], rfl, rfl, rfl⟩

/-- A φ of a variable takes the version that is found in each of some blocks. -/
theorem addIncoming_closes {read : BlockId → Build OperandId} (hread : Finds L name read)
    {preds : List BlockId} (h : Apt L b) (hcomplete : b.scope.complete = true)
    (hpreds : ∀ pred ∈ preds, (b.arena.block pred).func = some b.func)
    (hphi : b.arena.variableOf? phi = some name) :
    Gives (addIncoming phi read preds) b fun _ b' => Closes L b b' := by
  induction preds generalizing b with
  | nil => exact .refl h hcomplete
  | cons pred rest ih =>
    obtain ⟨hpred, hrest⟩ := List.forall_mem_cons.1 hpreds
    refine Gives.bind (hread h hcomplete hpred) ?_
    rintro x b₁ ⟨h₁, hx⟩
    have hphi₁ : b₁.arena.variableOf? phi = some name :=
      (h.joins.variableOf?_eq h₁.after.later (Arena.lt_of_variableOf? hphi)).trans hphi
    have hfilled := filled_addPhiOperand h₁.apt.joins h₁.apt.laid hphi₁ hx
    have h₂ := h₁.trans (.of_filled h₁.apt h₁.complete hfilled)
    refine Gives.bind (P := fun _ b₂ => b₂ = { b₁ with arena := b₁.arena.addPhiOperand phi x }) rfl ?_
    rintro _ _ rfl
    refine (ih h₂.apt h₂.complete (fun p hp => h₂.func (hrest p hp)) ?_).mono fun _ _ => h₂.trans
    exact (h₁.apt.joins.variableOf?_eq hfilled.later (Arena.lt_of_variableOf? hphi₁)).trans hphi₁

theorem Apt.preds (h : Apt L b) (hblock : (b.arena.block block).func = some b.func) :
    ∀ pred ∈ (b.arena.block block).preds, (b.arena.block pred).func = some b.func :=
  fun pred hpred => (h.laid.linked block pred hpred).trans hblock

theorem Apt.livePreds (h : Apt L b) (hblock : (b.arena.block block).func = some b.func) :
    ∀ pred ∈ b.arena.livePreds block, (b.arena.block pred).func = some b.func :=
  fun pred hpred => h.preds hblock pred (List.mem_filter.1 hpred).1

/-- A φ of the variable is made. -/
theorem newPhi_closes (h : Apt L b) (hcomplete : b.scope.complete = true) (name : String) :
    Gives (newPhi name) b fun made b' => Closes L b b' ∧ b'.scope = b.scope ∧
      b'.arena.nameOf? made.1 = some name ∧ b'.arena.variableOf? made.2 = some name :=
  (newPhi_names h.joins h.laid name).mono fun _ _ ⟨hf, hname, hphi⟩ =>
    ⟨.of_filled h hcomplete hf, hf.scope, hname, hphi⟩

/-- A φ is put into a block where its variable is not bound, and is bound there. -/
theorem closes_attachPhi (h : Apt L b) (hcomplete : b.scope.complete = true)
    (hblock : (b.arena.block block).func = some b.func) {x : OperandId}
    (hphi : b.arena.variableOf? phi = some name) (hx : b.arena.nameOf? x = some name)
    (hnone : b.scope.lookup block name = none) :
    Closes L b { b with
      arena := b.arena.attachPhi block phi, scope := b.scope.bind block name x } := by
  have hunbound {n : String} (hn : b.scope.lookup block n ≠ none) : n ≠ name := by
    rintro rfl
    exact hn hnone
  refine ⟨(h.bind hx block).place hphi ?_ (fun p hp hname => ?_) fun p hp hsame => ?_, hcomplete,
    after_attachPhi hblock phi _⟩
  · dsimp only
    rw [Scope.lookup_bind, if_pos ⟨rfl, rfl⟩]
    exact Option.some_ne_none x
  · exact (h.taken hblock hp hname).1 hnone
  · exact hunbound (hsame ▸ (h.waits p hp).bound)

theorem readWithin_closes (hinput : inputTag? name = none) (steps : Nat) :
    Finds L name (readWithin name steps) := by
  induction steps with
  | zero =>
    intro b block h hcomplete _
    rw [readWithin]
    refine Gives.bind (newPhi_closes h hcomplete name) ?_
    rintro _ _ ⟨h₁, -, hname, -⟩
    exact ⟨h₁, hname⟩
  | succ steps ih =>
    intro b block h hcomplete hblock
    rw [readWithin]
    refine Gives.get ?_
    split
    · rename_i x hx
      exact ⟨.refl h hcomplete, h.versions hx⟩
    · rename_i hnone
      rw [hinput]
      refine Gives.get ?_
      rw [if_pos hcomplete]
      refine Gives.look (Gives.look ?_)
      split
      · -- the version of the only predecessor
        rename_i hsole
        have hpred : (b.arena.block ((b.arena.block block).preds.headD block)).func = some b.func := by
          cases hpreds : (b.arena.block block).preds with
          | nil => exact hblock
          | cons pred rest => exact h.preds hblock pred (hpreds ▸ List.mem_cons_self)
        refine Gives.bind (ih h hcomplete hpred) ?_
        rintro x b₁ ⟨h₁, hx⟩
        refine ⟨h₁.trans ⟨h₁.apt.bind hx block, h₁.complete, { After.refl b₁ with }⟩, hx⟩
      · refine Gives.bind (newPhi_closes h hcomplete name) ?_
        rintro ⟨x, phi⟩ b₁ ⟨h₁, hscope, hx, hphi⟩
        have h₂ := closes_attachPhi h₁.apt h₁.complete (h₁.func hblock) hphi hx
          (by rw [hscope]; exact hnone)
        refine Gives.bind (P := fun _ b₂ => b₂ = { b₁ with arena := b₁.arena.attachPhi block phi })
          rfl ?_
        rintro _ _ rfl
        refine Gives.bind (P := fun _ b₂ => b₂ = { b₁ with
          arena := b₁.arena.attachPhi block phi, scope := b₁.scope.bind block name x }) rfl ?_
        rintro _ _ rfl
        have hphi₂ := (h₁.apt.joins.variableOf?_eq h₂.after.later
          (Arena.lt_of_variableOf? hphi)).trans hphi
        refine Gives.bind (addIncoming_closes ih h₂.apt h₂.complete (fun p hp =>
          h₂.func (h₁.func (h.livePreds hblock p hp))) hphi₂) ?_
        exact fun _ b₃ h₃ => ⟨(h₁.trans h₂).trans h₃,
          h₃.after.later.nameOf? (h₂.after.later.nameOf? hx)⟩

theorem readName_closes (hinput : inputTag? name = none) : Finds L name (readName name) :=
  fun _ _ h hcomplete hblock => Gives.look (readWithin_closes hinput _ h hcomplete hblock)

/-! ### The φs that wait -/

theorem completePhis_closes (h : Apt L b) (hcomplete : b.scope.complete = true) :
    Gives (completePhis L) b fun _ b' => Closes [] b b' := by
  induction L generalizing b with
  | nil => exact .refl h hcomplete
  | cons p rest ih =>
    have hw := h.waits p List.mem_cons_self
    refine Gives.look (Gives.bind (addIncoming_closes (readName_closes hw.input) h hcomplete
      (h.livePreds hw.func) hw.name) fun _ b₁ h₁ => ?_)
    have hw₁ := h₁.apt.waits p List.mem_cons_self
    have hplaced : Apt rest { b₁ with arena := b₁.arena.attachPhi p.block p.phi } := by
      refine h₁.apt.tail.place hw₁.name hw₁.bound (fun q hq hname => ?_) fun q hq hsame => ?_
      · exact (h₁.apt.taken hw₁.func hq hname).2 p List.mem_cons_self rfl rfl
      · exact ((List.pairwise_cons.1 h₁.apt.distinct).1 q hq hsame.symm).symm
    have h₂ := h₁.trans ⟨hplaced, h₁.complete, after_attachPhi hw₁.func p.phi b₁.scope⟩
    exact Gives.bind (P := fun _ b₂ => b₂ = { b₁ with arena := b₁.arena.attachPhi p.block p.phi }) rfl
      fun _ _ heq => heq ▸ (ih h₂.apt h₂.complete).mono fun _ _ => h₂.trans

/-- After the end of a body no φ waits any more. -/
theorem finishBody_closes (h : Open b) :
    Gives finishBody b fun _ b' => Apt [] b' ∧ After {b.func} b b' := by
  have hrest {b₁ : Builder} (h₁ : Next b b₁) : Gives (do
      let pending := (← get).scope.pending
      changeScope fun s => { s with complete := true, pending := #[] }
      completePhis pending.toList) b₁ fun _ b' => Apt [] b' ∧ After {b.func} b b' := by
    have hcomplete : Apt b₁.scope.pending.toList
        { b₁ with scope := { b₁.scope with complete := true, pending := #[] } } :=
      h₁.isOpen.apt.rescope _ (fun _ _ => id) (fun _ _ _ => h₁.isOpen.apt.versions)
        (fun _ _ => h₁.isOpen.apt.labels) h₁.isOpen.apt.gotos
    refine Gives.get (Gives.bind (P := fun _ b₂ =>
      b₂ = { b₁ with scope := { b₁.scope with complete := true, pending := #[] } }) rfl ?_)
    rintro _ _ rfl
    refine (completePhis_closes hcomplete rfl).mono fun _ b₂ h₂ => ⟨h₂.apt, ?_⟩
    have hafter : After {b₁.func} b₁ b₂ := { h₂.after with }
    rw [h₁.after.func] at hafter
    exact (h₁.after.mono (Set.empty_subset _)).trans hafter
  refine Gives.get (Gives.look ?_)
  dsimp only
  split
  · exact Gives.bind ((emit_fills rfl .none).runs h (G := ∅) fun _ => nofun) fun _ _ h₁ => hrest h₁
  · exact hrest h.next

end QueryTaint.Version
