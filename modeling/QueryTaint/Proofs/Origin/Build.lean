import QueryTaint.Proofs.Lower.Induction
import QueryTaint.Proofs.Origin.Step

/-!
# Building keeps to the file's entries

The steps that all of lowering is made of: making operands, blocks and operations, going on in another
block, jumping and guarding. A call is owed until its function lists it (`detached_owes`), which
`emitCall` does at once.
-/

namespace QueryTaint

namespace Lower

variable {a₀ : Arena} {D : Owed} {b : Builder} {G : Set Entry} {e : Entry}

/-! ## What is known -/

@[simp] theorem Builder.func_known : .func b.func ∈ b.known G := .root .func

@[simp] theorem Builder.block_known : .block b.block ∈ b.known G := .root .block

theorem Builder.known_link {x y : OperandId} (h : .operand x ∈ b.known G)
    (hy : y ∈ (b.arena.operand x).kind.links) : .operand y ∈ b.known G :=
  .mention h fun _ hS => hS.links y hy

theorem Builder.known_def {x : OperandId} {op : OpId} (h : .operand x ∈ b.known G)
    (hop : op ∈ (b.arena.operand x).defs) : .op op ∈ b.known G :=
  .mention h fun _ hS => hS.defs op hop

theorem Builder.known_asserted {x : OperandId} {s : VarAssertion}
    (h : .operand x ∈ b.known G) (hs : s ∈ (b.arena.operand x).assertions) :
    .operand s.var ∈ b.known G :=
  .mention h fun _ hS => hS.assertions s hs

theorem Builder.known_slot {op : OpId} {x : OperandId} (h : .op op ∈ b.known G)
    (hx : x ∈ (b.arena.op op).kind.operands) : .operand x ∈ b.known G :=
  .mention h fun _ hS => hS.1 x hx

theorem Builder.known_pred {block pred : BlockId} (h : .block block ∈ b.known G)
    (hpred : pred ∈ (b.arena.block block).preds) : .block pred ∈ b.known G :=
  .mention h fun _ hS => hS.preds pred hpred

theorem Builder.known_entry {func : FuncId} (h : .func func ∈ b.known G) :
    .block (b.arena.func func).entry ∈ b.known G :=
  .mention h fun _ hS => hS.entry

/-! ## Changes -/

theorem build_builds {α : Type} {f : Arena → α × Arena} {out : α → Set Entry}
    (hf : ∀ a, a₀.Adjoins a → G ⊆ a.since a₀ →
      a₀.Adjoins (f a).2 ∧ out (f a).1 ⊆ (f a).2.since a₀)
    (hmild : ∀ a : Arena, a.Mild (f a).2) : Builds a₀ G (build f) out := by
  intro D b hb hG
  obtain ⟨hadjoins, hout⟩ := hf b.arena hb.adjoins hG
  obtain ⟨hsettled, hlater⟩ := hb.arena hadjoins (hmild b.arena)
  exact ⟨hsettled, hlater, hout⟩

theorem change_builds {f : Arena → Arena}
    (hf : ∀ a, a₀.Adjoins a → G ⊆ a.since a₀ → a₀.Adjoins (f a))
    (hmild : ∀ a : Arena, a.Mild (f a)) : Builds a₀ G (change f) fun _ => ∅ := by
  intro D b hb hG
  obtain ⟨hsettled, hlater⟩ := hb.arena (hf b.arena hb.adjoins hG) (hmild b.arena)
  exact ⟨hsettled, hlater, Set.empty_subset _⟩

/-- A change of the builder that leaves the arena and the list of the script alone. -/
theorem modify_builds {f : Builder → Builder} (harena : ∀ b, (f b).arena = b.arena)
    (hfunctions : ∀ b, (f b).script.functions = b.script.functions)
    (hordered : ∀ b, (f b).script.ordered = b.script.ordered)
    (hroots : ∀ b e, (f b).Root e → b.Root e ∨ e ∈ G) :
    Builds a₀ G (modify f) fun _ => ∅ := by
  intro D b hb hG
  obtain ⟨hsettled, hlater⟩ := hb.turn (harena b) (hfunctions b) (hordered b)
    fun e he => (hroots b e he).elim (hb.roots e) fun he => hG he
  exact ⟨hsettled, hlater, Set.empty_subset _⟩

theorem changeScope_builds {f : Scope → Scope} (hroots : ∀ s e, (f s).Root e → s.Root e ∨ e ∈ G) :
    Builds a₀ G (changeScope f) fun _ => ∅ :=
  modify_builds (fun _ => rfl) (fun _ => rfl) (fun _ => rfl) fun b e he => by
    cases he with
    | func => exact .inl .func
    | block => exact .inl .block
    | scope he => exact (hroots b.scope e he).imp_left .scope
    | const he => exact .inl (.const he)
    | main => exact .inl .main
    | named he => exact .inl (.named he)
    | listed he => exact .inl (.listed he)

theorem goTo_builds {block : BlockId} (hblock : .block block ∈ G) :
    Builds a₀ G (goTo block) fun _ => ∅ :=
  modify_builds (fun _ => rfl) (fun _ => rfl) (fun _ => rfl) fun b e he => by
    cases he with
    | func => exact .inl .func
    | block => exact .inr hblock
    | scope he => exact .inl (.scope he)
    | const he => exact .inl (.const he)
    | main => exact .inl .main
    | named he => exact .inl (.named he)
    | listed he => exact .inl (.listed he)

theorem changeFunc_builds {f : Func → Func} (hgrown : ∀ r : Func, r.Grown (f r))
    (hf : ∀ S (r : Func), r.Within S → (f r).Within S) :
    Builds a₀ G (changeFunc f) fun _ => ∅ := by
  intro D b hb _
  obtain ⟨hsettled, hlater⟩ := hb.arena (hb.adjoins.modifyFunc (hb.roots _ .func) (hf _ _))
    (.modifyFunc b.arena b.func hgrown)
  exact ⟨hsettled, hlater, Set.empty_subset _⟩

/-! ## Operands -/

theorem newOperand_builds {kind : OperandKind} (hlinks : ∀ x ∈ kind.links, .operand x ∈ G)
    (hinput : kind.isInput = false) :
    Builds a₀ G (newOperand kind) fun x => {.operand x} :=
  build_builds (fun a ha hG => ⟨ha.newOperand fun x hx => hG (hlinks x hx), by
      rintro _ rfl
      exact ⟨ha.notMem_operand, by simp [Arena.newOperand]⟩⟩) fun a => .newOperand a hinput

theorem newString_builds (s : String) : Builds a₀ G (newString s) fun x => {.operand x} :=
  newOperand_builds nofun rfl

theorem newTemporary_builds {owner : Option OperandId} (h : ∀ x ∈ owner, .operand x ∈ G) :
    Builds a₀ G (newTemporary owner) fun x => {.operand x} :=
  newOperand_builds (fun x hx => h x (Option.mem_toList.1 hx)) rfl

theorem newResult_builds : Builds a₀ G (newTemporary none) fun x => {.operand x} :=
  newTemporary_builds nofun

theorem newVariable_builds (name : String) :
    Builds a₀ G (newVariable name) fun x => {.operand x} :=
  .bind (newString_builds name) fun _ => newOperand_builds (by simp [OperandKind.links]) rfl

/-! ## Blocks -/

theorem newBlock_builds : Builds a₀ G newBlock fun block => {.block block} :=
  .get fun b => build_builds (fun a ha hG => ⟨ha.newBlock (hG (.inl (.root .func))), by
      rintro _ rfl
      exact ⟨ha.notMem_block, by simp [Arena.newBlock, Arena.modifyFunc]⟩⟩) fun a => .newBlock a b.func

theorem modifyBlock_builds {block : BlockId} (hblock : .block block ∈ G) {f : Block → Block}
    (hf : ∀ S (r : Block), r.Within S → (f r).Within S) :
    Builds a₀ G (change (·.modifyBlock block f)) fun _ => ∅ :=
  change_builds (fun _ ha hG => ha.modifyBlock (hG hblock) (hf _ _)) fun a => .modifyBlock a block f

theorem goDead_builds : Builds a₀ G goDead fun _ => ∅ :=
  .bind newBlock_builds fun _ =>
    .bind (modifyBlock_builds (by simp) fun _ _ hr => ⟨hr.ops, hr.phis, hr.preds⟩) fun _ =>
      goTo_builds (by simp)

theorem isDead_builds (block : BlockId) : Builds a₀ G (isDead block) fun _ => ∅ :=
  .get fun _ => .pure (Set.empty_subset _)

theorem link_builds {source target : BlockId} (hs : .block source ∈ G) (ht : .block target ∈ G) :
    Builds a₀ G (change (·.link source target)) fun _ => ∅ :=
  change_builds (fun _ ha hG => ha.link (hG hs) (hG ht)) fun a => .link a source target

theorem addGuard_builds {block : BlockId} {cond : OperandId} (hblock : .block block ∈ G)
    (hcond : .operand cond ∈ G) : Builds a₀ G (change (·.addGuard block cond)) fun _ => ∅ :=
  change_builds (fun _ ha hG => ha.addGuard (hG hblock) (hG hcond)) fun a => .addGuard a block cond

/-! ## Operations -/

theorem detached_builds {kind : OpKind} (hkind : kind.Within G) (hcall : kind.isListedCall = false)
    (span : Span) : Builds a₀ G (detached kind span) fun op => {.op op} :=
  build_builds (fun a ha hG => ⟨ha.addOp span (hkind.mono hG), by
      rintro _ rfl
      exact ⟨ha.notMem_op, by simp [Arena.addOp]⟩⟩) fun a => .addOp a hcall span

theorem append_builds {block : BlockId} {op : OpId} (hblock : .block block ∈ G)
    (hop : .op op ∈ G) : Builds a₀ G (change (·.append block op)) fun _ => ∅ :=
  change_builds (fun _ ha hG => ha.append (hG hblock) (hG hop)) fun a => .append a block op

theorem attachPhi_builds {block : BlockId} {phi : OpId} (hblock : .block block ∈ G)
    (hphi : .op phi ∈ G) : Builds a₀ G (change (·.attachPhi block phi)) fun _ => ∅ :=
  change_builds (fun _ ha hG => ha.attachPhi (hG hblock) (hG hphi)) fun a => .attachPhi a block phi

/-- A new operation is put at the end of the current block. -/
theorem place_builds {op : OpId} (hop : .op op ∈ G) (kind : OpKind) :
    Builds a₀ G (do
      let block := (← get).block
      change (·.append block op)
      if ← look fun a => kind.reads.any fun id => (a.operand id).tainted then
        changeFunc fun f => { f with sources := f.sources ++ [op] }
      return op) fun op => {.op op} := by
  refine .get fun b => .bind (append_builds (by simp) (by simp [hop])) fun _ => .look fun b' => ?_
  split
  · exact .bind (changeFunc_builds (fun r => ⟨rfl, id, List.Subset.refl _⟩)
      fun _ _ hr => ⟨hr.entry, hr.params, hr.callable⟩) fun _ => .pure (by simp [hop])
  · exact .pure (by simp [hop])

theorem place_returns (op : OpId) (kind : OpKind) (b : Builder) :
    Gives (do
      let block := (← get).block
      change (·.append block op)
      if ← look fun a => kind.reads.any fun id => (a.operand id).tainted then
        changeFunc fun f => { f with sources := f.sources ++ [op] }
      return op) b fun o _ => o = op := by
  refine Gives.get (Gives.bind (P := fun _ _ => True) trivial fun _ b₁ _ => Gives.look ?_)
  split <;> rfl

theorem emit_builds {kind : OpKind} (hkind : kind.Within G) (hcall : kind.isListedCall = false)
    (span : Span) : Builds a₀ G (emit kind span) fun op => {.op op} :=
  .bind (detached_builds hkind hcall span) fun _ => place_builds (by simp) kind

theorem emitValue_builds {make : OperandId → OpKind}
    (hkind : ∀ r, (make r).Within ({.operand r} ∪ G)) (hcall : ∀ r, (make r).isListedCall = false)
    (span : Span) : Builds a₀ G (emitValue span make) fun x => {.operand x} :=
  .bind newResult_builds fun r => .bind (emit_builds (hkind r) (hcall r) span) fun _ =>
    .pure (by simp)

/-- A call that is made is owed to its function. -/
theorem detached_owes (hb : Settled a₀ D b) {kind : OpKind} (hkind : kind.Within (b.arena.since a₀))
    (span : Span) :
    Gives (detached kind span) b fun op b' =>
      Done a₀ { D with calls := insert op D.calls } b {.op op} b' := by
  have hcall (op : OpId) (hop : ((b.arena.addOp kind span).2.op op).kind.isListedCall = true) :
      (b.arena.op op).kind.isListedCall = true ∨ op ∈ insert ⟨b.arena.ops.size⟩ D.calls := by
    rw [Arena.op_addOp] at hop
    split at hop
    · rename_i heq
      exact .inr (.inl (OpId.ext_iff'.1 heq))
    · exact .inl hop
  obtain ⟨hsettled, hlater⟩ : Settled a₀ { D with calls := insert ⟨b.arena.ops.size⟩ D.calls }
      { b with arena := (b.arena.addOp kind span).2 } ∧ Later b _ :=
    hb.change (hb.adjoins.addOp span hkind) (.addOp b.arena kind span) subset_rfl
      (Set.subset_insert _ _) (fun x hx => .inl (by rwa [Arena.kind_operand_addOp] at hx))
      (fun _ hge hlt => absurd hlt (Nat.not_lt.2 hge)) hcall
  have hin : .op ⟨b.arena.ops.size⟩ ∈ (b.arena.addOp kind span).2.entries := by simp [Arena.addOp]
  refine ⟨hsettled, hlater, ?_⟩
  rintro _ rfl
  exact ⟨hb.adjoins.notMem_op, hin⟩

/-- A function lists a call that is owed. -/
theorem listCall_pays {op : OpId} (hb : Settled a₀ { D with calls := insert op D.calls } b) :
    Gives (changeFunc fun f => { f with calls := f.calls ++ [op] }) b fun _ b' =>
      Done a₀ D b ∅ b' := by
  obtain ⟨h, hlater⟩ := hb.arena (hb.adjoins.modifyFunc
      (f := fun f => { f with calls := f.calls ++ [op] }) (hb.roots _ .func)
      fun hr => ⟨hr.entry, hr.params, hr.callable⟩)
    (.modifyFunc b.arena b.func fun r => ⟨rfl, id, List.subset_append_left ..⟩)
  refine ⟨{ h with calls := fun o ho hcall => ?_ }, hlater, Set.empty_subset _⟩
  rcases h.calls o ho hcall with (rfl | howed) | hlisted
  · have hfunc := h.roots _ .func
    refine .inr ⟨b.func, hfunc, ?_⟩
    have hlt : b.func.index < b.arena.funcs.size := (hb.roots _ .func).2
    change o ∈ ((b.arena.modifyFunc b.func _).func b.func).calls
    rw [Arena.func_modifyFunc, if_pos ⟨rfl, hlt⟩]
    exact List.mem_append_right _ List.mem_cons_self
  · exact .inl howed
  · exact .inr hlisted

theorem emitCall_builds {make : OperandId → OpKind}
    (hkind : ∀ r, (make r).Within ({.operand r} ∪ G)) (span : Span) :
    Builds a₀ G (emitCall span make) fun x => {.operand x} := by
  refine .bind newResult_builds fun r => ?_
  intro D b hb hG
  refine Gives.bind (P := fun op b₂ => Settled a₀ { D with calls := insert op D.calls } b₂ ∧
    Later b b₂) (Gives.bind (detached_owes hb ((hkind r).mono hG) span) fun op b₁ h₁ => ?_) ?_
  · have hplace := place_builds (Set.mem_singleton (Entry.op op)) (make r) h₁.settled h₁.known
    refine (hplace.and (place_returns op (make r) b₁)).mono ?_
    rintro _ b₂ ⟨h₂, rfl⟩
    exact ⟨h₂.settled, h₁.later.trans h₂.later⟩
  · rintro op b₂ ⟨h₂, hlater⟩
    refine Gives.bind (listCall_pays h₂) fun _ b₃ h₃ => ?_
    refine ⟨h₃.settled, hlater.trans h₃.later, ?_⟩
    rintro _ rfl
    exact h₃.later.since (hlater.since (hG (.inl rfl)))

/-! ## Jumps and guards -/

theorem jump_builds {target : BlockId} (ht : .block target ∈ G) (span : Span) :
    Builds a₀ G (jump target span) fun _ => ∅ :=
  .bind (emit_builds (by simp [ht]) rfl span) fun _ => .get fun _ =>
    link_builds (by simp) (by simp [ht])

theorem addGuards_builds {block : BlockId} (hblock : .block block ∈ G) {conds : List OperandId}
    (hconds : ∀ x ∈ conds, .operand x ∈ G) :
    Builds a₀ G (change fun a => conds.foldl (fun a cond => a.addGuard block cond) a)
      fun _ => ∅ := by
  refine change_builds (fun a ha hK => ?_) fun a => ?_
  · induction conds generalizing a with
    | nil => exact ha
    | cons cond conds ih =>
      have hguard := ha.addGuard (hK hblock) (hK (hconds cond List.mem_cons_self))
      refine ih (fun x hx => hconds x (List.mem_cons_of_mem _ hx)) _ hguard fun e he => ?_
      simpa [Arena.addGuard] using hK he
  · clear hconds
    induction conds generalizing a with
    | nil => exact .refl a
    | cons cond conds ih => exact (Arena.Mild.addGuard a block cond).trans (ih _)

theorem guardBlock_builds {block : BlockId} (hblock : .block block ∈ G) :
    Builds a₀ G (guardBlock block) fun _ => ∅ :=
  .get fun _ => addGuards_builds (by simp [hblock]) fun _ hx =>
    .inl (.root (.scope (.condition (List.mem_reverse.1 hx))))

/-! ## Steps that may fail -/

section Lowering

variable {α : Type} {x : Lowering α} {out : α → Set Entry}

theorem under_lowers {cond : OperandId} (hcond : .operand cond ∈ G) (hx : Lowers a₀ G x out) :
    Lowers a₀ G (under cond x) out := by
  refine .bind (.lift (changeScope_builds fun s e he => ?_)) fun _ => .bind (hx.mono (by simp)
    fun _ => subset_rfl) fun y => .bind (.lift (changeScope_builds fun s e he => ?_)) fun _ =>
      .pure (by simp)
  · cases he with
    | version he => exact .inl (.version he)
    | label he => exact .inl (.label he)
    | place he => exact .inl (.place he)
    | phi he => exact .inl (.phi he)
    | goto he => exact .inl (.goto he)
    | condition he =>
      rcases List.mem_cons.1 he with rfl | he
      · exact .inr hcond
      · exact .inl (.condition he)
  · cases he with
    | version he => exact .inl (.version he)
    | label he => exact .inl (.label he)
    | place he => exact .inl (.place he)
    | phi he => exact .inl (.phi he)
    | goto he => exact .inl (.goto he)
    | condition he => exact .inl (.condition (List.mem_of_mem_tail he))

end Lowering

end Lower

end QueryTaint
