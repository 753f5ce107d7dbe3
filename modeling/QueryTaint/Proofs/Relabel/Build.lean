import QueryTaint.Proofs.Relabel.Step

/-!
# Building in different arenas

The steps that all of lowering is made of: making operands, blocks and operations, going on in another
block, jumping and guarding.
-/

namespace QueryTaint.Lower

variable {α β : Type} {g : Graft} {n : Nat}

/-! ## Changes -/

theorem build_mirrors {f : Arena → α × Arena} {f' : Arena → β × Arena} {h : α → β}
    (hwidens : ∀ a : Arena, a.Below (f a).2)
    (hf : ∀ a a', Arena.Embeds g a a' → (f a).2.Below g.limit →
      (f' a').1 = h (f a).1 ∧ Arena.Embeds g (f a).2 (f' a').2) :
    Mirrors g n h (build f) (build f') where
  widens b := hwidens b.arena
  twin hb _ hlimit := by
    obtain ⟨hresult, harena⟩ := hf _ _ hb.arena hlimit
    exact ⟨hresult, { hb with arena := harena }⟩

theorem change_mirrors {f f' : Arena → Arena} (hwidens : ∀ a : Arena, a.Below (f a))
    (hf : ∀ a a', Arena.Embeds g a a' → Arena.Embeds g (f a) (f' a')) :
    Mirrors g n id (change f) (change f') where
  widens b := hwidens b.arena
  twin hb _ _ := ⟨rfl, { hb with arena := hf _ _ hb.arena }⟩

/-- A change of the builder that leaves the arena alone. -/
theorem modify_mirrors {f f' : Builder → Builder} (harena : ∀ b, (f b).arena = b.arena)
    (hf : ∀ b b', Builder.Twin g b b' → (f b).Twin g (f' b')) :
    Mirrors g n id (modify f) (modify f') where
  widens b := by
    change b.arena.Below (f b).arena
    rw [harena]
    exact .refl b.arena
  twin hb _ _ := ⟨rfl, hf _ _ hb⟩

theorem changeScope_mirrors {f f' : Scope → Scope}
    (hf : ∀ s s', Scope.Twin g.toRelabel s s' → (f s).Twin g.toRelabel (f' s')) :
    Mirrors g n id (changeScope f) (changeScope f') :=
  modify_mirrors (fun _ => rfl) fun _ _ hb => { hb with scope := hf _ _ hb.scope }

theorem goTo_mirrors (block : BlockId) : Mirrors g n id (goTo block) (goTo (g.block block)) :=
  modify_mirrors (fun _ => rfl) fun _ _ hb => { hb with block := rfl }

theorem modifyOperand_mirrors (x : OperandId) {f f' : Operand → Operand}
    (hf : ∀ o, f' (o.relabel g.toRelabel) = (f o).relabel g.toRelabel) :
    Mirrors g n id (change (·.modifyOperand x f)) (change (·.modifyOperand (g.operand x) f')) :=
  change_mirrors (fun a => .modifyOperand a x f) fun _ _ h => h.modifyOperand x hf

theorem modifyBlock_mirrors (block : BlockId) {f f' : Block → Block}
    (hf : ∀ b, f' (b.relabel g.toRelabel) = (f b).relabel g.toRelabel) :
    Mirrors g n id (change (·.modifyBlock block f)) (change (·.modifyBlock (g.block block) f')) :=
  change_mirrors (fun a => .modifyBlock a block f) fun _ _ h => h.modifyBlock block hf

theorem modifyFunc_mirrors (func : FuncId) {f f' : Func → Func}
    (hf : ∀ r, f' (r.relabel g.toRelabel) = (f r).relabel g.toRelabel) :
    Mirrors g n id (change (·.modifyFunc func f)) (change (·.modifyFunc (g.func func) f')) :=
  change_mirrors (fun a => .modifyFunc a func f) fun _ _ h => h.modifyFunc func hf

theorem changeFunc_mirrors {f f' : Func → Func}
    (hf : ∀ r, f' (r.relabel g.toRelabel) = (f r).relabel g.toRelabel) :
    Mirrors g n id (changeFunc f) (changeFunc f') where
  widens b := .modifyFunc b.arena b.func f
  twin {b b'} hb _ _ := by
    refine ⟨rfl, { hb with arena := ?_ }⟩
    change Arena.Embeds g (b.arena.modifyFunc b.func f) (b'.arena.modifyFunc b'.func f')
    rw [hb.func]
    exact hb.arena.modifyFunc b.func hf

/-! ## Operands -/

theorem newOperand_mirrors (kind : OperandKind) {kind' : OperandKind}
    (h : kind' = kind.relabel g.toRelabel) :
    Mirrors g n g.operand (newOperand kind) (newOperand kind') :=
  build_mirrors (fun a => .newOperand a kind) fun _ _ ha hlimit => h ▸ ha.newOperand kind hlimit

theorem newString_mirrors (s : String) : Mirrors g n g.operand (newString s) (newString s) :=
  newOperand_mirrors (.string s) rfl

theorem newNumber_mirrors (x : Float) : Mirrors g n g.operand (newNumber x) (newNumber x) :=
  newOperand_mirrors (.scalar (.number x)) rfl

theorem newTemporary_mirrors (owner : Option OperandId) :
    Mirrors g n g.operand (newTemporary owner) (newTemporary (owner.map g.operand)) :=
  newOperand_mirrors (.temporary owner) rfl

theorem newResult_mirrors : Mirrors g n g.operand (newTemporary none) (newTemporary none) :=
  newTemporary_mirrors none

theorem newVersion_mirrors (var : OperandId) :
    Mirrors g n g.operand (newTemporary (some var)) (newTemporary (some (g.operand var))) :=
  newTemporary_mirrors (some var)

theorem newVariable_mirrors (name : String) :
    Mirrors g n g.operand (newVariable name) (newVariable name) :=
  .bind (newString_mirrors name) fun x => newOperand_mirrors (.variable x none) rfl

/-! ## Blocks -/

theorem newBlock_mirrors : Mirrors g n g.block newBlock newBlock := by
  refine .get (fun b b' hb => by rw [hb.func]) fun b => ?_
  exact build_mirrors (fun a => .newBlock a (some b.func)) fun _ _ ha hlimit =>
    ha.newBlock (some b.func) hlimit

theorem goDead_mirrors : Mirrors g n id goDead goDead :=
  .bind newBlock_mirrors fun block => .bind (modifyBlock_mirrors block fun _ => rfl) fun _ =>
    goTo_mirrors block

theorem dead_embeds {a a' : Arena} (h : Arena.Embeds g a a') (block : BlockId) :
    (a'.block (g.block block)).dead = (a.block block).dead := by
  rw [h.block]
  rfl

theorem isDead_mirrors (block : BlockId) :
    Mirrors g n id (isDead block) (isDead (g.block block)) :=
  .look (f := id) (fun _ _ h => dead_embeds h block) fun _ => .pure rfl

theorem link_mirrors (source target : BlockId) :
    Mirrors g n id (change (·.link source target))
      (change (·.link (g.block source) (g.block target))) :=
  change_mirrors (fun a => .link a source target) fun _ _ h => h.link source target

theorem addGuard_mirrors (block : BlockId) (cond : OperandId) :
    Mirrors g n id (change (·.addGuard block cond))
      (change (·.addGuard (g.block block) (g.operand cond))) :=
  change_mirrors (fun a => .addGuard a block cond) fun _ _ h => h.addGuard block cond

/-! ## Operations -/

theorem detached_mirrors (kind : OpKind) {kind' : OpKind} (h : kind' = kind.relabel g.toRelabel)
    (span : Span) : Mirrors g n g.op (detached kind span) (detached kind' span) :=
  build_mirrors (fun a => .addOp a kind span) fun _ _ ha hlimit => h ▸ ha.addOp kind span hlimit

theorem append_mirrors (block : BlockId) (op : OpId) :
    Mirrors g n id (change (·.append block op)) (change (·.append (g.block block) (g.op op))) :=
  change_mirrors (fun a => .append a block op) fun _ _ h => h.append block op

theorem attachPhi_mirrors (block : BlockId) (phi : OpId) :
    Mirrors g n id (change (·.attachPhi block phi))
      (change (·.attachPhi (g.block block) (g.op phi))) :=
  change_mirrors (fun a => .attachPhi a block phi) fun _ _ h => h.attachPhi block phi

theorem tainted_embeds {a a' : Arena} (h : Arena.Embeds g a a') (x : OperandId) :
    (a'.operand (g.operand x)).tainted = (a.operand x).tainted := by
  rw [h.operand]
  rfl

theorem emit_mirrors (kind : OpKind) {kind' : OpKind} (h : kind' = kind.relabel g.toRelabel)
    (span : Span) : Mirrors g n g.op (emit kind span) (emit kind' span) := by
  subst h
  refine .bind (detached_mirrors kind rfl span) fun op =>
    .get (fun b b' hb => by rw [hb.block]) fun b => .bind (append_mirrors b.block op) fun _ =>
    .look (f := id) (fun a a' ha => ?_) fun reads => ?_
  · rw [OpKind.reads_relabel, List.any_map]
    exact congrArg _ (funext fun x => tainted_embeds ha x)
  · refine .ite (.bind (changeFunc_mirrors fun r => ?_) fun _ => .pure rfl) (.pure rfl)
    simp [Func.relabel]

theorem emitValue_mirrors {make make' : OperandId → OpKind}
    (h : ∀ r, make' (g.operand r) = (make r).relabel g.toRelabel) (span : Span) :
    Mirrors g n g.operand (emitValue span make) (emitValue span make') :=
  .bind newResult_mirrors fun r => .bind (emit_mirrors _ (h r) span) fun _ => .pure rfl

theorem emitCall_mirrors {make make' : OperandId → OpKind}
    (h : ∀ r, make' (g.operand r) = (make r).relabel g.toRelabel) (span : Span) :
    Mirrors g n g.operand (emitCall span make) (emitCall span make') :=
  .bind newResult_mirrors fun r => .bind (emit_mirrors _ (h r) span) fun op =>
    .bind (changeFunc_mirrors fun r => by simp [Func.relabel]) fun _ => .pure rfl

/-! ## Jumps and guards -/

theorem jump_mirrors (target : BlockId) (span : Span) :
    Mirrors g n id (jump target span) (jump (g.block target) span) := by
  refine .bind (emit_mirrors _ rfl span) fun _ => .get (fun b b' hb => by rw [hb.block]) fun b => ?_
  exact link_mirrors b.block target

theorem jumpIf_mirrors (cond : OperandId) (ifTarget elseTarget : BlockId) (span : Span) :
    Mirrors g n id (jumpIf cond ifTarget elseTarget span)
      (jumpIf (g.operand cond) (g.block ifTarget) (g.block elseTarget) span) := by
  refine .bind (emit_mirrors _ rfl span) fun _ => .get (fun b b' hb => by rw [hb.block]) fun b => ?_
  refine change_mirrors
    (fun a => ((Arena.Below.modifyBlock a b.block _).trans (.link _ _ _)).trans (.link _ _ _))
    fun a a' h => ?_
  have hguarded : Arena.Embeds g (a.modifyBlock b.block fun b => { b with guarded := true })
      (a'.modifyBlock (g.block b.block) fun b => { b with guarded := true }) :=
    h.modifyBlock b.block fun _ => rfl
  exact (hguarded.link b.block ifTarget).link b.block elseTarget

theorem negate_mirrors (cond : OperandId) :
    Mirrors g n g.operand (negate cond) (negate (g.operand cond)) :=
  .bind newResult_mirrors fun _ => .bind (detached_mirrors _ rfl .none) fun _ => .pure rfl

theorem addGuards_mirrors (block : BlockId) (conds : List OperandId) :
    Mirrors g n id (change fun a => conds.foldl (fun a cond => a.addGuard block cond) a)
      (change fun a => (conds.map g.operand).foldl (fun a cond => a.addGuard (g.block block) cond) a) := by
  refine change_mirrors (fun a => ?_) fun a a' h => ?_
  · induction conds generalizing a with
    | nil => exact .refl a
    | cons cond conds ih => exact (Arena.Below.addGuard a block cond).trans (ih _)
  · induction conds generalizing a a' with
    | nil => exact h
    | cons cond conds ih => exact ih _ _ (h.addGuard block cond)

theorem guardBlock_mirrors (block : BlockId) :
    Mirrors g n id (guardBlock block) (guardBlock (g.block block)) := by
  refine .get (fun b b' hb => by rw [hb.scope.conditions]) fun b => ?_
  dsimp only
  rw [← List.map_reverse]
  exact addGuards_mirrors block b.scope.conditions.reverse

/-! ## Steps that may fail -/

theorem under_follows (cond : OperandId) {f : α → β} {x : Lowering α} {x' : Lowering β}
    (hx : Follows g n f x x') : Follows g n f (under cond x) (under (g.operand cond) x') := by
  refine .bind (.lift (changeScope_mirrors fun s s' hs => ?_)) fun _ => .bind hx fun y =>
    .bind (.lift (changeScope_mirrors fun s s' hs => ?_)) fun _ => .pure rfl
  · exact { hs with conditions := by rw [hs.conditions, List.map_cons] }
  · exact { hs with conditions := by rw [hs.conditions, List.map_tail] }

theorem inBlock_follows (block : BlockId) {f : α → β} {x : Lowering α} {x' : Lowering β}
    (hx : Follows g n f x x') : Follows g n f (inBlock block x) (inBlock (g.block block) x') := by
  refine .get (fun b b' hb => by rw [hb.block]) fun b => ?_
  exact .bind (.lift (goTo_mirrors block)) fun _ => .bind hx fun _ =>
    .bind (.lift (goTo_mirrors b.block)) fun _ => .pure rfl

end QueryTaint.Lower
