import QueryTaint.Proofs.Arena.Edit
import QueryTaint.Proofs.Simplify.Ssa

/-!
# Bypassing blocks that only jump

`Arena.Skips` says how an arena differs from another one in which a block was bypassed: its
predecessor leads to its target, and stands in its place among the target's predecessors. On the
trails of the one arena without that block the same happens as on those of the other
(`Skips.simulates`). The φ operations of the target take the same operands, since the predecessor
did not lead there before, and those of every other block do, since it does not list the bypassed
block.
-/

namespace QueryTaint.Arena

variable {a a' : Arena} {entry block target pred : BlockId} {jump last : OpId}

/-- A block that only jumps, with the one predecessor that leads to it. -/
structure Skippable (a : Arena) (block target pred : BlockId) (jump last : OpId) :
    Prop where
  live : (a.block block).dead = false
  phis : (a.block block).phis = []
  ops : (a.block block).ops = [jump]
  kind : (a.op jump).kind = .jump target
  target_ne : target ≠ block
  livePreds : a.livePreds block = [pred]
  pred_ne : pred ≠ block
  pred_not_mem : pred ∉ (a.block target).preds
  terminator : a.terminator? pred = some last
  leads : block ∈ (a.op last).kind.successors

theorem jumpOnly?_eq_some (h : a.jumpOnly? block = some target) :
    (a.block block).dead = false ∧ (a.block block).phis = [] ∧
      ∃ jump, (a.block block).ops = [jump] ∧ (a.op jump).kind = .jump target := by
  unfold jumpOnly? at h
  dsimp only at h
  split at h
  · rename_i op hdead hphis hops
    split at h
    · rename_i t hk
      obtain rfl := Option.some.inj h
      exact ⟨hdead, hphis, op, hops, hk⟩
    · cases h
  · cases h

theorem bypassable?_eq_some (h : a.bypassable? block target = some (pred, last)) :
    a.livePreds block = [pred] ∧ pred ≠ block ∧ pred ∉ (a.block target).preds ∧
      a.terminator? pred = some last ∧ block ∈ (a.op last).kind.successors := by
  unfold bypassable? at h
  split at h
  · rename_i p hlive
    split at h
    · cases h
    · rename_i hnot
      simp only [Bool.or_eq_true, decide_eq_true_eq, not_or] at hnot
      obtain ⟨t, ht, h⟩ := Option.bind_eq_some_iff.1 h
      split at h
      · rename_i hmem
        obtain ⟨rfl, rfl⟩ := Prod.mk.inj (Option.some.inj h)
        exact ⟨hlive, hnot.1, hnot.2, ht, hmem⟩
      · cases h
  · cases h

/-- `a'` is `a` with a block bypassed. -/
structure Skips (a a' : Arena) (block target pred : BlockId) (jump last : OpId) :
    Prop where
  dead (b : BlockId) : (a'.block b).dead = if b = block then true else (a.block b).dead
  preds {b : BlockId} : b ≠ block → (a'.block b).preds =
    if b = target then (a.block b).preds.map (swap block pred) else (a.block b).preds
  ops (b : BlockId) : (a'.block b).ops = if b = block then [] else (a.block b).ops
  phis (b : BlockId) : (a'.block b).phis = (a.block b).phis
  place (op : OpId) : (a'.op op).block = if op = jump then none else (a.op op).block
  kind (op : OpId) : (a'.op op).kind =
    if op = last then (a.op op).kind.mapBlocks (swap block target) else (a.op op).kind
  funcs : a'.funcs = a.funcs

namespace Skippable

variable (s : a.Skippable block target pred jump last)
include s

theorem mem_ops_pred : last ∈ (a.block pred).ops := by
  have ht := s.terminator
  unfold terminator? at ht
  exact List.mem_of_getLast? (Option.filter_eq_some_iff.1 ht).1

theorem pred_live : (a.block pred).dead = false := by
  have hmem : pred ∈ a.livePreds block := by
    rw [s.livePreds]
    exact List.mem_singleton.2 rfl
  simpa using (List.mem_filter.1 hmem).2

theorem successors_block : a.successors block = [target] := by
  rw [successors_eq, s.ops]
  simp [s.kind, OpKind.successors]

/-- An edge of a trail to the block comes from its predecessor. -/
theorem eq_pred (h : a.Linked entry) {source : BlockId} {rest : List BlockId}
    (ht : a.Trail entry (block :: source :: rest)) : source = pred := by
  have hmem := h.mem_livePreds ht
  rw [s.livePreds] at hmem
  exact List.mem_singleton.1 hmem

/-- The predecessor does not lead to the target. -/
theorem not_target (h : a.Linked entry) {rest : List BlockId}
    (ht : a.Trail entry (pred :: rest)) : target ∉ a.successors pred :=
  fun hmem => s.pred_not_mem (h.covers ht hmem)

/-- The block does nothing. -/
theorem memory_block {D : Type} (E : Effects D) (rest : List BlockId) :
    a.memory E (block :: rest) = a.memory E rest := by
  rw [memory, s.ops, List.foldl_cons, List.foldl_nil, perform_jump s.kind]
  simp only [enter, incoming?, s.phis, List.findSome?_nil, Option.getD_none]

end Skippable

theorem bypass_eq (a : Arena) (block target pred : BlockId) (last jump : OpId)
    (hops : (a.block block).ops = [jump]) :
    a.bypass block target pred last =
      (((a.modifyOp last fun o => { o with kind := o.kind.mapBlocks (swap block target) }).modifyBlock
        target fun b => { b with preds := b.preds.map (swap block pred) }).removeOp
          jump).modifyBlock block fun b =>
            { b with dead := true, preds := b.preds.filter (· ≠ pred) } := by
  have hlast : (((a.modifyOp last fun o =>
      { o with kind := o.kind.mapBlocks (swap block target) }).modifyBlock target fun b =>
        { b with preds := b.preds.map (swap block pred) }).block block).ops = [jump] := by
    rw [← hops]
    exact block_modifyBlock_keep _ Block.ops _ _ fun _ => rfl
  unfold bypass
  dsimp only
  rw [hlast]
  rfl

/-- The predecessor of a block is led to its target. -/
def redirect (a : Arena) (block target pred : BlockId) (last : OpId) : Arena :=
  (a.modifyOp last fun o => { o with kind := o.kind.mapBlocks (swap block target) }).modifyBlock target
    fun b => { b with preds := b.preds.map (swap block pred) }

/-- A block that only jumps and is not led to any more is taken out. -/
def retire (a : Arena) (block pred : BlockId) (jump : OpId) : Arena :=
  (a.removeOp jump).modifyBlock block fun b =>
    { b with dead := true, preds := b.preds.filter (· ≠ pred) }

theorem op_redirect (hlast : last.index < a.ops.size) (block target pred : BlockId) (o : OpId) :
    ((a.redirect block target pred last).op o).block = (a.op o).block ∧
      ((a.redirect block target pred last).op o).kind =
        if o = last then (a.op o).kind.mapBlocks (swap block target) else (a.op o).kind := by
  rw [redirect, op_modifyBlock, op_modifyOp_of_lt hlast]
  split <;> exact ⟨rfl, rfl⟩

theorem preds_redirect (b : BlockId) : ((a.redirect block target pred last).block b).preds =
    if b = target then (a.block b).preds.map (swap block pred) else (a.block b).preds := by
  rw [redirect, block_modifyBlock]
  by_cases hb : target = b
  · subst hb
    rcases Nat.lt_or_ge target.index a.blocks.size with hlt | hge
    · simp [hlt]
    · simp only [blocks_modifyOp, Nat.not_lt.2 hge, and_false, if_false, block_modifyOp, if_true,
        block_of_le a hge]
      rfl
  · simp [hb, Ne.symm hb]

/-- Only the predecessors of blocks change when a block is led past. -/
theorem block_redirect_keep {β : Type} (get : Block → β)
    (hget : ∀ b preds, get { b with preds } = get b) (a : Arena) (block target pred : BlockId)
    (last : OpId) (b : BlockId) :
    get ((a.redirect block target pred last).block b) = get (a.block b) :=
  (block_modifyBlock_keep _ get target b fun b => hget b _).trans
    (congrArg get (block_modifyOp a last _ b))

theorem kept_redirect (a : Arena) (block target pred : BlockId) (last : OpId) :
    (a.redirect block target pred last).ops.size = a.ops.size ∧
      (a.redirect block target pred last).blocks.size = a.blocks.size ∧
      (a.redirect block target pred last).funcs = a.funcs :=
  ⟨by simp [redirect], by simp [redirect], rfl⟩

theorem op_retire (a : Arena) (block pred : BlockId) (jump o : OpId) :
    (a.retire block pred jump).op o = (a.removeOp jump).op o := op_modifyBlock ..

theorem funcs_retire (a : Arena) (block pred : BlockId) (jump : OpId) :
    (a.retire block pred jump).funcs = (a.removeOp jump).funcs := rfl

theorem block_retire (hjump : jump.index < a.ops.size) (hblock : block.index < a.blocks.size)
    (hhome : (a.op jump).block = some block) (pred b : BlockId) :
    (a.retire block pred jump).block b =
      if b = block then { a.block b with
        ops := (a.block b).ops.filter (· ≠ jump), phis := (a.block b).phis.filter (· ≠ jump)
        dead := true, preds := (a.block b).preds.filter (· ≠ pred) }
      else a.block b := by
  obtain ⟨⟨-, -, hsize, -⟩, -, hremoved⟩ := removeOp_effect hjump hhome
  rw [retire, block_modifyBlock_of_lt (by omega), hremoved]
  by_cases hb : b = block
  · subst hb
    simp [hblock]
  · simp [hb, Ne.symm hb]

/-- Bypassing a block does what it should. -/
theorem bypass_skips_of_placed (hhome : (a.op jump).block = some block)
    (s : a.Skippable block target pred jump last) :
    a.Skips (a.bypass block target pred last) block target pred jump last := by
  have hjump : jump.index < a.ops.size := Nat.lt_of_not_le fun hle => by
    have hk := s.kind
    rw [op_of_le a hle] at hk
    cases hk
  have hlast : last.index < a.ops.size := Nat.lt_of_not_le fun hle => by
    have hk := s.leads
    rw [op_of_le a hle] at hk
    cases hk
  have hblock : block.index < a.blocks.size := Nat.lt_of_not_le fun hle => by
    have hops := s.ops
    rw [block_of_le a hle] at hops
    cases hops
  have heq : a.bypass block target pred last =
      (a.redirect block target pred last).retire block pred jump :=
    bypass_eq a block target pred last jump s.ops
  obtain ⟨hsizeOps, hsizeBlocks, hfuncsSame⟩ := kept_redirect a block target pred last
  have hop := op_redirect hlast block target pred
  obtain ⟨⟨-, -, -, hfuncs⟩, hremoved, -⟩ :=
    removeOp_effect (hsizeOps.symm ▸ hjump) ((hop jump).1.trans hhome)
  have hretire := block_retire (hsizeOps.symm ▸ hjump) (hsizeBlocks.symm ▸ hblock)
    ((hop jump).1.trans hhome) pred
  have hops := block_redirect_keep Block.ops (fun _ _ => rfl) a block target pred last
  have hphis := block_redirect_keep Block.phis (fun _ _ => rfl) a block target pred last
  rw [heq]
  constructor
  case dead =>
    intro b
    rw [hretire]
    split
    · rfl
    · exact block_redirect_keep Block.dead (fun _ _ => rfl) ..
  case preds =>
    intro b hb
    rw [hretire, if_neg hb]
    exact preds_redirect b
  case ops =>
    intro b
    rw [hretire]
    split
    · rename_i hb
      subst hb
      simp [hops, s.ops]
    · exact hops b
  case phis =>
    intro b
    rw [hretire]
    split
    · rename_i hb
      subst hb
      simp [hphis, s.phis]
    · exact hphis b
  case place =>
    intro o
    rw [op_retire, (hremoved o).2, (hop o).1]
  case kind =>
    intro o
    rw [op_retire, (hremoved o).1, (hop o).2]
  case funcs => rw [funcs_retire, hfuncs, hfuncsSame]

theorem bypass_skips (h : a.Linked entry) (s : a.Skippable block target pred jump last) :
    a.Skips (a.bypass block target pred last) block target pred jump last := by
  have hmem : jump ∈ a.members block := by simp [members, s.ops]
  exact bypass_skips_of_placed ((h.placed jump block).1 hmem) s

theorem findIdx?_congr {α : Type} {p q : α → Bool} {l : List α} (h : ∀ x ∈ l, p x = q x) :
    l.findIdx? p = l.findIdx? q := by
  induction l with
  | nil => rfl
  | cons x l ih =>
    rw [List.findIdx?_cons, List.findIdx?_cons, h x (List.mem_cons_self ..),
      ih fun y hy => h y (List.mem_cons_of_mem _ hy)]

namespace Skips

variable (w : a.Skips a' block target pred jump last)
  (s : a.Skippable block target pred jump last) (h : a.Linked entry) (hr : a.Regular entry)

/-! ## Edges -/

theorem kind_phi (w : a.Skips a' block target pred jump last) {op : OpId}
    {vars : List OperandId} {result : OperandId} :
    (a'.op op).kind = .phi vars result ↔ (a.op op).kind = .phi vars result := by
  rw [w.kind]
  split
  · exact OpKind.mapBlocks_eq_phi
  · rfl

include w s h

/-- Only the predecessor of the bypassed block leads elsewhere. -/
theorem successors_eq {b : BlockId} (hb : b ≠ block) :
    a'.successors b = if b = pred then (a.successors b).map (swap block target)
      else a.successors b := by
  rw [Arena.successors_eq, Arena.successors_eq, w.ops, if_neg hb]
  cases hl : (a.block b).ops.getLast? with
  | none => simp
  | some op =>
    have hop := List.mem_of_getLast? hl
    simp only [Option.map_some, Option.getD_some, w.kind]
    by_cases hbp : b = pred
    · subst hbp
      -- The predecessor's last operation is the one that was changed.
      have hlast := s.terminator
      unfold terminator? at hlast
      obtain rfl : last = op :=
        Option.some.inj ((Option.filter_eq_some_iff.1 hlast).1.symm.trans hl)
      simp [OpKind.successors_mapBlocks]
    · have hne : op ≠ last := by
        rintro rfl
        exact hbp (h.unique (List.mem_append_right _ hop)
          (List.mem_append_right _ s.mem_ops_pred))
      simp [hbp, hne]

omit h in
theorem livePreds_target : a'.livePreds target = (a.livePreds target).map (swap block pred) := by
  simp only [livePreds, w.preds s.target_ne, if_true, List.filter_map]
  congr 1
  refine List.filter_congr fun b _ => ?_
  simp only [Function.comp_apply, w.dead, swap]
  by_cases hb : b = block
  · subst hb
    simp [s.pred_ne, s.pred_live, s.live]
  · simp [hb]

include hr in
omit h in
/-- Blocks other than the target do not list the bypassed block. -/
theorem livePreds_other {b : BlockId} (hlive : (a.block b).dead = false) (hb : b ≠ block)
    (hbt : b ≠ target) : a'.livePreds b = a.livePreds b := by
  simp only [livePreds, w.preds hb, if_neg hbt]
  refine List.filter_congr fun p hp => ?_
  have hne : p ≠ block := by
    rintro rfl
    exact hbt (hr.sole s.live s.ops s.kind hlive hp)
  rw [w.dead, if_neg hne]

include hr in
omit h in
/-- An edge that stays selects the same operand. -/
theorem phiOperand?_other {b source : BlockId} (hlive : (a.block b).dead = false)
    (hb : b ≠ block) (hsource : source ≠ block) (hedge : b = target → source ≠ pred)
    (vars : List OperandId) : a'.phiOperand? b source vars = a.phiOperand? b source vars := by
  unfold phiOperand?
  by_cases hbt : b = target
  · subst hbt
    rw [w.livePreds_target s, List.findIdx?_map]
    congr 2
    funext p
    have hne := hedge rfl
    simp only [Function.comp_apply, swap]
    split
    · rename_i hp
      simp [hp, Ne.symm hne, Ne.symm hsource]
    · rfl
  · rw [w.livePreds_other s hr hlive hb hbt]

omit h in
/-- The new edge selects the operand of the one that it replaces. -/
theorem phiOperand?_target (vars : List OperandId) :
    a'.phiOperand? target pred vars = a.phiOperand? target block vars := by
  unfold phiOperand?
  rw [w.livePreds_target s, List.findIdx?_map]
  congr 1
  refine findIdx?_congr fun p hp => ?_
  have hne : p ≠ pred := by
    rintro rfl
    exact s.pred_not_mem (List.mem_filter.1 hp).1
  simp only [Function.comp_apply, swap]
  split
  · rename_i hp
    simp [hp]
  · rename_i hp
    simp [hp, hne]

/-! ## Execution -/

variable {D : Type} (E : Effects D)

omit s h in
theorem perform_eq (m : Memory D) (op : OpId) : a'.perform E m op = a.perform E m op := by
  by_cases hjump : ∃ b, (a.op op).kind = .jump b
  · obtain ⟨b, hb⟩ := hjump
    rw [perform_jump hb]
    have hk := w.kind op
    rw [hb] at hk
    split at hk
    · exact perform_jump (hk.trans (OpKind.mapBlocks_eq_jump.2 ⟨b, rfl, rfl⟩)) m
    · exact perform_jump hk m
  have hjump' : ∀ b, (a'.op op).kind ≠ .jump b := by
    intro b hb
    rw [w.kind] at hb
    split at hb
    · obtain ⟨c, hc, -⟩ := OpKind.mapBlocks_eq_jump.1 hb
      exact hjump ⟨c, hc⟩
    · exact hjump ⟨b, hb⟩
  have hreads : (a'.op op).kind.reads = (a.op op).kind.reads := by
    rw [w.kind]
    split
    · exact OpKind.reads_mapBlocks _ _
    · rfl
  have hwritten : (a'.op op).kind.written? = (a.op op).kind.written? := by
    funext id
    rw [w.kind]
    split
    · simp only [OpKind.written?, OpKind.slots_mapBlocks, OpKind.writes_mapBlocks]
    · rfl
  rw [Arena.perform_eq hjump', Arena.perform_eq fun b hb => hjump ⟨b, hb⟩, hreads, hwritten]

omit s h in
theorem ops_eq {b : BlockId} (hb : b ≠ block) (m : Memory D) :
    (a'.block b).ops.foldl (a'.perform E) m = (a.block b).ops.foldl (a.perform E) m := by
  rw [w.ops, if_neg hb]
  congr 1
  funext m op
  exact w.perform_eq E m op

omit s h in
theorem enter_eq {b : BlockId} {source source' : Option BlockId}
    (hsource : ∀ vars, source'.bind (a'.phiOperand? b · vars) =
      source.bind (a.phiOperand? b · vars)) (m : Memory D) :
    a'.enter b source' m = a.enter b source m := by
  have htakes : ∀ id, a'.takes? b source' id = a.takes? b source id := by
    intro id
    funext phi
    unfold takes?
    split
    · rename_i vars result hk
      rw [w.kind_phi] at hk
      simp only [hk, hsource]
    · rename_i hk
      split
      · rename_i vars result hk'
        exact absurd (w.kind_phi.2 hk') (hk vars result)
      · rfl
  simp only [enter, incoming?, w.phis, htakes]

/-! ## Trails -/

omit s h in
theorem survivors_eq {trail : List BlockId} (ht : a.Trail entry trail) :
    a'.survivors trail = trail.filter (· ≠ block) := by
  refine List.filter_congr fun b hb => ?_
  rw [w.dead]
  split
  · simp [*]
  · simp [ht.live b hb, *]

include hr in
/-- Dropping the bypassed block from a trail gives a trail on which the same happens. -/
theorem filter_trail (hentry : block ≠ entry) {trail : List BlockId}
    (ht : a.Trail entry trail) :
    a'.Trail entry (trail.filter (· ≠ block)) ∧
      a'.memory E (trail.filter (· ≠ block)) = a.memory E trail := by
  induction ht with
  | start hlive =>
    rw [List.filter_cons_of_pos (by simpa using Ne.symm hentry), List.filter_nil]
    refine ⟨.start (by rw [w.dead, if_neg (Ne.symm hentry)]; exact hlive), ?_⟩
    have henter : ∀ m : Memory D, a'.enter entry none m = a.enter entry none m :=
      w.enter_eq fun _ => rfl
    rw [memory, memory, w.ops_eq E (Ne.symm hentry), List.head?_nil, henter]
    rfl
  | @step source b rest ht hedge hlive ih =>
    obtain ⟨ih, hmem⟩ := ih
    by_cases hb : b = block
    · subst hb
      rw [List.filter_cons_of_neg (by simp), s.memory_block E]
      exact ⟨ih, hmem⟩
    have hlive' : (a'.block b).dead = false := by rw [w.dead, if_neg hb]; exact hlive
    rw [List.filter_cons_of_pos (by simpa using hb), memory, w.ops_eq E hb, memory]
    by_cases hs : source = block
    · -- The trail came through the bypassed block, from its predecessor to its target.
      subst hs
      obtain rfl : b = target := by
        rw [s.successors_block] at hedge
        exact List.mem_singleton.1 hedge
      cases rest with
      | nil => exact absurd ht.eq_entry hentry
      | cons p rest =>
        obtain rfl := s.eq_pred h ht
        rw [List.filter_cons_of_neg (by simp),
          List.filter_cons_of_pos (by simpa using s.pred_ne)] at ih hmem ⊢
        refine ⟨.step ih ?_ hlive', ?_⟩
        · rw [w.successors_eq s h s.pred_ne, if_pos rfl, List.mem_map]
          exact ⟨source, ht.edge, if_pos rfl⟩
        · have henter : ∀ m : Memory D, a'.enter b (some p) m = a.enter b (some source) m :=
            w.enter_eq (w.phiOperand?_target s)
          rw [List.head?_cons, List.head?_cons, hmem, henter]
    · rw [List.filter_cons_of_pos (by simpa using hs)] at ih hmem ⊢
      refine ⟨.step ih ?_ hlive', ?_⟩
      · rw [w.successors_eq s h hs]
        split
        · exact List.mem_map.2 ⟨b, hedge, if_neg hb⟩
        · exact hedge
      · have hne : b = target → source ≠ pred := by
          rintro rfl rfl
          exact s.not_target h ht hedge
        have henter : ∀ m : Memory D, a'.enter b (some source) m = a.enter b (some source) m :=
          w.enter_eq (w.phiOperand?_other s hr hlive hb hs hne)
        rw [List.head?_cons, List.head?_cons, hmem, henter]

/-- Every trail comes about by dropping the bypassed block from one. -/
theorem trail_origin (hentry : block ≠ entry) {trail' : List BlockId}
    (ht : a'.Trail entry trail') :
    ∃ trail, a.Trail entry trail ∧ trail.filter (· ≠ block) = trail' ∧
      trail.head? = trail'.head? := by
  induction ht with
  | start hlive =>
    rw [w.dead, if_neg (Ne.symm hentry)] at hlive
    exact ⟨[entry], .start hlive, by simp [Ne.symm hentry], rfl⟩
  | @step source b rest ht hedge hlive ih =>
    obtain ⟨trail, htrail, hfilter, hhead⟩ := ih
    obtain ⟨before, rfl⟩ : ∃ before, trail = source :: before := by
      cases trail with
      | nil => cases hhead
      | cons c before => exact ⟨before, by rw [Option.some.inj hhead]⟩
    have hb : b ≠ block := by
      rintro rfl
      simp [w.dead] at hlive
    have hs : source ≠ block := by
      have hmem : source ∈ source :: rest := List.mem_cons_self ..
      rw [← hfilter] at hmem
      simpa using (List.mem_filter.1 hmem).2
    rw [w.dead, if_neg hb] at hlive
    rw [w.successors_eq s h hs] at hedge
    -- The edge was there before, or it goes from the predecessor to the target.
    have hcases : b ∈ a.successors source ∨ block ∈ a.successors source ∧ b = target := by
      split at hedge
      · obtain ⟨c, hc, heq⟩ := List.mem_map.1 hedge
        unfold swap at heq
        split at heq
        · rename_i hcb
          exact .inr ⟨hcb ▸ hc, heq.symm⟩
        · exact .inl (heq ▸ hc)
      · exact .inl hedge
    rcases hcases with hstay | ⟨hskip, rfl⟩
    · exact ⟨b :: source :: before, .step htrail hstay hlive,
        by rw [List.filter_cons_of_pos (by simpa using hb), hfilter], rfl⟩
    · refine ⟨b :: block :: source :: before, .step (.step htrail hskip s.live) ?_ hlive, ?_, rfl⟩
      · rw [s.successors_block]
        exact List.mem_singleton.2 rfl
      · rw [List.filter_cons_of_pos (by simpa using hb), List.filter_cons_of_neg (by simp), hfilter]

/-- Every block that is reached was reached before. -/
theorem reached (hentry : block ≠ entry) {b : BlockId} {rest : List BlockId}
    (ht : a'.Trail entry (b :: rest)) : ∃ before, a.Trail entry (b :: before) := by
  obtain ⟨trail, ht₀, -, hhead⟩ := w.trail_origin s h hentry ht
  cases trail with
  | nil => cases hhead
  | cons c before =>
    obtain rfl := Option.some.inj hhead
    exact ⟨before, ht₀⟩

theorem linked (hentry : block ≠ entry) : a'.Linked entry where
  placed op b := by
    rw [w.place, members, w.phis, w.ops]
    by_cases ho : op = jump
    · subst ho
      have hjump : op ∈ a.members block := by simp [members, s.ops]
      have hother : ∀ c, c ≠ block → op ∉ a.members c := fun c hc hm => hc (h.unique hm hjump)
      by_cases hb : b = block
      · simp [hb, s.phis]
      · simpa [hb, members] using hother b hb
    · by_cases hb : b = block
      · subst hb
        have hplaced := h.placed op b
        simp only [members, s.phis, s.ops, List.nil_append, List.mem_singleton, ho,
          false_iff] at hplaced
        simp [ho, s.phis, hplaced]
      · rw [if_neg ho, if_neg hb]
        exact h.placed op b
  covers {source b rest} ht hs := by
    obtain ⟨before, ht₀⟩ := w.reached s h hentry ht
    have hsource : source ≠ block := by
      rintro rfl
      have hlive := ht.live source (List.mem_cons_self ..)
      simp [w.dead] at hlive
    rw [w.successors_eq s h hsource] at hs
    split at hs
    · rename_i hsp
      subst hsp
      obtain ⟨c, hc, rfl⟩ := List.mem_map.1 hs
      by_cases hcb : c = block
      · subst hcb
        -- The predecessor takes the place of the bypassed block.
        simp only [swap, if_true]
        rw [w.preds s.target_ne, if_pos rfl]
        refine List.mem_map.2 ⟨c, ?_, if_pos rfl⟩
        refine h.covers (.step ht₀ hc s.live) ?_
        rw [s.successors_block]
        exact List.mem_singleton.2 rfl
      · simp only [swap, if_neg hcb]
        rw [w.preds hcb, if_neg]
        · exact h.covers ht₀ hc
        · rintro rfl
          exact s.not_target h ht₀ hc
    · rename_i hsp
      have hb : b ≠ block := by
        rintro rfl
        exact hsp (s.eq_pred h (.step ht₀ hs s.live))
      have hmem := h.covers ht₀ hs
      rw [w.preds hb]
      split
      · exact List.mem_map.2 ⟨source, hmem, if_neg hsource⟩
      · exact hmem

include hr in
theorem regular : a'.Regular entry where
  sole {source b t j} hlive hops hk hlive' hmem := by
    have hne : ∀ {c : BlockId}, (a'.block c).dead = false → c ≠ block := by
      rintro c hc rfl
      simp [w.dead] at hc
    have hsource := hne hlive
    have hb := hne hlive'
    rw [w.dead, if_neg hsource] at hlive
    rw [w.dead, if_neg hb] at hlive'
    rw [w.ops, if_neg hsource] at hops
    rw [w.preds hb] at hmem
    have hj : j ∈ (a.block source).ops := by rw [hops]; exact List.mem_singleton.2 rfl
    have hlast := s.mem_ops_pred
    rw [w.kind] at hk
    split at hk
    · -- The predecessor only jumps itself, and jumps to the target now.
      rename_i hjl
      subst hjl
      obtain rfl : source = pred := h.unique (List.mem_append_right _ hj)
        (List.mem_append_right _ hlast)
      obtain ⟨c, hc, rfl⟩ := OpKind.mapBlocks_eq_jump.1 hk
      obtain rfl : block = c := by
        have hleads := s.leads
        rw [hc] at hleads
        exact List.mem_singleton.1 hleads
      rw [swap, if_pos rfl]
      split at hmem
      · assumption
      · exact absurd (hr.sole hlive hops hc hlive' hmem) hb
    · rename_i hjl
      split at hmem
      · obtain ⟨c, hc, heq⟩ := List.mem_map.1 hmem
        unfold swap at heq
        split at heq
        · subst heq
          rw [hops, List.mem_singleton] at hlast
          exact absurd hlast.symm hjl
        · exact hr.sole hlive hops hk hlive' (heq ▸ hc)
      · exact hr.sole hlive hops hk hlive' hmem
  entry_phis {phi vars result} hp hk := by
    rw [w.phis] at hp
    rw [w.kind_phi] at hk
    exact hr.entry_phis hp hk

include hr in
theorem simulates (hentry : block ≠ entry) : a.Simulates a' entry := by
  refine ⟨fun {b} hd => ?_, fun ht => ?_, fun ht => ?_, fun E ht => ?_⟩
  · rw [w.dead]
    split
    · rfl
    · exact hd
  · rw [w.survivors_eq ht]
    exact (w.filter_trail s h hr (⟨fun _ => (), fun _ _ _ _ => ()⟩ : Effects Unit) hentry ht).1
  · obtain ⟨trail, ht, hfilter, -⟩ := w.trail_origin s h hentry ht
    exact ⟨trail, ht, (w.survivors_eq ht).trans hfilter⟩
  · rw [w.survivors_eq ht, (w.filter_trail s h hr E hentry ht).2]

end Skips

/-! ## Rounds -/

/-- What is kept by bypassing blocks: the meaning of the function, and that it can go on. -/
structure Coalesced (a a' : Arena) (entry : BlockId) : Prop where
  linked : a'.Linked entry
  regular : a'.Regular entry
  simulates : a.Simulates a' entry
  funcs : a'.funcs = a.funcs

theorem Coalesced.trans {a'' : Arena} (h : a.Coalesced a' entry) (h' : a'.Coalesced a'' entry) :
    a.Coalesced a'' entry :=
  ⟨h'.linked, h'.regular, h.simulates.trans h'.simulates, h'.funcs.trans h.funcs⟩

theorem Coalesced.refl (h : a.Linked entry) (hr : a.Regular entry) : a.Coalesced a entry :=
  ⟨h, hr, .refl a entry, rfl⟩

/-- An attempt to bypass a block keeps the meaning of the function. -/
theorem tryBypass_coalesced (h : a.Linked entry) (hr : a.Regular entry) (s : JumpState)
    (hentry : block ≠ entry) : a.Coalesced (tryBypass s a block).2 entry := by
  unfold tryBypass
  split
  · exact .refl h hr
  · rename_i target htarget
    split
    · exact .refl h hr
    · rename_i hne
      split
      · exact .refl h hr
      · rename_i pred last hpred
        obtain ⟨hlive, hphis, jump, hops, hk⟩ := jumpOnly?_eq_some htarget
        obtain ⟨hpreds, hpb, hnot, ht, hleads⟩ := bypassable?_eq_some hpred
        have hs : a.Skippable block target pred jump last :=
          ⟨hlive, hphis, hops, hk, hne, hpreds, hpb, hnot, ht, hleads⟩
        have w := bypass_skips h hs
        exact ⟨w.linked hs h hentry, w.regular hs h hr, w.simulates hs h hr hentry, w.funcs⟩

theorem foldl_tryBypass_coalesced (h : a.Linked entry) (hr : a.Regular entry) (s : JumpState)
    {blocks : List BlockId} (hblocks : ∀ b ∈ blocks, b ≠ entry) :
    a.Coalesced (blocks.foldl (fun (s, a) block => tryBypass s a block) (s, a)).2 entry := by
  induction blocks generalizing a s with
  | nil => exact .refl h hr
  | cons b blocks ih =>
    have hb := tryBypass_coalesced h hr s (hblocks b (List.mem_cons_self ..))
    exact hb.trans (ih hb.linked hb.regular _ fun c hc => hblocks c (List.mem_cons_of_mem _ hc))

/-- One round keeps the meaning of a function. -/
theorem round_coalesced {func : FuncId} {s next : JumpState} {changed : Arena}
    (h : a.Linked (a.func func).entry) (hr : a.Regular (a.func func).entry)
    (heq : ((a.func func).blocks.filter (· ≠ (a.func func).entry)).foldl
      (fun (s, a) block => tryBypass s a block) (s, a) = (next, changed)) :
    a.Coalesced changed (a.func func).entry := by
  have hround := foldl_tryBypass_coalesced h hr s fun b
    (hb : b ∈ (a.func func).blocks.filter (· ≠ (a.func func).entry)) => by
      simpa using (List.mem_filter.1 hb).2
  rw [heq] at hround
  exact hround

/-- Bypassing blocks in rounds keeps the meaning of a function. -/
theorem coalesceFrom_coalesced {func : FuncId} (s : JumpState) (h : a.Linked (a.func func).entry)
    (hr : a.Regular (a.func func).entry) :
    a.Coalesced (coalesceFrom func s a).2 (a.func func).entry := by
  fun_induction coalesceFrom func s a with
  | case1 s a f next changed heq hcount => exact round_coalesced h hr heq
  | case2 s a f next changed heq hcount hlt ih =>
    have hround := round_coalesced h hr heq
    have hfunc : changed.func func = a.func func := by rw [Arena.func, Arena.func, hround.funcs]
    rw [hfunc] at ih
    exact hround.trans (ih hround.linked hround.regular)
  | case3 s a f next changed heq hcount hlt => exact round_coalesced h hr heq

end QueryTaint.Arena
