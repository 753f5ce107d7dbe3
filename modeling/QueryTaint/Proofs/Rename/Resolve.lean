import Mathlib.Data.Finset.Card
import QueryTaint.Proofs.Rename.Refill

/-!
# Searching for versions

When a body is complete, the version of a variable in a block is found by following predecessors.
What is found for one variable is described by `Quest.Settled`: the version that the block writes
last, or the result of a φ operation of the block that joins what is found in all live predecessors
(`Quest.Feeds`), or what is found in the only predecessor. `Quest.Resolving` says that all versions
found so far are settled, but for the results of some φ operations that still get operands.

A search always comes to an end before its steps are used up: it follows single predecessors at most
through all blocks before it joins versions, and then one more block has a version
(`readWithin_finds`). So it keeps `Quest.Resolving`, and finds the version that stays bound.
-/

namespace QueryTaint.Lower

/-- A variable that is looked for in the blocks of a body, and the builder when the body was
complete. -/
structure Quest where
  base : Base
  before : Builder
  name : String

/-- φ operations that still get operands, with their blocks and results. -/
abbrev Waiting := OpId → BlockId → OperandId → Prop

namespace Quest

variable (Q : Quest)

/-- The version of the variable in a block. -/
def version? (b : Builder) (block : BlockId) : Option OperandId := b.scope.lookup block Q.name

/-- The version that a block writes last. -/
def last? (block : BlockId) : Option OperandId :=
  Q.before.arena.lastVersion? Q.name (Q.before.arena.block block).ops

/-- An operand that can be a version of the variable: it has the name, or a search made it. -/
def Apt (x : OperandId) : Prop :=
  Q.before.arena.nameOf? x = some Q.name ∨ Q.before.arena.operands.size ≤ x.index

/-- A block where a φ operation may stand for the variable. -/
def Joining (block : BlockId) : Prop :=
  Q.version? Q.before block ≠ none ∨ passes Q.before.arena block = false

/-- A φ operation of a block joins the versions of all live predecessors. -/
structure Feeds (W : Waiting) (b : Builder) (block : BlockId) (x : OperandId) (phi : OpId)
    (vars : List OperandId) : Prop where
  done : ∀ other y, ¬W phi other y
  mem : phi ∈ (b.arena.block block).phis
  kind : (b.arena.op phi).kind = .phi vars x
  only : ∀ o ∈ (b.arena.block block).phis, ∀ vars', (b.arena.op o).kind = .phi vars' x → o = phi
  found : (b.arena.livePreds block).map (Q.version? b) = vars.map some
  temporary : (b.arena.operand x).kind.isTemporary = true

/-- A φ operation that still gets operands. -/
structure Waits (b : Builder) (phi : OpId) (block : BlockId) (x : OperandId) : Prop where
  owns : Q.base.Owns block
  lt : phi.index < b.arena.ops.size
  kind : ∃ vars, (b.arena.op phi).kind = .phi vars x
  only : ∀ o ∈ (b.arena.block block).phis, ∀ vars, (b.arena.op o).kind = .phi vars x → o = phi
  temporary : (b.arena.operand x).kind.isTemporary = true
  ltResult : x.index < b.arena.operands.size
  apt : Q.Apt x
  joining : Q.Joining block

/-- An operand is the result of a φ operation for a block. -/
def Joined (W : Waiting) (b : Builder) (block : BlockId) (x : OperandId) : Prop :=
  (∃ phi, W phi block x) ∨ ∃ phi vars, Q.Feeds W b block x phi vars

/-- A version is that of the only predecessor. -/
def Passed (b : Builder) (block : BlockId) (x : OperandId) : Prop :=
  ¬Q.Joining block ∧ ∃ pred, (Q.before.arena.block block).preds = [pred] ∧
    Q.version? b pred = some x

/-- Why an operand is the version of the variable in a block. -/
structure Settled (W : Waiting) (b : Builder) (block : BlockId) (x : OperandId) : Prop where
  lt : x.index < b.arena.operands.size
  apt : Q.Apt x
  reason : Q.last? block = some x ∨
    Q.last? block = none ∧ (Q.Joined W b block x ∨ Q.Passed b block x)

/-- What holds while the variable is looked for. -/
structure Resolving (W : Waiting) (b : Builder) : Prop where
  refilled : Refilled Q.before.arena b.arena
  complete : b.scope.complete = true
  waits : ∀ phi block x, W phi block x → Q.Waits b phi block x
  phis : ∀ block, Q.base.Owns block → ∀ phi ∈ (b.arena.block block).phis,
    phi.index < b.arena.ops.size ∧ ∀ vars x, (b.arena.op phi).kind = .phi vars x →
      x.index < b.arena.operands.size ∧ (Q.Apt x → Q.Joining block)
  old : ∀ block x, Q.version? Q.before block = some x → Q.version? b block = some x
  bound : ∀ block, Q.base.Owns block → ∀ x, Q.version? b block = some x → Q.Settled W b block x
  served : ∀ p ∈ Q.before.scope.pending, p.name = Q.name → ∀ r,
    (Q.before.arena.op p.phi).kind = .phi [] r → Q.Joined W b p.block r

/-- The body was lowered in good order, and the variable is a plain one. -/
structure Fit : Prop where
  inv : Inv Q.base {} Q.before
  plain : IsPlainName Q.name
  closed : ∀ block, Q.base.Owns block → ∀ pred ∈ (Q.before.arena.block block).preds,
    Q.base.Holds Q.before.arena pred
  ranked : Q.before.arena.Ranked Q.base.Owns
  placed : ∀ p ∈ Q.before.scope.pending, p.block.index < Q.before.arena.blocks.size

variable {Q} {W W' : Waiting} {K : OpId → Prop} {b b' : Builder}

/-- Versions that are bound stay so. -/
def Stays (Q : Quest) (b b' : Builder) : Prop :=
  ∀ block x, Q.version? b block = some x → Q.version? b' block = some x

theorem Stays.refl (b : Builder) : Q.Stays b b := fun _ _ => id

theorem Stays.trans {b'' : Builder} (h : Q.Stays b b') (h' : Q.Stays b' b'') : Q.Stays b b'' :=
  fun block x hx => h' block x (h block x hx)

/-! ## What a step keeps -/

/-- A step of a search: φ operations that have their operands are left alone, and so are versions
that are bound. -/
structure Progress (Q : Quest) (W W' : Waiting) (K : OpId → Prop) (b b' : Builder) : Prop where
  adds : Adds K b.arena b'.arena
  complete : b'.scope.complete = b.scope.complete
  spares : ∀ block phi vars x, phi ∈ (b.arena.block block).phis →
    (b.arena.op phi).kind = .phi vars x → Q.Apt x → (∀ other y, ¬W phi other y) → K phi
  stays : Q.Stays b b'
  more : ∀ phi block x, W phi block x → W' phi block x
  fresh : ∀ phi block x, W' phi block x → phi.index < b.arena.ops.size → W phi block x

/-- What was found in some blocks stays so. -/
theorem Stays.map_eq (h : Q.Stays b b') {blocks : List BlockId} {vars : List OperandId}
    (hfound : blocks.map (Q.version? b) = vars.map some) :
    blocks.map (Q.version? b') = vars.map some := by
  rw [← hfound]
  refine List.map_congr_left fun block hblock => ?_
  have hmem : Q.version? b block ∈ vars.map some := hfound ▸ List.mem_map_of_mem hblock
  obtain ⟨x, -, hx⟩ := List.mem_map.1 hmem
  rw [← hx]
  exact h block x hx.symm

namespace Resolving

/-- New φ operations have new results. -/
theorem only (h : Q.Resolving W b) (ha : Adds K b.arena b'.arena) {block : BlockId}
    (howns : Q.base.Owns block) {x : OperandId} (hx : x.index < b.arena.operands.size) {phi : OpId}
    (honly : ∀ o ∈ (b.arena.block block).phis, ∀ vars,
      (b.arena.op o).kind = .phi vars x → o = phi) :
    ∀ o ∈ (b'.arena.block block).phis, ∀ vars, (b'.arena.op o).kind = .phi vars x → o = phi := by
  intro o ho vars hkind
  rcases ha.made block o ho with ho | ⟨-, -, hnew⟩
  · obtain ⟨vars', hkind'⟩ := (ha.op o (h.phis block howns o ho).1).of_phi hkind
    exact honly o ho vars' hkind'
  · exact absurd hx (Nat.not_lt.2 (hnew vars x hkind).1)

theorem feeds (h : Q.Resolving W b) (hp : Q.Progress W W' K b b') {block : BlockId}
    (howns : Q.base.Owns block) {x : OperandId} (hapt : Q.Apt x) {phi : OpId}
    {vars : List OperandId} (hf : Q.Feeds W b block x phi vars) :
    Q.Feeds W' b' block x phi vars := by
  obtain ⟨hlt, hresult⟩ := h.phis block howns phi hf.mem
  have hx := (hresult vars x hf.kind).1
  refine ⟨fun other y hy => hf.done other y (hp.fresh phi other y hy hlt),
    hp.adds.phis block hf.mem, ?_, h.only hp.adds howns hx hf.only, ?_, ?_⟩
  · rw [hp.adds.keeps phi hlt (hp.spares block phi vars x hf.mem hf.kind hapt hf.done)]
    exact hf.kind
  · rw [hp.adds.livePreds]
    exact hp.stays.map_eq hf.found
  · rw [hp.adds.isTemporary hx]
    exact hf.temporary

theorem joined (h : Q.Resolving W b) (hp : Q.Progress W W' K b b') {block : BlockId}
    (howns : Q.base.Owns block) {x : OperandId} (hapt : Q.Apt x) (hj : Q.Joined W b block x) :
    Q.Joined W' b' block x := by
  refine hj.imp ?_ ?_
  · rintro ⟨phi, hphi⟩
    exact ⟨phi, hp.more phi block x hphi⟩
  · rintro ⟨phi, vars, hf⟩
    exact ⟨phi, vars, h.feeds hp howns hapt hf⟩

theorem settled (h : Q.Resolving W b) (hp : Q.Progress W W' K b b') {block : BlockId}
    (howns : Q.base.Owns block) {x : OperandId} (hs : Q.Settled W b block x) :
    Q.Settled W' b' block x where
  lt := Nat.lt_of_lt_of_le hs.lt hp.adds.operands
  apt := hs.apt
  reason := by
    refine hs.reason.imp id (And.imp id (Or.imp ?_ ?_))
    · exact h.joined hp howns hs.apt
    · rintro ⟨hjoining, pred, hpreds, hx⟩
      exact ⟨hjoining, pred, hpreds, hp.stays pred x hx⟩

theorem waiting (h : Q.Resolving W b) (ha : Adds K b.arena b'.arena) {phi : OpId}
    {block : BlockId} {x : OperandId} (hphi : W phi block x) : Q.Waits b' phi block x := by
  have hw := h.waits phi block x hphi
  obtain ⟨vars, hkind⟩ := hw.kind
  refine ⟨hw.owns, Nat.lt_of_lt_of_le hw.lt ha.ops, (ha.op phi hw.lt).phi hkind,
    h.only ha hw.owns hw.ltResult hw.only, ?_, Nat.lt_of_lt_of_le hw.ltResult ha.operands, hw.apt,
    hw.joining⟩
  rw [ha.isTemporary hw.ltResult]
  exact hw.temporary

/-- A step keeps what is known, if what it binds is settled. -/
theorem progress (hfit : Q.Fit) (h : Q.Resolving W b) (hp : Q.Progress W W' K b b')
    (hwaits : ∀ phi block x, W' phi block x → W phi block x ∨ Q.Waits b' phi block x)
    (hbound : ∀ block, Q.base.Owns block → ∀ x, Q.version? b' block = some x →
      Q.version? b block = some x ∨ Q.Settled W' b' block x) : Q.Resolving W' b' where
  refilled := h.refilled.trans hp.adds.toRefilled
  complete := hp.complete.trans h.complete
  waits phi block x hphi := (hwaits phi block x hphi).elim (h.waiting hp.adds) id
  phis block howns phi hphi := by
    rcases hp.adds.made block phi hphi with hphi | ⟨hpasses, hlt, hresult⟩
    · obtain ⟨hlt, hresult⟩ := h.phis block howns phi hphi
      refine ⟨Nat.lt_of_lt_of_le hlt hp.adds.ops, fun vars x hkind => ?_⟩
      obtain ⟨vars', hkind'⟩ := (hp.adds.op phi hlt).of_phi hkind
      obtain ⟨hx, hjoining⟩ := hresult vars' x hkind'
      exact ⟨Nat.lt_of_lt_of_le hx hp.adds.operands, hjoining⟩
    · rw [h.refilled.passes] at hpasses
      exact ⟨hlt, fun vars x hkind => ⟨(hresult vars x hkind).2, fun _ => .inr hpasses⟩⟩
  old block x hx := hp.stays block x (h.old block x hx)
  bound block howns x hx :=
    (hbound block howns x hx).elim (fun hold => h.settled hp howns (h.bound block howns x hold)) id
  served p hpending hname r hkind := by
    obtain ⟨howns, -, -, r', hkind', -, -, hr⟩ := hfit.inv.pending p hpending
    cases hkind.symm.trans hkind'
    exact h.joined hp howns (.inl (hr.trans (congrArg some hname))) (h.served p hpending hname r hkind)

/-- A φ operation stands for the variable only where it may. -/
theorem joining (h : Q.Resolving W b) {block : BlockId} (howns : Q.base.Owns block) {x : OperandId}
    (hapt : Q.Apt x) (hj : Q.Joined W b block x) : Q.Joining block := by
  rcases hj with ⟨phi, hphi⟩ | ⟨phi, vars, hf⟩
  · exact (h.waits phi block x hphi).joining
  · exact ((h.phis block howns phi hf.mem).2 vars x hf.kind).2 hapt

/-- φ operations that have all their operands do not wait any more. -/
theorem close (h : Q.Resolving W' b) (hless : ∀ phi block x, W phi block x → W' phi block x)
    (hdone : ∀ phi block x, W' phi block x → W phi block x ∨ ∃ vars, Q.Feeds W b block x phi vars) :
    Q.Resolving W b := by
  have hjoined {block : BlockId} {x : OperandId} (hj : Q.Joined W' b block x) :
      Q.Joined W b block x := by
    rcases hj with ⟨phi, hphi⟩ | ⟨phi, vars, hf⟩
    · rcases hdone phi block x hphi with hphi | ⟨vars, hf⟩
      · exact .inl ⟨phi, hphi⟩
      · exact .inr ⟨phi, vars, hf⟩
    · exact .inr ⟨phi, vars, { hf with done := fun other y hy => hf.done other y (hless _ _ _ hy) }⟩
  exact { h with
    waits := fun phi block x hphi => h.waits phi block x (hless phi block x hphi)
    bound := fun block howns x hx =>
      let hs := h.bound block howns x hx
      ⟨hs.lt, hs.apt, hs.reason.imp id (And.imp id (Or.imp hjoined id))⟩
    served := fun p hp hname r hkind => hjoined (h.served p hp hname r hkind) }

end Resolving

/-! ## The start of the search -/

namespace Fit

theorem last_eq_none (hfit : Q.Fit) {block : BlockId} (howns : Q.base.Owns block)
    (hnone : Q.version? Q.before block = none) : Q.last? block = none :=
  Decidable.of_not_not fun hne => hfit.inv.written block howns Q.name hfit.plain hne hnone

theorem apt_last {block : BlockId} {x : OperandId} (hx : Q.last? block = some x) : Q.Apt x := by
  obtain ⟨op, -, hop⟩ := List.exists_of_findSome?_eq_some hx
  rw [Arena.writtenVersion?] at hop
  have hname := List.find?_some hop
  exact .inl (of_decide_eq_true hname)

/-- An operand of the body without the name is no version of the variable. -/
theorem not_apt {x : OperandId} (hx : Q.base.Mine Q.before.arena x)
    (hname : Q.before.arena.nameOf? x ≠ some Q.name) : ¬Q.Apt x :=
  fun hapt => hapt.elim hname (Nat.not_le.2 hx.2)

end Fit

/-- The φ operations of some that wait for the variable. -/
def pending (Q : Quest) (todo : List PendingPhi) : Waiting := fun phi block x =>
  ∃ p ∈ todo, p.name = Q.name ∧ p.phi = phi ∧ p.block = block ∧
    (Q.before.arena.op phi).kind = .phi [] x

/-- The builder when the search starts. -/
def start (Q : Quest) : Builder :=
  { Q.before with scope := { Q.before.scope with complete := true, pending := #[] } }

theorem Fit.start (hfit : Q.Fit) :
    Q.Resolving (Q.pending Q.before.scope.pending.toList) Q.start where
  refilled := .refl _
  complete := rfl
  waits phi block x := by
    rintro ⟨p, hp, hname, rfl, rfl, hkind⟩
    obtain ⟨howns, hlt, hbound, r, hkind', hmine, htemp, hr⟩ :=
      hfit.inv.pending p (Array.mem_toList_iff.1 hp)
    cases hkind.symm.trans hkind'
    rw [hname] at hbound hr
    refine ⟨howns, hlt, ⟨[], hkind⟩, fun o ho vars ho' => ?_, htemp, hmine.2, .inl hr, .inl hbound⟩
    have hnone := ((hfit.inv.phis p.block howns o ho).2 vars x ho').2
    cases hnone.symm.trans hr
  phis block howns phi hphi := by
    obtain ⟨hlt, hresult⟩ := hfit.inv.phis block howns phi hphi
    refine ⟨hlt, fun vars x hkind => ?_⟩
    obtain ⟨hmine, hnone⟩ := hresult vars x hkind
    refine ⟨hmine.2, fun hapt => absurd hapt (Fit.not_apt hmine ?_)⟩
    rw [hnone]
    exact nofun
  old _ _ := id
  bound block howns x hx := by
    have hlt := (hfit.inv.bound block howns Q.name x hx).2
    have hcurrent := (hfit.inv.current block howns Q.name hfit.plain x hx).resolve_left
      fun hdue => absurd hdue.2.1 nofun
    rw [Current, List.take_length] at hcurrent
    rcases hcurrent with hlast | ⟨hlast, p, hp, hblock, hname, hkind⟩
    · exact ⟨hlt, Fit.apt_last hlast, .inl hlast⟩
    · obtain ⟨-, -, -, r, hkind', -, -, hr⟩ := hfit.inv.pending p hp
      cases hkind.symm.trans hkind'
      exact ⟨hlt, .inl (hr.trans (congrArg some hname)), .inr ⟨hlast, .inl (.inl
        ⟨p.phi, p, Array.mem_toList_iff.2 hp, hname, rfl, hblock, hkind⟩)⟩⟩
  served p hp hname r hkind :=
    .inl ⟨p.phi, p, Array.mem_toList_iff.2 hp, hname, rfl, rfl, hkind⟩

/-! ## Binding -/

theorem version?_bind (b : Builder) (block other : BlockId) (x : OperandId) :
    Q.version? { b with scope := b.scope.bind block Q.name x } other =
      if other = block then some x else Q.version? b other := by
  unfold version?
  rw [Scope.lookup_bind]
  simp only [and_true]

namespace Resolving

/-- A block takes the version of its only predecessor. If the search for that version came to the
block again, it took the same one. -/
theorem pass (hfit : Q.Fit) (h : Q.Resolving W b) {block pred : BlockId}
    (howns : Q.base.Owns block) (hjoining : ¬Q.Joining block)
    (hpreds : (Q.before.arena.block block).preds = [pred]) {x : OperandId}
    (hpred : Q.base.Owns pred) (hx : Q.version? b pred = some x) :
    Q.Resolving W { b with scope := b.scope.bind block Q.name x } ∧
      Q.Stays b { b with scope := b.scope.bind block Q.name x } := by
  have hlast : Q.last? block = none :=
    hfit.last_eq_none howns (Decidable.of_not_not fun hne => hjoining (.inl hne))
  have hstays : Q.Stays b { b with scope := b.scope.bind block Q.name x } := by
    intro other y hy
    rw [version?_bind]
    split
    · rename_i heq
      rw [heq] at hy
      have hs := h.bound block howns y hy
      rcases hs.reason with hsome | ⟨-, hj | ⟨-, pred', hpreds', hy'⟩⟩
      · cases hlast.symm.trans hsome
      · exact absurd (h.joining howns hs.apt hj) hjoining
      · cases hpreds.symm.trans hpreds'
        exact hx.symm.trans hy'
    · exact hy
  refine ⟨h.progress hfit (K := fun _ => True) ⟨.refl _ _, rfl, fun _ _ _ _ _ _ _ _ => trivial,
    hstays, fun _ _ _ => id, fun _ _ _ hphi _ => hphi⟩ (fun _ _ _ => .inl) ?_, hstays⟩
  intro other _ y hy
  rw [version?_bind] at hy
  split at hy
  · rename_i heq
    cases hy
    have hs := h.bound pred hpred x hx
    exact .inr ⟨hs.lt, hs.apt, .inr ⟨heq ▸ hlast, .inr ⟨heq ▸ hjoining, pred, heq ▸ hpreds,
      hstays pred x hx⟩⟩⟩
  · exact .inl hy

end Resolving

/-- One more φ operation waits. -/
def insert (W : Waiting) (phi : OpId) (block : BlockId) (x : OperandId) : Waiting :=
  fun o other y => (o = phi ∧ other = block ∧ y = x) ∨ W o other y

/-- What holds after a new φ operation was put into a block and bound there. -/
structure Opened (Q : Quest) (W : Waiting) (b b' : Builder) (block : BlockId) (x : OperandId)
    (phi : OpId) : Prop where
  resolving : Q.Resolving (Quest.insert W phi block x) b'
  seeks : Seeks Q.name (fun _ => True) b b'
  stays : Q.Stays b b'
  value : Q.version? b' block = some x
  mem : phi ∈ (b'.arena.block block).phis
  kind : (b'.arena.op phi).kind = .phi [] x

theorem Resolving.join (hfit : Q.Fit) (h : Q.Resolving W b) {block : BlockId}
    (hblock : Q.base.Holds Q.before.arena block) (hnone : Q.version? b block = none)
    (hpasses : passes b.arena block = false) {b₁ : Builder} {x : OperandId} {phi : OpId}
    (hs : Seeks Q.name (fun _ => True) b b₁) (hphi : FreshPhi b b₁ x phi) :
    Q.Opened W b { b₁ with
      arena := b₁.arena.attachPhi block phi
      scope := b₁.scope.bind block Q.name x } block x phi := by
  obtain ⟨howns, hlt⟩ := hblock
  rw [← h.refilled.size, ← hs.arena.size] at hlt
  have hadds := hs.arena.attachPhi hpasses hphi.lt hphi.kind hphi.newResult hphi.ltResult
  have hsize : (b₁.arena.attachPhi block phi).ops.size = b₁.arena.ops.size :=
    Arena.size_ops_modifyOp ..
  have hphis : ((b₁.arena.attachPhi block phi).block block).phis =
      addNew (b₁.arena.block block).phis phi := by
    rw [Arena.attachPhi, Arena.block_modifyOp, Arena.block_modifyBlock_of_lt hlt, if_pos rfl]
  have hversion (other : BlockId) : Q.version? { b₁ with
      arena := b₁.arena.attachPhi block phi, scope := b₁.scope.bind block Q.name x } other =
      if other = block then some x else Q.version? b other := by
    rw [show Q.version? b other = Q.version? b₁ other by rw [version?, version?, hphi.scope]]
    exact version?_bind b₁ block other x
  have hstays : Q.Stays b { b₁ with
      arena := b₁.arena.attachPhi block phi, scope := b₁.scope.bind block Q.name x } := by
    intro other y hy
    rw [hversion, if_neg]
    · exact hy
    · rintro rfl
      cases hnone.symm.trans hy
  have hlast : Q.last? block = none :=
    hfit.last_eq_none howns <| Option.eq_none_iff_forall_ne_some.2 fun y hy => by
      cases hnone.symm.trans (h.old block y hy)
  have hapt : Q.Apt x := .inr (Nat.le_trans h.refilled.operands hphi.newResult)
  have hkind : ((b₁.arena.attachPhi block phi).op phi).kind = .phi [] x :=
    (kind_attachPhi ..).trans hphi.kind
  refine ⟨h.progress hfit (K := fun _ => True) ⟨hadds, hs.complete, fun _ _ _ _ _ _ _ _ => trivial,
    hstays, fun _ _ _ => .inr, ?_⟩ ?_ ?_, ⟨hadds, hs.complete, hs.reads, fun other n hn => ?_⟩,
    hstays, (hversion block).trans (if_pos rfl), hphis ▸ mem_addNew.2 (.inr rfl), hkind⟩
  · rintro o other y (⟨rfl, -, -⟩ | ho) hlt
    · exact absurd hlt (Nat.not_lt.2 hphi.new)
    · exact ho
  · rintro o other y (⟨rfl, rfl, rfl⟩ | ho)
    · refine .inr ⟨howns, hsize ▸ hphi.lt, ⟨[], hkind⟩, ?_, hphi.temporary, hphi.ltResult, hapt,
        .inr (h.refilled.passes other ▸ hpasses)⟩
      intro o' ho' vars hkind'
      dsimp only at ho' hkind'
      rw [kind_attachPhi] at hkind'
      rw [hphis] at ho'
      rcases mem_addNew.1 ho' with ho' | rfl
      · -- an old φ operation has an old result
        rw [hphi.phis] at ho'
        obtain ⟨hlt, hresult⟩ := h.phis other howns o' ho'
        rw [hs.arena.keeps o' hlt trivial] at hkind'
        exact absurd (hresult vars y hkind').1 (Nat.not_lt.2 hphi.newResult)
      · rfl
    · exact .inl ho
  · intro other _ y hy
    rw [hversion] at hy
    split at hy
    · rename_i heq
      cases hy
      exact .inr ⟨hphi.ltResult, hapt, .inr ⟨heq ▸ hlast, .inl (.inl ⟨phi, .inl ⟨rfl, heq, rfl⟩⟩)⟩⟩
    · exact .inl hy
  · rw [Scope.lookup_bind, if_neg fun hc => hn hc.2]
    exact hs.others other n hn

/-! ## How long a search takes -/

/-- How many blocks have no version of the variable. -/
def unbound (Q : Quest) (b : Builder) : Nat :=
  ((Finset.range Q.before.arena.blocks.size).filter fun i => Q.version? b ⟨i⟩ = none).card

theorem unbound_le (b : Builder) : Q.unbound b ≤ Q.before.arena.blocks.size := by
  rw [← Finset.card_range Q.before.arena.blocks.size]
  exact Finset.card_filter_le ..

theorem Stays.unbound_subset (h : Q.Stays b b') :
    ((Finset.range Q.before.arena.blocks.size).filter fun i => Q.version? b' ⟨i⟩ = none) ⊆
      (Finset.range Q.before.arena.blocks.size).filter fun i => Q.version? b ⟨i⟩ = none := by
  refine Finset.monotone_filter_right _ fun i _ hnone => ?_
  exact Option.eq_none_iff_forall_ne_some.2 fun x hx => by cases hnone.symm.trans (h ⟨i⟩ x hx)

theorem Stays.unbound_le (h : Q.Stays b b') : Q.unbound b' ≤ Q.unbound b :=
  Finset.card_le_card h.unbound_subset

/-- There is one block less without a version when one is bound. -/
theorem Stays.unbound_lt (h : Q.Stays b b') {block : BlockId}
    (hlt : block.index < Q.before.arena.blocks.size) (hnone : Q.version? b block = none)
    (hsome : Q.version? b' block ≠ none) : Q.unbound b' < Q.unbound b := by
  refine Finset.card_lt_card ⟨h.unbound_subset, fun hsub => ?_⟩
  have hmem := hsub (Finset.mem_filter.2 ⟨Finset.mem_range.2 hlt, hnone⟩)
  exact hsome (Finset.mem_filter.1 hmem).2

/-- How far single predecessors can be followed. -/
structure Height (Q : Quest) (height : BlockId → Nat) : Prop where
  le : ∀ block, height block ≤ Q.before.arena.blocks.size
  lt : ∀ block pred, Q.base.Owns block → (Q.before.arena.block block).preds = [pred] →
    height pred < height block

theorem Fit.exists_height (hfit : Q.Fit) : ∃ height, Q.Height height := by
  obtain ⟨rank, hrank⟩ := hfit.ranked
  refine ⟨fun block => ((Finset.range Q.before.arena.blocks.size).filter
    fun i => rank ⟨i⟩ < rank block).card, fun block => ?_, fun block pred howns hpreds => ?_⟩
  · exact (Finset.card_filter_le ..).trans_eq (Finset.card_range _)
  · have hlt := hrank block howns pred [] hpreds
    have hpred := hfit.closed block howns pred (hpreds ▸ List.mem_cons_self)
    refine Finset.card_lt_card ⟨?_, fun hsub => ?_⟩
    · exact Finset.monotone_filter_right _ fun i _ hi => Nat.lt_trans hi hlt
    · have hmem := hsub (Finset.mem_filter.2 ⟨Finset.mem_range.2 hpred.2, hlt⟩)
      exact Nat.lt_irrefl _ (Finset.mem_filter.1 hmem).2

/-! ## Searching -/

/-- What holds after a search in a block that gave an operand. -/
structure Found (Q : Quest) (W : Waiting) (b b' : Builder) (block : BlockId) (x : OperandId) :
    Prop where
  resolving : Q.Resolving W b'
  seeks : Seeks Q.name (fun _ => True) b b'
  stays : Q.Stays b b'
  value : Q.version? b' block = some x

/-- A search finds the version in a block if not too many blocks are without one. -/
def Finds (Q : Quest) (W : Waiting) (count : Nat) (read : BlockId → Build OperandId) : Prop :=
  ∀ block b, Q.base.Holds Q.before.arena block → Q.Resolving W b → Q.unbound b ≤ count →
    Gives (read block) b fun x b' => Q.Found W b b' block x

/-- What holds after a φ operation got the operands that were found in some blocks. -/
structure Gathered (Q : Quest) (W : Waiting) (b b' : Builder) (phi : OpId) (x : OperandId)
    (vars : List OperandId) (preds : List BlockId) : Prop where
  resolving : Q.Resolving W b'
  seeks : Seeks Q.name (· ≠ phi) b b'
  stays : Q.Stays b b'
  filled : ∃ values, (b'.arena.op phi).kind = .phi (vars ++ values) x ∧
    preds.map (Q.version? b') = values.map some

/-- A waiting φ operation gets an operand. -/
theorem Resolving.addPhiOperand (hfit : Q.Fit) (h : Q.Resolving W b) {phi : OpId} {block : BlockId}
    {x : OperandId} (hphi : W phi block x) {vars : List OperandId}
    (hkind : (b.arena.op phi).kind = .phi vars x) (y : OperandId) :
    Q.Resolving W { b with arena := b.arena.addPhiOperand phi y } ∧
      ((b.arena.addPhiOperand phi y).op phi).kind = .phi (vars ++ [y]) x := by
  refine ⟨h.progress hfit ⟨.addPhiOperand b.arena hkind y, rfl, ?_, fun _ _ => id,
    fun _ _ _ => id, fun _ _ _ ho _ => ho⟩ (fun _ _ _ => .inl) fun _ _ _ => .inl, ?_⟩
  · rintro _ o _ _ _ _ _ hdone rfl
    exact hdone block x hphi
  · rw [Arena.addPhiOperand, hkind]
    dsimp only
    rw [Arena.op_modifyOperand, Arena.op_modifyOp_of_lt (h.waits phi block x hphi).lt, if_pos rfl]

theorem addIncoming_finds (hfit : Q.Fit) {read : BlockId → Build OperandId} {count : Nat}
    (hread : Q.Finds W count read) {phi : OpId} {block : BlockId} {x : OperandId}
    (hphi : W phi block x) {preds : List BlockId}
    (hpreds : ∀ pred ∈ preds, Q.base.Holds Q.before.arena pred) {vars : List OperandId}
    (h : Q.Resolving W b) (hcount : Q.unbound b ≤ count)
    (hkind : (b.arena.op phi).kind = .phi vars x) :
    Gives (addIncoming phi read preds) b fun _ b' => Q.Gathered W b b' phi x vars preds := by
  induction preds generalizing b vars with
  | nil => exact ⟨h, .refl b, .refl b, [], by rw [List.append_nil]; exact hkind, rfl⟩
  | cons pred rest ih =>
    obtain ⟨hpred, hrest⟩ := List.forall_mem_cons.1 hpreds
    refine Gives.bind (hread pred b hpred h hcount) fun y b₁ h₁ => ?_
    have hlt := (h.waits phi block x hphi).lt
    have hkind₁ := (h₁.seeks.arena.keeps phi hlt trivial).trans hkind
    obtain ⟨h₂, hkind₂⟩ := h₁.resolving.addPhiOperand hfit hphi hkind₁ y
    refine Gives.bind (P := fun _ b₂ => b₂ = { b₁ with
      arena := b₁.arena.addPhiOperand phi y }) rfl ?_
    rintro _ _ rfl
    have hstays : Q.Stays b { b₁ with arena := b₁.arena.addPhiOperand phi y } := h₁.stays
    have hseeks : Seeks Q.name (· ≠ phi) b { b₁ with arena := b₁.arena.addPhiOperand phi y } :=
      (h₁.seeks.mono fun _ _ => trivial).trans
        (.of_arena (.addPhiOperand b₁.arena hkind₁ y)) fun _ _ => id
    refine (ih hrest h₂ (Nat.le_trans hstays.unbound_le hcount) hkind₂).mono ?_
    rintro _ b₃ ⟨h₃, hseeks₃, hstays₃, values, hkind₃, hfound⟩
    refine ⟨h₃, hseeks.trans hseeks₃ fun _ _ => id, hstays.trans hstays₃, y :: values, ?_, ?_⟩
    · rw [hkind₃, List.append_assoc]
      rfl
    · rw [List.map_cons, List.map_cons, hfound]
      exact congrArg (· :: _) (hstays₃ pred y h₁.value)

/-- A search in a block that joins its predecessors. -/
theorem join_finds (hfit : Q.Fit) {read : BlockId → Build OperandId} {block : BlockId}
    (hblock : Q.base.Holds Q.before.arena block) (h : Q.Resolving W b)
    (hread : ∀ W, Q.Finds W (Q.unbound b - 1) read) (hnone : Q.version? b block = none)
    (hpasses : passes b.arena block = false) :
    Gives (do
      let (value, phi) ← newPhi Q.name
      change (·.attachPhi block phi)
      bindIn block Q.name value
      addIncoming phi read (b.arena.livePreds block)
      return value) b fun x b' => Q.Found W b b' block x := by
  refine Gives.bind (newPhi_seeks (K := fun _ => True) Q.name b) ?_
  rintro ⟨x, phi⟩ b₁ ⟨hs₁, hphi⟩
  have h₂ := h.join hfit hblock hnone hpasses hs₁ hphi
  generalize hb₂ : ({ b₁ with
    arena := b₁.arena.attachPhi block phi
    scope := b₁.scope.bind block Q.name x } : Builder) = b₂ at h₂
  refine Gives.bind (P := fun _ b' => b' = { b₁ with
    arena := b₁.arena.attachPhi block phi }) rfl ?_
  rintro _ _ rfl
  refine Gives.bind (P := fun _ b' => b' = b₂) hb₂ ?_
  rintro _ _ rfl
  have hcount := h₂.stays.unbound_lt hblock.2 hnone (h₂.value ▸ Option.some_ne_none x)
  have hpreds : ∀ pred ∈ b.arena.livePreds block, Q.base.Holds Q.before.arena pred := by
    rw [h.refilled.livePreds]
    exact fun pred hpred => hfit.closed block hblock.1 pred (List.mem_filter.1 hpred).1
  refine Gives.bind (addIncoming_finds hfit (hread _) (.inl ⟨rfl, rfl, rfl⟩) hpreds h₂.resolving
    (Nat.le_sub_one_of_lt hcount) h₂.kind) ?_
  rintro _ b₃ ⟨h₃, hseeks₃, hstays₃, values, hkind₃, hfound⟩
  have hold : ∀ other y, ¬W phi other y := fun other y hy =>
    Nat.not_lt.2 hphi.new (h.waits phi other y hy).lt
  have hwaits := h₃.waits phi block x (.inl ⟨rfl, rfl, rfl⟩)
  have hfeeds : Q.Feeds W b₃ block x phi values := by
    refine ⟨hold, hseeks₃.arena.phis block h₂.mem, hkind₃, hwaits.only, ?_, hwaits.temporary⟩
    rw [hseeks₃.arena.livePreds, h₂.seeks.arena.livePreds]
    exact hfound
  refine ⟨h₃.close (fun _ _ _ => .inr) ?_, h₂.seeks.trans hseeks₃ fun o ho _ heq => ?_,
    h₂.stays.trans hstays₃, hstays₃ block x h₂.value⟩
  · rintro o other y (⟨rfl, rfl, rfl⟩ | ho)
    · exact .inr ⟨values, hfeeds⟩
    · exact .inl ho
  · exact Nat.not_lt.2 hphi.new (heq ▸ ho)

/-- A search with enough steps finds the version in a block. -/
theorem readWithin_finds (hfit : Q.Fit) {height : BlockId → Nat} (hheight : Q.Height height)
    (steps : Nat) (W : Waiting) {block : BlockId} (hblock : Q.base.Holds Q.before.arena block)
    (h : Q.Resolving W b)
    (hsteps : Q.unbound b * (Q.before.arena.blocks.size + 1) + height block < steps) :
    Gives (readWithin Q.name steps block) b fun x b' => Q.Found W b b' block x := by
  induction steps generalizing W block b with
  | zero => exact absurd hsteps (Nat.not_lt_zero _)
  | succ steps ih =>
    rw [readWithin]
    refine Gives.get ?_
    cases hx : b.scope.lookup block Q.name with
    | some x => exact ⟨h, .refl b, .refl b, hx⟩
    | none =>
      rw [hfit.plain.1]
      refine Gives.get ?_
      rw [if_pos h.complete]
      refine Gives.look (Gives.look ?_)
      split
      case isTrue hpasses =>
        have hone : (b.arena.block block).preds.length = 1 :=
          of_decide_eq_true (Bool.and_eq_true_iff.1 hpasses).1
        obtain ⟨pred, hpred⟩ := List.length_eq_one_iff.1 hone
        have hpreds := (h.refilled.preds block).symm.trans hpred
        rw [hpred]
        have hholds := hfit.closed block hblock.1 pred (hpreds ▸ List.mem_cons_self)
        have hlt := hheight.lt block pred hblock.1 hpreds
        have hjoining : ¬Q.Joining block := by
          rintro (hbound | hnot)
          · obtain ⟨y, hy⟩ := Option.ne_none_iff_exists'.1 hbound
            cases hx.symm.trans (h.old block y hy)
          · rw [← h.refilled.passes] at hnot
            cases hnot.symm.trans hpasses
        have hfinds := ih W hholds h (by omega)
        refine Gives.bind hfinds fun x b₁ h₁ => ?_
        obtain ⟨h₂, hstays⟩ := h₁.resolving.pass hfit hblock.1 hjoining hpreds hholds.1 h₁.value
        refine Gives.bind (P := fun _ b₂ => b₂ = { b₁ with
          scope := b₁.scope.bind block Q.name x }) rfl ?_
        rintro _ _ rfl
        exact ⟨h₂, h₁.seeks.trans (bindIn_seeks block Q.name x b₁) fun _ _ => id,
          h₁.stays.trans hstays, (version?_bind ..).trans (if_pos rfl)⟩
      case isFalse hpasses =>
        refine join_finds hfit hblock h (fun W' other b' hother h' hcount => ?_) hx
          (Bool.not_eq_true _ ▸ hpasses)
        refine ih W' hother h' ?_
        have hpos : 0 < Q.unbound b := Finset.card_pos.2
          ⟨block.index, Finset.mem_filter.2 ⟨Finset.mem_range.2 hblock.2, hx⟩⟩
        calc Q.unbound b' * (Q.before.arena.blocks.size + 1) + height other
            ≤ (Q.unbound b - 1) * (Q.before.arena.blocks.size + 1) + Q.before.arena.blocks.size :=
              Nat.add_le_add (Nat.mul_le_mul_right _ hcount) (hheight.le other)
          _ < (Q.unbound b - 1 + 1) * (Q.before.arena.blocks.size + 1) := by
              rw [Nat.succ_mul]
              omega
          _ = Q.unbound b * (Q.before.arena.blocks.size + 1) := by rw [Nat.sub_add_cancel hpos]
          _ ≤ steps := by omega

theorem readName_finds (hfit : Q.Fit) (W : Waiting) :
    Q.Finds W Q.before.arena.blocks.size (readName Q.name) := by
  intro block b hblock h hcount
  obtain ⟨height, hheight⟩ := hfit.exists_height
  refine Gives.look (readWithin_finds hfit hheight _ W hblock h ?_)
  rw [h.refilled.size, Nat.succ_mul]
  exact Nat.add_lt_add_of_le_of_lt (Nat.mul_le_mul_right _ hcount)
    (Nat.lt_succ_of_le (hheight.le block))

end Quest

end QueryTaint.Lower
