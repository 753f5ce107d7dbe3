import QueryTaint.Proofs.Rename.Resolve

/-!
# Completing φ operations of a variable

At the end of a body each φ operation that was made for a read gets its operands by searches in the
live predecessors of its block, and is put into the block. After that every version of a variable is
settled, and no φ operation waits any more (`completePhis_resolves`).
-/

namespace QueryTaint.Lower.Quest

variable {Q : Quest} {W : Waiting} {K : OpId → Prop} {b b' : Builder}

/-! ## Putting φ operations into blocks -/

/-- A φ operation may be put into a block: if its result can be a version of the variable, it is the
only one with this result. -/
structure Attachable (Q : Quest) (W : Waiting) (b : Builder) (block : BlockId) (phi : OpId)
    (vars : List OperandId) (r : OperandId) : Prop where
  lt : phi.index < b.arena.ops.size
  kind : (b.arena.op phi).kind = .phi vars r
  ltResult : r.index < b.arena.operands.size
  joining : Q.Apt r → Q.Joining block
  only : Q.Apt r → ∀ o ∈ (b.arena.block block).phis, ∀ vars',
    (b.arena.op o).kind = .phi vars' r → o = phi
  alone : Q.Apt r → ∀ o, W o block r → o = phi

theorem mem_attachPhi {a : Arena} {block other : BlockId} {phi o : OpId}
    (h : o ∈ ((a.attachPhi block phi).block other).phis) :
    o ∈ (a.block other).phis ∨ other = block ∧ o = phi := by
  rw [Arena.attachPhi, Arena.block_modifyOp, Arena.block_modifyBlock] at h
  split at h
  · rename_i heq
    exact (mem_addNew.1 h).imp_right fun ho => ⟨heq.1.symm, ho⟩
  · exact .inl h

namespace Attachable

variable {block other : BlockId} {phi o : OpId} {vars : List OperandId} {r x : OperandId}

/-- A φ operation that was the only one with its result stays so. -/
theorem only_attach (ha : Q.Attachable W b block phi vars r) (hapt : Q.Apt x)
    (hsame : other = block → x = r → phi = o)
    (honly : ∀ p ∈ (b.arena.block other).phis, ∀ w, (b.arena.op p).kind = .phi w x → p = o) :
    ∀ p ∈ ((b.arena.attachPhi block phi).block other).phis, ∀ w,
      ((b.arena.attachPhi block phi).op p).kind = .phi w x → p = o := by
  intro p hp w hkind
  rw [kind_attachPhi] at hkind
  rcases mem_attachPhi hp with hp | ⟨hother, rfl⟩
  · exact honly p hp w hkind
  · cases ha.kind.symm.trans hkind
    exact hsame hother rfl

theorem feeds (ha : Q.Attachable W b block phi vars r) (hapt : Q.Apt x) {w : List OperandId}
    (hf : Q.Feeds W b other x o w) :
    Q.Feeds W { b with arena := b.arena.attachPhi block phi } other x o w where
  done := hf.done
  mem := (Refilled.attachPhi b.arena block phi).phis other hf.mem
  kind := (kind_attachPhi ..).trans hf.kind
  only := ha.only_attach hapt (by
    rintro rfl rfl
    exact (ha.only hapt o hf.mem w hf.kind).symm) hf.only
  found := by
    rw [(Refilled.attachPhi b.arena block phi).livePreds]
    exact hf.found
  temporary := hf.temporary

theorem joined (ha : Q.Attachable W b block phi vars r) (hapt : Q.Apt x)
    (hj : Q.Joined W b other x) :
    Q.Joined W { b with arena := b.arena.attachPhi block phi } other x :=
  hj.imp id fun ⟨o, w, hf⟩ => ⟨o, w, ha.feeds hapt hf⟩

end Attachable

theorem Resolving.attach (hfit : Q.Fit) (h : Q.Resolving W b) {block : BlockId} {phi : OpId}
    {vars : List OperandId} {r : OperandId} (ha : Q.Attachable W b block phi vars r) :
    Q.Resolving W { b with arena := b.arena.attachPhi block phi } where
  refilled := h.refilled.trans (.attachPhi b.arena block phi)
  complete := h.complete
  waits o other x ho := by
    have hw := h.waits o other x ho
    refine ⟨hw.owns, ?_, ?_, ?_, hw.temporary, hw.ltResult, hw.apt, hw.joining⟩
    · exact Nat.lt_of_lt_of_le hw.lt (Refilled.attachPhi b.arena block phi).ops
    · dsimp only
      rw [kind_attachPhi]
      exact hw.kind
    · refine ha.only_attach hw.apt ?_ hw.only
      rintro rfl rfl
      exact (ha.alone hw.apt o ho).symm
  phis other howns o ho := by
    have hsize : (b.arena.attachPhi block phi).ops.size = b.arena.ops.size :=
      Arena.size_ops_modifyOp ..
    dsimp only
    rw [hsize, kind_attachPhi]
    rcases mem_attachPhi ho with ho | ⟨rfl, rfl⟩
    · exact h.phis other howns o ho
    · refine ⟨ha.lt, fun w x hkind => ?_⟩
      cases ha.kind.symm.trans hkind
      exact ⟨ha.ltResult, ha.joining⟩
  old := h.old
  bound other howns x hx :=
    let hs := h.bound other howns x hx
    ⟨hs.lt, hs.apt, hs.reason.imp id (And.imp id (Or.imp (ha.joined hs.apt) id))⟩
  served p hp hname s hkind := by
    obtain ⟨-, -, -, s', hkind', -, -, hs⟩ := hfit.inv.pending p hp
    cases hkind.symm.trans hkind'
    exact ha.joined (.inl (hs.trans (congrArg some hname))) (h.served p hp hname s hkind)

/-! ## φ operations of reads -/

/-- What holds after a φ operation that was made for a read got its operands. -/
structure Supplied (Q : Quest) (W : Waiting) (b b' : Builder) (p : PendingPhi) (r : OperandId) :
    Prop where
  resolving : Q.Resolving W b'
  adds : Adds (· ≠ p.phi) b.arena b'.arena
  reads : b'.reads = b.reads
  filled : ∃ values, (b'.arena.op p.phi).kind = .phi values r ∧
    (p.name = Q.name → (b.arena.livePreds p.block).map (Q.version? b') = values.map some)

theorem supply (hfit : Q.Fit) {todo : List PendingPhi} {p : PendingPhi} (hp : p ∈ todo)
    (hpending : p ∈ Q.before.scope.pending) {r : OperandId}
    (hkind : (Q.before.arena.op p.phi).kind = .phi [] r) (h : Q.Resolving (Q.pending todo) b)
    (hkept : (b.arena.op p.phi).kind = (Q.before.arena.op p.phi).kind) :
    Gives (addIncoming p.phi (readName p.name) (b.arena.livePreds p.block)) b fun _ b' =>
      Q.Supplied (Q.pending todo) b b' p r := by
  obtain ⟨howns, hlt, -, r', hkind', hmine, -, hr⟩ := hfit.inv.pending p hpending
  cases hkind.symm.trans hkind'
  have hkind := hkept.trans hkind
  by_cases hname : p.name = Q.name
  · rw [hname]
    have hpreds : ∀ pred ∈ b.arena.livePreds p.block, Q.base.Holds Q.before.arena pred := by
      rw [h.refilled.livePreds]
      exact fun pred hpred => hfit.closed p.block howns pred (List.mem_filter.1 hpred).1
    refine (addIncoming_finds hfit (readName_finds hfit _)
      ⟨p, hp, hname, rfl, rfl, hkind'⟩ hpreds h (unbound_le b) hkind).mono ?_
    rintro _ b₁ ⟨h₁, hseeks, -, values, hfilled, hfound⟩
    exact ⟨h₁, hseeks.arena, hseeks.reads, values, hfilled, fun _ => hfound⟩
  · -- the search for another variable leaves this one alone
    have hlt' := Nat.lt_of_lt_of_le hlt h.refilled.ops
    refine (addIncoming_seeks (readName_seeks p.name) h.complete hlt' ⟨_, _, hkind⟩).mono ?_
    intro _ b₁ hseeks
    have hversion (block : BlockId) : Q.version? b₁ block = Q.version? b block :=
      hseeks.others block Q.name (Ne.symm hname)
    obtain ⟨values, hfilled⟩ := (hseeks.arena.op p.phi hlt').phi hkind
    refine ⟨h.progress hfit ⟨hseeks.arena, hseeks.complete, ?_, fun block x hx => ?_,
      fun _ _ _ => id, fun _ _ _ ho _ => ho⟩ (fun _ _ _ => .inl) fun block _ x hx => ?_,
      hseeks.arena, hseeks.reads, values, hfilled, fun heq => absurd heq hname⟩
    · rintro _ o vars x _ ho hapt - rfl
      cases hkind.symm.trans ho
      exact Fit.not_apt hmine (fun hc => hname (Option.some.inj (hr.symm.trans hc))) hapt
    · rw [hversion]
      exact hx
    · rw [hversion] at hx
      exact .inl hx

/-- Nothing waits. -/
def settledAll : Waiting := fun _ _ _ => False

theorem completePhis_resolves (hfit : Q.Fit) {todo : List PendingPhi}
    (hsub : ∀ p ∈ todo, p ∈ Q.before.scope.pending) (hdistinct : (todo.map (·.phi)).Nodup)
    (h : Q.Resolving (Q.pending todo) b)
    (hkept : ∀ p ∈ todo, (b.arena.op p.phi).kind = (Q.before.arena.op p.phi).kind) :
    Gives (completePhis todo) b fun _ b' => Q.Resolving settledAll b' ∧ b'.reads = b.reads := by
  induction todo generalizing b with
  | nil =>
    refine ⟨h.close (fun _ _ _ => False.elim) ?_, rfl⟩
    rintro phi block x ⟨p, hp, -⟩
    cases hp
  | cons p rest ih =>
    obtain ⟨hp, hrest⟩ := List.forall_mem_cons.1 hsub
    obtain ⟨hother, hdistinct⟩ := List.nodup_cons.1 hdistinct
    obtain ⟨howns, hlt, hbound, r, hkind, hmine, htemp, hr⟩ := hfit.inv.pending p hp
    refine Gives.look (Gives.bind (supply hfit List.mem_cons_self hp hkind h
      (hkept p List.mem_cons_self)) ?_)
    rintro _ b₁ ⟨h₁, hadds, hreads, values, hfilled, hfound⟩
    have hname (hapt : Q.Apt r) : p.name = Q.name :=
      Decidable.of_not_not fun hne =>
        Fit.not_apt hmine (fun hc => hne (Option.some.inj (hr.symm.trans hc))) hapt
    have hwaits (hname : p.name = Q.name) : Q.Waits b₁ p.phi p.block r :=
      h₁.waits p.phi p.block r ⟨p, List.mem_cons_self, hname, rfl, rfl, hkind⟩
    have hattach : Q.Attachable (Q.pending (p :: rest)) b₁ p.block p.phi values r := by
      refine ⟨Nat.lt_of_lt_of_le hlt h₁.refilled.ops, hfilled,
        Nat.lt_of_lt_of_le hmine.2 h₁.refilled.operands, fun hapt => (hwaits (hname hapt)).joining,
        fun hapt => (hwaits (hname hapt)).only, ?_⟩
      rintro - _ ⟨q, hq, -, rfl, -, hkind'⟩
      rw [hfit.inv.results q (hsub q hq) p hp r hkind' hkind]
    have h₂ := h₁.attach hfit hattach
    refine Gives.bind (P := fun _ b₂ => b₂ = { b₁ with
      arena := b₁.arena.attachPhi p.block p.phi }) rfl ?_
    rintro _ _ rfl
    have h₃ : Q.Resolving (Q.pending rest)
        { b₁ with arena := b₁.arena.attachPhi p.block p.phi } := by
      refine h₂.close (fun phi block x ⟨q, hq, hrest⟩ => ⟨q, List.mem_cons_of_mem _ hq, hrest⟩) ?_
      rintro phi block x ⟨q, hq, hqname, rfl, rfl, hkind'⟩
      rcases List.mem_cons.1 hq with rfl | hq
      · cases hkind.symm.trans hkind'
        have hw := h₂.waits q.phi q.block r ⟨q, List.mem_cons_self, hqname, rfl, rfl, hkind⟩
        refine .inr ⟨values, ?_, ?_, (kind_attachPhi ..).trans hfilled, hw.only, ?_, hw.temporary⟩
        · rintro other y ⟨q', hq', -, heq, -⟩
          exact hother (List.mem_map.2 ⟨q', hq', heq⟩)
        · have hblock := h₁.refilled.size ▸ hfit.placed q hp
          rw [Arena.attachPhi, Arena.block_modifyOp, Arena.block_modifyBlock_of_lt hblock, if_pos rfl]
          exact mem_addNew.2 (.inr rfl)
        · rw [(Refilled.attachPhi b₁.arena q.block q.phi).livePreds, hadds.livePreds]
          exact hfound hqname
      · exact .inl ⟨q, hq, hqname, rfl, rfl, hkind'⟩
    refine (ih hrest hdistinct h₃ fun q hq => ?_).mono fun _ b₂ h₄ => ⟨h₄.1, h₄.2.trans hreads⟩
    have hne : q.phi ≠ p.phi := fun heq => hother (List.mem_map.2 ⟨q, hq, heq⟩)
    have hltq := (hfit.inv.pending q (hrest q hq)).2.1
    dsimp only
    rw [kind_attachPhi, hadds.keeps q.phi (Nat.lt_of_lt_of_le hltq h.refilled.ops) hne]
    exact hkept q (List.mem_cons_of_mem _ hq)

end QueryTaint.Lower.Quest
