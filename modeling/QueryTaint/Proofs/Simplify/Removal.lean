import QueryTaint.Proofs.Arena.Edit
import QueryTaint.Proofs.Simplify.Ssa

/-!
# Removing trivial φ operations

A trivial φ operation merges one value besides its own result (`Merges`). Where the block of the
operation dominates, its result and its value agree (`Merges.env_eq`): the value is not written
again after the operation took it, since its definition would then be dominated by the block that
it has to come before. So what reads the result may read the value. One that merges nothing else is
never executed on an edge, and its result stays undefined.

`Arena.Without` says how an arena differs from another one in which a φ operation was removed and
its result replaced. Removing a trivial φ operation in favour of its value keeps single assignment
form (`Without.ssa`), and on every trail the same operations read the same values
(`Without.simulates`): the values of all operands but the result stay the same, and where the
result was read its value is the same too.
-/

namespace QueryTaint.Arena

/-! ## What a trivial φ operation merges -/

section Merging

/-- Every trail to a block visits another one. -/
def Dominates (a : Arena) (entry dominator block : BlockId) : Prop :=
  ∀ rest, a.Trail entry (block :: rest) → dominator ∈ block :: rest

variable {a : Arena} {entry : BlockId}

theorem Dominates.self (block : BlockId) : a.Dominates entry block block :=
  fun _ _ => List.mem_cons_self ..

/-- What dominates a block dominates the blocks that lead to it, the block itself apart. -/
theorem Dominates.source {dominator block source : BlockId} {rest : List BlockId}
    (h : a.Dominates entry dominator block) (ht : a.Trail entry (block :: source :: rest))
    (hne : block ≠ dominator) : a.Dominates entry dominator source := by
  intro rest' ht'
  have hm := h _ (.step ht' ht.edge (ht.live _ (List.mem_cons_self ..)))
  rcases List.mem_cons.1 hm with rfl | hm
  · exact absurd rfl hne
  · exact hm

/-- A φ operation of a block merges nothing but its result and at most one value. -/
structure Merges (a : Arena) (home : BlockId) (phi : OpId) (vars : List OperandId)
    (result : OperandId) (value : Option OperandId) : Prop where
  home : phi ∈ (a.block home).phis
  kind : (a.op phi).kind = .phi vars result
  value : ∀ id ∈ vars, id = result ∨ some id = value

namespace Merges

variable {home : BlockId} {phi : OpId} {vars : List OperandId} {result : OperandId}
  {value : Option OperandId}

theorem eq_home (hm : a.Merges home phi vars result value) (h : a.Ssa entry) {block : BlockId}
    (hb : phi ∈ a.members block) : block = home :=
  h.unique hb (List.mem_append_left _ hm.home)

theorem not_writes (hm : a.Merges home phi vars result value) (h : a.Ssa entry) {op : OpId}
    {block : BlockId} (hop : op ∈ a.members block) (hne : op ≠ phi) :
    result ∉ (a.op op).kind.mentioned true :=
  fun hw => hne (h.single ⟨h.isSome hop, hw⟩ (h.defines_of_mem hm.home hm.kind))

/-- On the first visit of its block by an edge, the operation takes its value. -/
theorem phiOperand?_first (hm : a.Merges home phi vars result value) (h : a.Ssa entry)
    {source : BlockId} {rest : List BlockId} (ht : a.Trail entry (home :: source :: rest))
    (hfirst : home ∉ source :: rest) :
    ∃ id, some id = value ∧ a.phiOperand? home source vars = some id := by
  obtain ⟨id, hid, htake⟩ := h.exists_phiOperand ht hm.home hm.kind
  refine ⟨id, (hm.value id hid).resolve_left ?_, htake⟩
  rintro rfl
  obtain ⟨b, hb, hmem⟩ :=
    h.dominates_edge ht hm.home hm.kind htake (h.defines_of_mem hm.home hm.kind)
  exact hfirst (hm.eq_home h hmem ▸ hb)

/-- An operation that reads the result is dominated by the block of the φ operation. -/
theorem dominates_of_reads (hm : a.Merges home phi vars result value) (h : a.Ssa entry)
    {block : BlockId} {op : OpId} (hop : op ∈ (a.block block).ops)
    (hread : result ∈ (a.op op).kind.reads) : a.Dominates entry home block := by
  intro rest ht
  obtain ⟨i, hi⟩ := List.mem_iff_getElem?.1 hop
  rcases h.dominates ht hi hread (h.defines_of_mem hm.home hm.kind) with hp | hp | ⟨b, hb, hp⟩
  · exact hm.eq_home h (List.mem_append_left _ hp) ▸ List.mem_cons_self ..
  · exact absurd (List.mem_of_mem_take hp) (h.not_mem_ops hm.home)
  · exact hm.eq_home h hp ▸ List.mem_cons_of_mem _ hb

/-- An edge on which the result is read comes from a block that the φ operation's dominates. -/
theorem dominates_of_edge (hm : a.Merges home phi vars result value) (h : a.Ssa entry)
    {block source : BlockId} {rest : List BlockId}
    (ht : a.Trail entry (block :: source :: rest)) {other : OpId} {vars' : List OperandId}
    {result' : OperandId} (ho : other ∈ (a.block block).phis)
    (hk : (a.op other).kind = .phi vars' result')
    (htake : a.phiOperand? block source vars' = some result) :
    a.Dominates entry home source := by
  intro rest' ht'
  obtain ⟨b, hb, hp⟩ := h.dominates_edge
    (.step ht' ht.edge (ht.live _ (List.mem_cons_self ..))) ho hk htake
    (h.defines_of_mem hm.home hm.kind)
  exact hm.eq_home h hp ▸ hb

section Value

variable {v : OperandId} (hm : a.Merges home phi vars result (some v)) (h : a.Ssa entry)
  (hentry : home ≠ entry)
include hm h hentry

/-- The definition of the value comes before the first visit of the φ operation's block. -/
theorem value_before {rest : List BlockId} (ht : a.Trail entry (home :: rest))
    (hfirst : home ∉ rest) {writer : OpId} (hw : a.Defines writer v) :
    ∃ b ∈ rest, writer ∈ a.members b := by
  cases rest with
  | nil => exact absurd ht.eq_entry hentry
  | cons source rest =>
    obtain ⟨id, hid, htake⟩ := hm.phiOperand?_first h ht hfirst
    obtain rfl := Option.some.inj hid
    exact h.dominates_edge ht hm.home hm.kind htake hw

theorem value_before_of_mem {trail : List BlockId} (ht : a.Trail entry trail)
    (hhome : home ∈ trail) {writer : OpId} (hw : a.Defines writer v) :
    ∃ rest, home :: rest <:+ trail ∧ home ∉ rest ∧ ∃ b ∈ rest, writer ∈ a.members b := by
  obtain ⟨rest, hs, hfirst⟩ := ht.first_visit hhome
  exact ⟨rest, hs, hfirst, hm.value_before h hentry (ht.of_suffix hs) hfirst hw⟩

/-- Where the block of the φ operation dominates, the value is not written. -/
theorem not_writes_value {block : BlockId} {rest : List BlockId}
    (ht : a.Trail entry (block :: rest)) (hdom : a.Dominates entry home block) {op : OpId}
    (hop : op ∈ a.members block) : v ∉ (a.op op).kind.mentioned true := by
  intro hw
  obtain ⟨before, hs, hfirst, b, hb, hmem⟩ :=
    hm.value_before_of_mem h hentry ht (hdom _ ht) ⟨h.isSome hop, hw⟩
  obtain rfl := h.unique hop hmem
  -- The trail came to the writer's block before it came to that of the φ operation.
  obtain ⟨l, r, hlr⟩ := List.append_of_mem hb
  have hsuffix : block :: r <:+ home :: before := ⟨home :: l, by simp [hlr]⟩
  have hvisit := hdom r ((ht.of_suffix hs).of_suffix hsuffix)
  exact hfirst (hlr ▸ List.mem_append_right _ hvisit)

variable {D : Type} (E : Effects D)

/-- What holds after entering a block holds throughout it. -/
theorem env_eq_of_enter {block : BlockId} {rest : List BlockId}
    (ht : a.Trail entry (block :: rest)) (hdom : a.Dominates entry home block)
    {m : Memory D} (henter : m.env result = m.env v) {ops : List OpId}
    (hops : ∀ op ∈ ops, op ∈ (a.block block).ops) :
    (ops.foldl (a.perform E) m).env result = (ops.foldl (a.perform E) m).env v := by
  rw [foldl_perform_env, foldl_perform_env]
  · exact henter
  · exact fun op hop =>
      hm.not_writes_value h hentry ht hdom (List.mem_append_right _ (hops op hop))
  · refine fun op hop => hm.not_writes h (List.mem_append_right _ (hops op hop)) ?_
    rintro rfl
    exact h.not_mem_ops hm.home (hops _ hop)

/-- Where the block of the φ operation dominates, the result and the value agree. -/
theorem env_eq {block : BlockId} {rest : List BlockId} (ht : a.Trail entry (block :: rest))
    (hdom : a.Dominates entry home block) :
    (a.enter block rest.head? (a.memory E rest)).env result =
      (a.enter block rest.head? (a.memory E rest)).env v := by
  have hvalue : a.incoming? block rest.head? v = none := incoming?_eq_none fun op hop =>
    hm.not_writes_value h hentry ht hdom (List.mem_append_left _ hop)
  induction rest generalizing block with
  | nil =>
    -- The entry block is dominated by itself only.
    have hhome := hdom [] ht
    rw [ht.eq_entry] at hhome
    exact absurd (List.mem_singleton.1 hhome) hentry
  | cons source rest ih =>
    have hsource : a.Dominates entry home source →
        (a.memory E (source :: rest)).env result = (a.memory E (source :: rest)).env v := by
      intro hd
      have hv : a.incoming? source rest.head? v = none := incoming?_eq_none fun op hop =>
        hm.not_writes_value h hentry ht.tail hd (List.mem_append_left _ hop)
      exact hm.env_eq_of_enter h hentry E ht.tail hd (ih ht.tail hd hv) fun _ => id
    simp only [enter, hvalue, Option.getD_none]
    by_cases hb : block = home
    · subst hb
      obtain ⟨id, hid, htake⟩ := h.exists_phiOperand ht hm.home hm.kind
      rw [List.head?_cons, h.incoming?_of_phi hm.home hm.kind htake, Option.getD_some]
      rcases hm.value id hid with rfl | hv
      · exact hsource (hm.dominates_of_edge h ht hm.home hm.kind htake)
      · rw [Option.some.inj hv]
    · rw [incoming?_eq_none, Option.getD_none]
      · exact hsource (hdom.source ht hb)
      · refine fun op hop => hm.not_writes h (List.mem_append_left _ hop) ?_
        rintro rfl
        exact hb (hm.eq_home h (List.mem_append_left _ hop))

end Value

/-- A φ operation that merges nothing but its result is never executed on an edge. -/
theorem not_entered (hm : a.Merges home phi vars result none) (h : a.Ssa entry)
    (hentry : home = entry → vars = []) {source : BlockId} {rest : List BlockId} :
    ¬ a.Trail entry (home :: source :: rest) := by
  intro ht
  obtain ⟨before, hs, hfirst⟩ := ht.first_visit (List.mem_cons_self ..)
  cases before with
  | nil =>
    obtain ⟨id, hid, -⟩ := h.exists_phiOperand ht hm.home hm.kind
    rw [hentry (ht.of_suffix hs).eq_entry] at hid
    cases hid
  | cons source' before =>
    obtain ⟨id, hid, -⟩ := hm.phiOperand?_first h (ht.of_suffix hs) hfirst
    cases hid

end Merges

end Merging

/-! ## An arena without a φ operation -/

/-- `a'` is `a` without a φ operation, and with other operands in place of some. -/
structure Without (a a' : Arena) (phi : OpId) (σ : OperandId → OperandId) : Prop where
  dead (block : BlockId) : (a'.block block).dead = (a.block block).dead
  preds (block : BlockId) : (a'.block block).preds = (a.block block).preds
  ops (block : BlockId) : (a'.block block).ops = (a.block block).ops
  phis (block : BlockId) : (a'.block block).phis = (a.block block).phis.filter (· ≠ phi)
  place (op : OpId) : (a'.op op).block = if op = phi then none else (a.op op).block
  kind {op : OpId} : op ≠ phi → (a.op op).block.isSome →
    (a'.op op).kind = (a.op op).kind.mapOperands σ
  lists : ∃ removed, a'.DefUse removed ∧ ∀ op, (a'.op op).block.isSome → a'.Kept removed op
  funcs : a'.funcs = a.funcs

theorem findSome?_filter_ne {α β : Type} [DecidableEq α] {l : List α} {x : α} {f g : α → Option β}
    {σ : β → β} (hx : x ∈ l → f x = none)
    (h : ∀ y ∈ l, y ≠ x → g y = (f y).map σ) :
    (l.filter (· ≠ x)).findSome? g = (l.findSome? f).map σ := by
  induction l with
  | nil => rfl
  | cons y l ih =>
    have ih := ih (fun hm => hx (List.mem_cons_of_mem _ hm)) fun z hz =>
      h z (List.mem_cons_of_mem _ hz)
    by_cases hy : y = x
    · subst hy
      simpa [hx (List.mem_cons_self ..)] using ih
    · rw [List.filter_cons_of_pos (by simpa using hy), List.findSome?_cons, List.findSome?_cons,
        h y (List.mem_cons_self ..) hy, ih]
      cases f y <;> rfl

namespace Without

variable {a a' : Arena} {entry home : BlockId} {phi : OpId} {σ : OperandId → OperandId}
  {vars : List OperandId} {result : OperandId} {value : Option OperandId}

theorem livePreds (w : a.Without a' phi σ) (block : BlockId) :
    a'.livePreds block = a.livePreds block := by
  simp only [Arena.livePreds, w.preds, w.dead]

theorem phiOperand? (w : a.Without a' phi σ) (block source : BlockId) (vs : List OperandId) :
    a'.phiOperand? block source vs = a.phiOperand? block source vs := by
  simp only [Arena.phiOperand?, w.livePreds]

theorem mem_phis (w : a.Without a' phi σ) {op : OpId} {block : BlockId} :
    op ∈ (a'.block block).phis ↔ op ∈ (a.block block).phis ∧ op ≠ phi := by
  simp [w.phis]

theorem kind_phi (w : a.Without a' phi σ) (h : a.Ssa entry) {op : OpId} {block : BlockId}
    (hop : op ∈ (a'.block block).phis) : (a'.op op).kind = (a.op op).kind.mapOperands σ := by
  obtain ⟨hop, hne⟩ := w.mem_phis.1 hop
  exact w.kind hne (h.isSome (List.mem_append_left _ hop))

section

variable (w : a.Without a' phi σ) (hm : a.Merges home phi vars result value) (h : a.Ssa entry)
include w hm h

theorem kind_op {op : OpId} {block : BlockId} (hop : op ∈ (a.block block).ops) :
    (a'.op op).kind = (a.op op).kind.mapOperands σ := by
  refine w.kind ?_ (h.isSome (List.mem_append_right _ hop))
  rintro rfl
  exact h.not_mem_ops hm.home hop

theorem successors (block : BlockId) : a'.successors block = a.successors block :=
  successors_congr (w.ops block) fun op hop => by
    rw [w.kind_op hm h hop, OpKind.successors_mapOperands]

theorem trail_iff {trail : List BlockId} : a'.Trail entry trail ↔ a.Trail entry trail :=
  ⟨Trail.congr (fun b => (w.dead b).symm) fun b => (w.successors hm h b).symm,
    Trail.congr w.dead (w.successors hm h)⟩

theorem mem_members {op : OpId} {block : BlockId} :
    op ∈ a'.members block ↔ op ∈ a.members block ∧ op ≠ phi := by
  simp only [members, List.mem_append, w.mem_phis, w.ops]
  constructor
  · rintro (⟨ho, hne⟩ | ho)
    · exact ⟨.inl ho, hne⟩
    · refine ⟨.inr ho, ?_⟩
      rintro rfl
      exact h.not_mem_ops hm.home ho
  · rintro ⟨ho | ho, hne⟩
    · exact .inl ⟨ho, hne⟩
    · exact .inr ho

end

/-- The result is written by no other operation, so what is written is not replaced. -/
theorem fixes_written (hm : a.Merges home phi vars result value) (h : a.Ssa entry)
    (hσ : ∀ id, id ≠ result → σ id = id) {op : OpId} {block : BlockId}
    (hop : op ∈ a.members block) (hne : op ≠ phi) :
    ∀ id ∈ (a.op op).kind.mentioned true, σ id = id := by
  intro id hid
  apply hσ
  rintro rfl
  exact hm.not_writes h hop hne hid

section Replacing

variable (w : a.Without a' phi σ) (hm : a.Merges home phi vars result value) (h : a.Ssa entry)
  (hσ : ∀ id, id ≠ result → σ id = id)
include w hm h hσ

theorem defines {op : OpId} {id : OperandId} (hd : a'.Defines op id) :
    op ≠ phi ∧ a.Defines op id := by
  obtain ⟨hs, hid⟩ := hd
  rw [w.place] at hs
  have hne : op ≠ phi := by
    rintro rfl
    simp at hs
  rw [if_neg hne] at hs
  obtain ⟨block, hb⟩ := Option.isSome_iff_exists.1 hs
  have hop := (h.placed op block).2 hb
  rw [w.kind hne hs, OpKind.mem_mentioned_mapOperands] at hid
  obtain ⟨u, hu, rfl⟩ := hid
  rw [fixes_written hm h hσ hop hne u hu]
  exact ⟨hne, hs, hu⟩

/-- Without the φ operation the function is still in single assignment form, if the operand that
replaces its result is defined before the φ operation is executed. -/
theorem ssa (hvalue : ∀ {rest : List BlockId} {writer : OpId}, writer ≠ phi →
      a.Defines writer (σ result) → a.Trail entry (home :: rest) → home ∉ rest →
      ∃ b ∈ rest, writer ∈ a.members b) : a'.Ssa entry where
  placed op block := by
    rw [w.mem_members hm h, w.place, h.placed]
    split
    · rename_i ho
      simp [ho]
    · rename_i ho
      simp [ho]
  covers ht hs := by
    rw [w.preds]
    exact h.covers ((w.trail_iff hm h).1 ht) (w.successors hm h _ ▸ hs)
  lists := w.lists
  isPhi_phis op hop := by
    obtain ⟨vs, r, hk⟩ := h.kind_of_mem (w.mem_phis.1 hop).1
    simp [isPhi, w.kind_phi h hop, hk, OpKind.mapOperands]
  isPhi_ops op hop := by
    rw [w.ops] at hop
    have hnot := h.isPhi_ops op hop
    unfold isPhi at hnot ⊢
    rw [w.kind_op hm h hop]
    split
    · rename_i hk
      obtain ⟨vs, r, hk, -⟩ := OpKind.mapOperands_eq_phi.1 hk
      simp [hk] at hnot
    · rfl
  single hd he := h.single (w.defines hm h hσ hd).2 (w.defines hm h hσ he).2
  arity ht hp hk := by
    rw [w.kind_phi h hp] at hk
    obtain ⟨vs, r, hvs, rfl, -⟩ := OpKind.mapOperands_eq_phi.1 hk
    rw [List.length_map, w.livePreds]
    exact h.arity ((w.trail_iff hm h).1 ht) (w.mem_phis.1 hp).1 hvs
  dominates {block rest i op writer id} ht hop hread hd := by
    rw [w.trail_iff hm h] at ht
    rw [w.ops] at hop ⊢
    obtain ⟨hne, hd⟩ := w.defines hm h hσ hd
    have hmem : op ∈ (a.block block).ops := List.mem_of_getElem? hop
    rw [w.kind_op hm h hmem, OpKind.reads_mapOperands] at hread
    obtain ⟨u, hu, rfl⟩ := List.mem_map.1 hread
    simp only [w.mem_phis, w.mem_members hm h]
    by_cases hur : u = result
    · -- The result was read here, so its definition was executed, and the value's before it.
      subst hur
      obtain ⟨before, hs, hfirst⟩ := ht.first_visit (hm.dominates_of_reads h hmem hu _ ht)
      obtain ⟨b, hb, hw⟩ := hvalue hne hd (ht.of_suffix hs) hfirst
      have hrest : before <:+ rest := by
        rcases List.suffix_cons_iff.1 hs with heq | hs
        · exact (List.cons.inj heq).2 ▸ List.suffix_rfl
        · exact (List.suffix_cons ..).trans hs
      exact .inr (.inr ⟨b, hrest.subset hb, hw, hne⟩)
    · rw [hσ u hur] at hd
      rcases h.dominates ht hop hu hd with hp | hp | ⟨b, hb, hw⟩
      · exact .inl ⟨hp, hne⟩
      · exact .inr (.inl hp)
      · exact .inr (.inr ⟨b, hb, hw, hne⟩)
  dominates_edge {block source rest other writer vars' result' id} ht ho hk htake hd := by
    rw [w.trail_iff hm h] at ht
    obtain ⟨hne, hd⟩ := w.defines hm h hσ hd
    rw [w.kind_phi h ho] at hk
    obtain ⟨vs, r, hvs, rfl, -⟩ := OpKind.mapOperands_eq_phi.1 hk
    rw [w.mem_phis] at ho
    rw [w.phiOperand?, phiOperand?_map] at htake
    obtain ⟨u, hu, rfl⟩ := Option.map_eq_some_iff.1 htake
    simp only [w.mem_members hm h]
    by_cases hur : u = result
    · subst hur
      obtain ⟨before, hs, hfirst⟩ :=
        ht.tail.first_visit (hm.dominates_of_edge h ht ho.1 hvs hu _ ht.tail)
      obtain ⟨b, hb, hw⟩ := hvalue hne hd (ht.tail.of_suffix hs) hfirst
      exact ⟨b, hs.subset (List.mem_cons_of_mem _ hb), hw, hne⟩
    · rw [hσ u hur] at hd
      obtain ⟨b, hb, hw⟩ := h.dominates_edge ht ho.1 hvs hu hd
      exact ⟨b, hb, hw, hne⟩

theorem takes?_eq {block : BlockId} {op : OpId} (hop : op ∈ (a'.block block).phis)
    (source : Option BlockId) (id : OperandId) :
    a'.takes? block source id op = (a.takes? block source id op).map σ := by
  obtain ⟨ho, hne⟩ := w.mem_phis.1 hop
  obtain ⟨vs, r, hk⟩ := h.kind_of_mem ho
  have hr : σ r = r := fixes_written hm h hσ (List.mem_append_left _ ho) hne r
    (by simp [hk, OpKind.mentioned_phi_true])
  have hk' : (a'.op op).kind = .phi (vs.map σ) r := by
    rw [w.kind_phi h hop, hk, OpKind.mapOperands, hr]
  unfold takes?
  simp only [hk, hk']
  split
  · cases source with
    | none => rfl
    | some b => simp [w.phiOperand?, phiOperand?_map]
  · rfl

/-- The other φ operations of a block that is entered take the operands that replace theirs. -/
theorem incoming?_eq {block : BlockId} {source : Option BlockId} {id : OperandId}
    (hid : id = result → a.incoming? block source result = none) :
    a'.incoming? block source id = (a.incoming? block source id).map σ := by
  have hphi : phi ∈ (a.block block).phis → a.takes? block source id phi = none := by
    intro hp
    by_cases hne : id = result
    · subst hne
      exact List.findSome?_eq_none_iff.1 (hid rfl) phi hp
    · exact takes?_eq_none (by simp [hm.kind, OpKind.mentioned_phi_true, hne])
  unfold incoming?
  rw [w.phis]
  exact findSome?_filter_ne hphi fun op hop hne => w.takes?_eq hm h hσ (w.mem_phis.2 ⟨hop, hne⟩) _ _

end Replacing

theorem regular (w : a.Without a' phi σ) (hm : a.Merges home phi vars result value)
    (h : a.Ssa entry) (hr : a.Regular entry) : a'.Regular entry where
  sole := by
    intro source block target jump hlive hops hk hlive' hmem
    rw [w.dead] at hlive hlive'
    rw [w.ops] at hops
    rw [w.preds] at hmem
    rw [w.kind_op hm h (by rw [hops]; exact List.mem_singleton.2 rfl),
      OpKind.mapOperands_eq_jump] at hk
    exact hr.sole hlive hops hk hlive' hmem
  entry_phis := by
    intro op vs r hop hk
    rw [w.kind_phi h hop] at hk
    obtain ⟨vs', r', hk', rfl, -⟩ := OpKind.mapOperands_eq_phi.1 hk
    rw [hr.entry_phis (w.mem_phis.1 hop).1 hk']
    rfl

/-! ## The same values -/

/-- Two memories agree on what is left after replacing operands, and on what was executed. -/
def Follows {D : Type} (σ : OperandId → OperandId) (m m' : Memory D) : Prop :=
  (∀ id, m'.env (σ id) = m.env (σ id)) ∧ m'.log = m.log

section Simulation

variable {D : Type} {E : Effects D} (w : a.Without a' phi σ)
  (hm : a.Merges home phi vars result value) (h : a.Ssa entry)
  (hσ : ∀ id, id ≠ result → σ id = id)
include w hm h hσ

theorem perform_follows {op : OpId} {block : BlockId} (hop : op ∈ (a.block block).ops)
    {m m' : Memory D} (hf : Follows σ m m')
    (hread : result ∈ (a.op op).kind.reads → m.env result = m.env (σ result)) :
    Follows σ (a.perform E m op) (a'.perform E m' op) := by
  have hk := w.kind_op hm h hop
  by_cases hjump : ∃ target, (a.op op).kind = .jump target
  · obtain ⟨target, hjump⟩ := hjump
    rw [perform_jump hjump, perform_jump (hk.trans (OpKind.mapOperands_eq_jump.2 hjump))]
    exact hf
  have hjump' : ∀ target, (a'.op op).kind ≠ .jump target := fun target ht =>
    hjump ⟨target, OpKind.mapOperands_eq_jump.1 (hk.symm.trans ht)⟩
  have hne : op ≠ phi := by
    rintro rfl
    exact h.not_mem_ops hm.home hop
  have hwritten := OpKind.written?_mapOperands
    (fixes_written hm h hσ (List.mem_append_right _ hop) hne)
  have hvalues : (a'.op op).kind.reads.map m'.env = (a.op op).kind.reads.map m.env := by
    rw [hk, OpKind.reads_mapOperands, List.map_map]
    refine List.map_congr_left fun id hid => (hf.1 id).trans ?_
    by_cases hid' : id = result
    · subst hid'
      exact (hread hid).symm
    · rw [hσ id hid']
  rw [perform_eq (fun target ht => hjump ⟨target, ht⟩), perform_eq hjump', hvalues, hf.2]
  refine ⟨fun id => ?_, rfl⟩
  simp only [hk, hwritten]
  split
  · rfl
  · exact hf.1 id

theorem ops_follow {block : BlockId} {m m' : Memory D} (hf : Follows σ m m')
    (hagree : a.Dominates entry home block → ∀ i,
      (((a.block block).ops.take i).foldl (a.perform E) m).env result =
        (((a.block block).ops.take i).foldl (a.perform E) m).env (σ result)) (i : Nat) :
    Follows σ (((a.block block).ops.take i).foldl (a.perform E) m)
      (((a.block block).ops.take i).foldl (a'.perform E) m') := by
  induction i with
  | zero => exact hf
  | succ i ih =>
    rw [List.take_add_one, List.foldl_append, List.foldl_append]
    cases hop : (a.block block).ops[i]? with
    | none => exact ih
    | some op =>
      have hmem := List.mem_of_getElem? hop
      exact w.perform_follows hm h hσ hmem ih fun hread =>
        hagree (hm.dominates_of_reads h hmem hread) i

theorem enter_follows {block : BlockId} {rest : List BlockId}
    (ht : a.Trail entry (block :: rest)) {m m' : Memory D} (hf : Follows σ m m')
    (hsilent : σ result = result → a.incoming? block rest.head? result = none)
    (hagree : ∀ source ∈ rest.head?, a.Dominates entry home source →
      m.env result = m.env (σ result)) :
    Follows σ (a.enter block rest.head? m) (a'.enter block rest.head? m') := by
  refine ⟨fun id => ?_, hf.2⟩
  have hid : σ id = result → σ result = result := by
    intro he
    by_cases hid : id = result
    · rwa [hid] at he
    · exact absurd (hσ id hid ▸ he) hid
  simp only [enter]
  rw [w.incoming?_eq hm h hσ fun he => hsilent (hid he)]
  cases hin : a.incoming? block rest.head? (σ id) with
  | none => exact hf.1 id
  | some u =>
    refine (hf.1 u).trans ?_
    by_cases hu : u = result
    · subst hu
      obtain ⟨other, ho, vs, source, hk, hsource, htake⟩ := exists_of_incoming? hin
      cases rest with
      | nil => cases hsource
      | cons b rest =>
        obtain rfl := Option.some.inj hsource
        exact (hagree b rfl (hm.dominates_of_edge h ht ho hk htake)).symm
    · rw [hσ u hu]
      rfl

/-- On every trail the memories without the φ operation and with it follow each other, if the result
and what replaces it agree where the block of the φ operation dominates. -/
theorem memory_follows
    (hsilent : ∀ {block rest}, a.Trail entry (block :: rest) → σ result = result →
      a.incoming? block rest.head? result = none)
    (hagree : ∀ {block rest}, a.Trail entry (block :: rest) → a.Dominates entry home block → ∀ i,
      let m := ((a.block block).ops.take i).foldl (a.perform E)
        (a.enter block rest.head? (a.memory E rest))
      m.env result = m.env (σ result))
    {trail : List BlockId} (ht : a.Trail entry trail) :
    Follows σ (a.memory E trail) (a'.memory E trail) := by
  induction trail with
  | nil => exact absurd rfl ht.ne_nil
  | cons block rest ih =>
    have hrest : Follows σ (a.memory E rest) (a'.memory E rest) := by
      cases rest with
      | nil => exact ⟨fun _ => rfl, rfl⟩
      | cons source rest => exact ih ht.tail
    have henter := w.enter_follows hm h hσ ht hrest (hsilent ht) fun source hs hdom => by
      cases rest with
      | nil => cases hs
      | cons b rest =>
        obtain rfl := Option.some.inj hs
        simpa [memory, List.take_length] using hagree ht.tail hdom (a.block b).ops.length
    have hops := w.ops_follow hm h hσ henter (hagree ht) (a.block block).ops.length
    rw [List.take_length] at hops
    rw [memory, memory, w.ops]
    exact hops

omit hσ in
theorem simulates (hf : ∀ {D : Type} (E : Effects D) {trail : List BlockId},
      a.Trail entry trail → Follows σ (a.memory E trail) (a'.memory E trail)) :
    a.Simulates a' entry := by
  have hsurv : ∀ {trail}, a.Trail entry trail → a'.survivors trail = trail := fun ht =>
    Simulates.survivors_of_live fun b hb => (w.dead b).trans (ht.live b hb)
  refine ⟨fun hd => (w.dead _).trans hd, fun ht => ?_, fun ht => ?_, fun E ht => ?_⟩
  · rw [hsurv ht]
    exact (w.trail_iff hm h).2 ht
  · have ht := (w.trail_iff hm h).1 ht
    exact ⟨_, ht, hsurv ht⟩
  · rw [hsurv ht]
    exact (hf E ht).2

end Simulation

/-- Removing a φ operation in favour of the one value that it merges keeps the meaning of a
function. -/
theorem simulates_value {v : OperandId}
    (w : a.Without a' phi fun id => if id = result then v else id)
    (hm : a.Merges home phi vars result (some v)) (h : a.Ssa entry) (hentry : home ≠ entry)
    (hv : v ≠ result) : a'.Ssa entry ∧ a.Simulates a' entry := by
  have hσ : ∀ id, id ≠ result → (if id = result then v else id) = id :=
    fun _ hne => if_neg hne
  constructor
  · refine w.ssa hm h hσ fun _ hd ht hfirst => ?_
    rw [if_pos rfl] at hd
    exact hm.value_before h hentry ht hfirst hd
  · refine w.simulates hm h fun E => w.memory_follows hm h hσ (fun _ he => ?_) fun ht hdom i => ?_
    · rw [if_pos rfl] at he
      exact absurd he hv
    · rw [if_pos rfl]
      exact hm.env_eq_of_enter h hentry E ht hdom (hm.env_eq h hentry E ht hdom)
        fun _ => List.mem_of_mem_take

/-- Removing a φ operation that merges nothing keeps the meaning of a function. -/
theorem simulates_none (w : a.Without a' phi id) (hm : a.Merges home phi vars result none)
    (h : a.Ssa entry) (hentry : home = entry → vars = []) :
    a'.Ssa entry ∧ a.Simulates a' entry := by
  have hσ : ∀ id', id' ≠ result → id id' = id' := fun _ _ => rfl
  constructor
  · refine w.ssa hm h hσ fun hne hd _ _ => ?_
    exact absurd (h.single hd (h.defines_of_mem hm.home hm.kind)) hne
  · refine w.simulates hm h fun E => w.memory_follows hm h hσ (fun {block rest} ht _ => ?_)
      fun _ _ _ => rfl
    rw [Option.eq_none_iff_forall_ne_some]
    intro u hu
    obtain ⟨other, ho, vs, source, hk, hsource, -⟩ := exists_of_incoming? hu
    obtain rfl := h.single (h.defines_of_mem ho hk) (h.defines_of_mem hm.home hm.kind)
    obtain rfl := hm.eq_home h (List.mem_append_left _ ho)
    cases rest with
    | nil => cases hsource
    | cons b rest => exact hm.not_entered h hentry ht

end Without

/-!
## Eliminating trivial φ operations

`removePhi` leaves the arena without the φ operation (`removePhi_without`), so each step of the
worklist keeps the meaning of the function, and so does the whole elimination
(`eliminatePhis_simulates`), in whatever order the worklist meets the operations.
-/

variable {a : Arena} {entry : BlockId}

/-- A function that can be simplified: it is in single assignment form, and regular. -/
structure Simplifiable (a : Arena) (entry : BlockId) : Prop extends Ssa a entry, Regular a entry

/-- The value of a trivial φ operation is one of its operands. -/
theorem vars_of_trivialPhi? {phi : OpId} {value result : OperandId}
    (h : a.trivialPhi? phi = some (some value, result)) :
    ∃ vars, (a.op phi).kind = .phi vars result ∧ value ∈ vars := by
  unfold trivialPhi? at h
  split at h
  · rename_i vars r hkind
    split at h
    · cases h
    · rename_i v hmerged
      cases h
      have hmem : value ∈ merged vars result := hmerged ▸ List.mem_cons_self
      exact ⟨vars, hkind, (List.mem_filter.1 (List.mem_eraseDups.1 hmem)).1⟩
    · cases h
  · cases h

/-- A trivial φ operation merges nothing but its result and at most one value. -/
theorem merges_of_trivialPhi? (h : a.Ssa entry) {phi : OpId} {home : BlockId}
    {value : Option OperandId} {result : OperandId} (hhome : (a.op phi).block = some home)
    (ht : a.trivialPhi? phi = some (value, result)) :
    ∃ vars, a.Merges home phi vars result value ∧ ∀ v ∈ value, v ∈ vars ∧ v ≠ result := by
  unfold trivialPhi? at ht
  split at ht
  · rename_i vars r hk
    have hin : phi ∈ (a.block home).phis :=
      h.mem_phis ((h.placed phi home).2 hhome) (by simp [isPhi, hk])
    have hmem : ∀ id, id ∈ merged vars r ↔ id ∈ vars ∧ id ≠ r := by simp [merged]
    split at ht
    · rename_i hmerged
      obtain ⟨rfl, rfl⟩ := Prod.mk.inj (Option.some.inj ht)
      refine ⟨vars, ⟨hin, hk, fun id hid => .inl ?_⟩,
        fun v hv => absurd hv (Option.not_mem_none v)⟩
      rcases Decidable.em (id = r) with he | hne
      · exact he
      · have := (hmem id).2 ⟨hid, hne⟩
        rw [hmerged] at this
        cases this
    · rename_i v hmerged
      obtain ⟨rfl, rfl⟩ := Prod.mk.inj (Option.some.inj ht)
      refine ⟨vars, ⟨hin, hk, fun id hid => ?_⟩, ?_⟩
      · rcases Decidable.em (id = r) with he | hne
        · exact .inl he
        · have := (hmem id).2 ⟨hid, hne⟩
          rw [hmerged, List.mem_singleton] at this
          exact .inr (this ▸ rfl)
      · intro v' hv'
        obtain rfl := Option.mem_some.1 hv'
        exact (hmem v).1 (hmerged ▸ List.mem_singleton.2 rfl)
    · cases ht
  · cases ht

/-- Removing an operation that is in the φ list of its block. -/
theorem removeOp_without (h : a.Ssa entry) {phi : OpId} {home : BlockId}
    (hp : phi ∈ (a.block home).phis) : a.Without (a.removeOp phi) phi id := by
  have hhome : (a.op phi).block = some home := (h.placed phi home).1 (List.mem_append_left _ hp)
  obtain ⟨removed, hdef, hkept⟩ := h.lists
  have hlt : phi.index < a.ops.size := (hkept phi (h.isSome (List.mem_append_left _ hp))).1
  obtain ⟨⟨hsize, -, -, hfuncs⟩, hop, hblock⟩ := removeOp_effect hlt hhome
  have hlists := lists_removeOp hlt hhome fun b hb => h.unique hb (List.mem_append_left _ hp)
  have hops : ∀ b, (a.block b).ops.filter (· ≠ phi) = (a.block b).ops := by
    intro b
    rw [List.filter_eq_self]
    intro op hmem
    rw [decide_eq_true_eq]
    rintro rfl
    exact h.not_mem_ops hp hmem
  refine ⟨fun b => ?_, fun b => ?_, fun b => (hlists b).1.trans (hops b), fun b => (hlists b).2,
    fun o => (hop o).2, fun _ _ => ?_, ⟨_, removeOp_defUse hdef hlt, fun op hs => ?_⟩, hfuncs⟩
  · rw [hblock]
    split <;> rfl
  · rw [hblock]
    split <;> rfl
  · rw [(hop _).1, OpKind.mapOperands_of_fixed fun _ _ => rfl]
  · rw [(hop op).2] at hs
    split at hs
    · cases hs
    · rename_i hne
      obtain ⟨hlt', hnot⟩ := hkept op hs
      exact ⟨hsize ▸ hlt', by simp [hne, hnot]⟩

/-- Removing a φ operation in favour of a value. -/
theorem removePhi_without (h : a.Ssa entry) {phi : OpId} {home : BlockId} {vars : List OperandId}
    {result v : OperandId} (hm : a.Merges home phi vars result (some v)) (hv : v ∈ vars)
    (hne : v ≠ result) :
    a.Without (a.removePhi phi (some v) result) phi fun id => if id = result then v else id := by
  have w := removeOp_without h hm.home
  have hsome := h.isSome (List.mem_append_left _ hm.home)
  have hhome := (h.placed phi home).1 (List.mem_append_left _ hm.home)
  obtain ⟨removed, hdef, hkept⟩ := h.lists
  obtain ⟨⟨-, hsize, -⟩, hop, -⟩ := removeOp_effect (hkept phi hsome).1 hhome
  have hwrites : result ∈ (a.op phi).kind.mentioned true := by
    simp [hm.kind, OpKind.mentioned_phi_true]
  have hreads : v ∈ (a.op phi).kind.mentioned false := by
    simp [hm.kind, OpKind.mentioned_phi_false, hv]
  have hresult : result.index < (a.removeOp phi).operands.size :=
    hsize ▸ hdef.operand_lt (hkept phi hsome) hwrites
  have hvalue : v.index < (a.removeOp phi).operands.size :=
    hsize ▸ hdef.operand_lt (hkept phi hsome) hreads
  obtain ⟨removed', hdef', hkept'⟩ := w.lists
  obtain ⟨⟨hsize', hfuncs'⟩, hop', hblock'⟩ := replaceUses_effect hdef' (Ne.symm hne)
  have hplace : ∀ o, ((a.removePhi phi (some v) result).op o).block =
      if o = phi then none else (a.op o).block := fun o => (hop' o).1.trans (hop o).2
  refine ⟨fun b => (hblock' Block.dead (fun _ _ => rfl) b).trans (w.dead b),
    fun b => (hblock' Block.preds (fun _ _ => rfl) b).trans (w.preds b),
    fun b => (hblock' Block.ops (fun _ _ => rfl) b).trans (w.ops b),
    fun b => (hblock' Block.phis (fun _ _ => rfl) b).trans (w.phis b), hplace,
    fun {op} hop₁ hs => ?_, ⟨removed', replaceUses_defUse hdef' hresult hvalue, fun op hs => ?_⟩,
    hfuncs'.trans w.funcs⟩
  · obtain ⟨block, hb⟩ := Option.isSome_iff_exists.1 hs
    have hmem := (h.placed op block).2 hb
    have hplaced : ((a.removeOp phi).op op).block.isSome := by
      rw [w.place, if_neg hop₁]
      exact hs
    have hkind := (hop op).1
    refine (kind_replaceUses hdef' (Ne.symm hne) (hkept' op hplaced) ?_).trans (by rw [hkind])
    rw [hkind]
    exact hm.not_writes h hmem hop₁
  · rw [hplace, ← w.place] at hs
    obtain ⟨hlt, hnot⟩ := hkept' op hs
    exact ⟨hsize' ▸ hlt, hnot⟩

/-- Each step of the elimination keeps the meaning of the function. -/
theorem removePhi_simulates (h : a.Simplifiable entry) {phi : OpId} {home : BlockId}
    {value : Option OperandId} {result : OperandId} (hhome : (a.op phi).block = some home)
    (ht : a.trivialPhi? phi = some (value, result)) :
    (a.removePhi phi value result).Simplifiable entry ∧
      a.Simulates (a.removePhi phi value result) entry ∧
      (a.removePhi phi value result).funcs = a.funcs := by
  obtain ⟨vars, hm, hv⟩ := merges_of_trivialPhi? h.toSsa hhome ht
  cases value with
  | none =>
    have w := removeOp_without h.toSsa hm.home
    obtain ⟨hssa, hsim⟩ := w.simulates_none hm h.toSsa fun he =>
      h.entry_phis (he ▸ hm.home) hm.kind
    exact ⟨⟨hssa, w.regular hm h.toSsa h.toRegular⟩, hsim, w.funcs⟩
  | some v =>
    obtain ⟨hmem, hne⟩ := hv v rfl
    have w := removePhi_without h.toSsa hm hmem hne
    have hentry : home ≠ entry := by
      rintro rfl
      rw [h.entry_phis hm.home hm.kind] at hmem
      cases hmem
    obtain ⟨hssa, hsim⟩ := w.simulates_value hm h.toSsa hentry hne
    exact ⟨⟨hssa, w.regular hm h.toSsa h.toRegular⟩, hsim, w.funcs⟩

/-- The elimination keeps the meaning of the function, whatever the worklist. -/
theorem removePhis_simulates (h : a.Simplifiable entry) (count : Nat) (worklist : List OpId) :
    (a.removePhis count worklist).2.Simplifiable entry ∧
      a.Simulates (a.removePhis count worklist).2 entry ∧
      (a.removePhis count worklist).2.funcs = a.funcs := by
  fun_induction removePhis a count worklist with
  | case1 a count => exact ⟨h, .refl a entry, rfl⟩
  | case2 a count phi rest home value result ht hhome users next waiting hlt ih =>
    obtain ⟨hs, hsim, hfuncs⟩ := removePhi_simulates h hhome ht
    obtain ⟨hs', hsim', hfuncs'⟩ := ih hs
    exact ⟨hs', hsim.trans hsim', hfuncs'.trans hfuncs⟩
  | case3 a count phi rest home value result ht hhome users next =>
    exact removePhi_simulates h hhome ht
  | case4 a count phi rest _ ih => exact ih h

theorem eliminatePhis_simulates (h : a.Simplifiable entry) (func : FuncId) :
    (a.eliminatePhis func).2.Simplifiable entry ∧ a.Simulates (a.eliminatePhis func).2 entry ∧
      (a.eliminatePhis func).2.funcs = a.funcs :=
  removePhis_simulates h 0 (a.phisOf func)

end QueryTaint.Arena
