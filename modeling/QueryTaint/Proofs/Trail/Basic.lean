import QueryTaint.Proofs.Arena.Access

/-!
# Trails

A trail is a walk from the entry block of a function along terminator edges (`Arena.Trail`). What is
executed on it gives every operand a value: the φ operations of a block take, all at once, the
operands of the edge by which the block was entered (`Arena.enter`), and then the operations of the
block are performed in order (`Arena.perform`). What an operation makes of the values it reads is
left open (`Effects`), and may depend on everything that was executed before. `Memory.log` is what
can be seen of a trail: the operations other than jumps and φ operations, with the values they read.
-/

namespace QueryTaint

/-- What operations make of the values that they read: the value in each slot that an operation
writes, given what was executed before it. -/
structure Effects (D : Type) where
  start : OperandId → D
  value : List (OpId × List D) → OpId → List D → Slot → D

/-- The values of the operands, and the operations executed so far with the values that they read,
the latest one first. -/
structure Memory (D : Type) where
  env : OperandId → D
  log : List (OpId × List D)

namespace OpKind

theorem successors_eq_nil {kind : OpKind} (h : kind.isTerminator = false) :
    kind.successors = [] := by
  cases kind <;> first | rfl | cases h

/-- The slot where the operation writes an operand. -/
def written? (kind : OpKind) (id : OperandId) : Option Slot :=
  (kind.slots.find? fun e => kind.writes e.1 && e.2 = id).map (·.1)

theorem written?_eq_none {kind : OpKind} {id : OperandId} :
    kind.written? id = none ↔ id ∉ kind.mentioned true := by
  simp only [written?, Option.map_eq_none_iff, List.find?_eq_none, mem_mentioned]
  constructor
  · rintro h ⟨slot, hm, hw⟩
    simpa [hw] using h _ hm
  · rintro h ⟨slot, u⟩ hm hc
    simp only [Bool.and_eq_true, decide_eq_true_eq] at hc
    exact h ⟨slot, hc.2 ▸ hm, hc.1⟩

theorem find?_congr {α : Type} {p q : α → Bool} {l : List α} (h : ∀ e ∈ l, p e = q e) :
    l.find? p = l.find? q := by
  induction l with
  | nil => rfl
  | cons e l ih =>
    rw [List.find?_cons, List.find?_cons, h e (List.mem_cons_self ..),
      ih fun e he => h e (List.mem_cons_of_mem _ he)]

theorem written?_mapOperands {f : OperandId → OperandId} {kind : OpKind}
    (h : ∀ id ∈ kind.mentioned true, f id = id) (id : OperandId) :
    (kind.mapOperands f).written? id = kind.written? id := by
  have hfind : kind.slots.find? (fun e => kind.writes e.1 && f e.2 = id) =
      kind.slots.find? fun e => kind.writes e.1 && e.2 = id := by
    refine find?_congr fun e he => ?_
    cases hw : kind.writes e.1
    · rfl
    · rw [h e.2 (mem_mentioned.2 ⟨e.1, he, hw⟩)]
  simp only [written?, slots_mapOperands, writes_mapOperands, List.find?_map, Function.comp_def,
    Option.map_map, hfind]

end OpKind

namespace Arena

/-! ## Walks -/

/-- Where execution may go on after a block is a matter of its last operation. -/
theorem successors_eq (a : Arena) (block : BlockId) :
    a.successors block =
      ((a.block block).ops.getLast?.map fun op => (a.op op).kind.successors).getD [] := by
  unfold successors terminator?
  cases (a.block block).ops.getLast? with
  | none => rfl
  | some op =>
    rw [Option.filter_some]
    cases ht : (a.op op).kind.isTerminator
    · simp [OpKind.successors_eq_nil ht]
    · simp

theorem successors_congr {a a' : Arena} {block : BlockId}
    (hops : (a'.block block).ops = (a.block block).ops)
    (hkind : ∀ op ∈ (a.block block).ops, (a'.op op).kind.successors = (a.op op).kind.successors) :
    a'.successors block = a.successors block := by
  rw [successors_eq, successors_eq, hops]
  cases hl : (a.block block).ops.getLast? with
  | none => rfl
  | some op => simp [hkind op (List.mem_of_getLast? hl)]

/-- A walk from a block along terminator edges through blocks that are not dead. The latest block
comes first. -/
inductive Trail (a : Arena) (entry : BlockId) : List BlockId → Prop
  | start (live : (a.block entry).dead = false) : Trail a entry [entry]
  | step {source block : BlockId} {rest : List BlockId} (h : Trail a entry (source :: rest))
      (edge : block ∈ a.successors source) (live : (a.block block).dead = false) :
      Trail a entry (block :: source :: rest)

namespace Trail

variable {a : Arena} {entry block source : BlockId} {rest trail : List BlockId}

theorem live (h : a.Trail entry trail) : ∀ b ∈ trail, (a.block b).dead = false := by
  induction h with
  | start hlive => simpa using hlive
  | step _ _ hlive ih =>
    intro b hb
    rcases List.mem_cons.1 hb with rfl | hb
    · exact hlive
    · exact ih b hb

theorem tail (h : a.Trail entry (block :: source :: rest)) : a.Trail entry (source :: rest) := by
  cases h
  assumption

theorem edge (h : a.Trail entry (block :: source :: rest)) : block ∈ a.successors source := by
  cases h
  assumption

theorem ne_nil (h : a.Trail entry trail) : trail ≠ [] := by
  cases h <;> simp

theorem eq_entry (h : a.Trail entry [block]) : block = entry := by
  cases h
  rfl

/-- The part of a trail up to a visit of one of its blocks is a trail. -/
theorem of_suffix (h : a.Trail entry trail) (hs : block :: rest <:+ trail) :
    a.Trail entry (block :: rest) := by
  induction h with
  | start hlive =>
    obtain ⟨rfl, rfl⟩ := List.cons.inj (hs.eq_of_length_le (by simp))
    exact .start hlive
  | step h hedge hlive ih =>
    rcases List.suffix_cons_iff.1 hs with heq | hs
    · exact heq ▸ .step h hedge hlive
    · exact ih hs

/-- A trail that visits a block is there for the first time at some point. -/
theorem first_visit (h : a.Trail entry trail) (hm : block ∈ trail) :
    ∃ rest, block :: rest <:+ trail ∧ block ∉ rest := by
  induction h with
  | start => exact ⟨[], by simp_all, nofun⟩
  | @step source b before _ _ _ ih =>
    by_cases hb : block ∈ source :: before
    · obtain ⟨rest, hs, hnot⟩ := ih hb
      exact ⟨rest, hs.trans (List.suffix_cons ..), hnot⟩
    · obtain rfl : block = b := by simpa [hb] using hm
      exact ⟨source :: before, List.suffix_rfl, hb⟩

end Trail

/-! ## Execution -/

variable {D : Type} (a : Arena) (E : Effects D)

/-- Performs an operation. A jump does nothing that could be seen. -/
def perform (m : Memory D) (op : OpId) : Memory D :=
  match (a.op op).kind with
  | .jump _ => m
  | kind =>
    let values := kind.reads.map m.env
    { env := fun id => match kind.written? id with
        | some slot => E.value m.log op values slot
        | none => m.env id
      log := (op, values) :: m.log }

/-- The operand that a φ operation merges at the position of a block among the predecessors of its
own block that are not dead. -/
def phiOperand? (block source : BlockId) (vars : List OperandId) : Option OperandId :=
  ((a.livePreds block).findIdx? (· = source)).bind (vars[·]?)

/-- The operand whose value a φ operation of a block that is entered gives to an operand. -/
def takes? (block : BlockId) (source : Option BlockId) (id : OperandId) (phi : OpId) :
    Option OperandId :=
  match (a.op phi).kind with
  | .phi vars result => if result = id then source.bind (a.phiOperand? block · vars) else none
  | _ => none

/-- The operand whose value an operand gets when a block is entered. -/
def incoming? (block : BlockId) (source : Option BlockId) (id : OperandId) : Option OperandId :=
  (a.block block).phis.findSome? (a.takes? block source id)

/-- Enters a block, from another one unless the walk starts there: the φ operations of the block
take their values all at once. -/
def enter (block : BlockId) (source : Option BlockId) (m : Memory D) : Memory D :=
  { m with env := fun id => m.env ((a.incoming? block source id).getD id) }

/-- The memory at the end of a trail. -/
def memory : List BlockId → Memory D
  | [] => ⟨E.start, []⟩
  | block :: rest =>
    (a.block block).ops.foldl (a.perform E) (a.enter block rest.head? (memory rest))

variable {a E}

theorem perform_jump {op : OpId} {target : BlockId} (h : (a.op op).kind = .jump target)
    (m : Memory D) : a.perform E m op = m := by
  simp [perform, h]

theorem perform_eq {op : OpId} (h : ∀ target, (a.op op).kind ≠ .jump target) (m : Memory D) :
    a.perform E m op =
      { env := fun id => match (a.op op).kind.written? id with
          | some slot => E.value m.log op ((a.op op).kind.reads.map m.env) slot
          | none => m.env id
        log := (op, (a.op op).kind.reads.map m.env) :: m.log } := by
  unfold perform
  split
  · exact absurd ‹_› (h _)
  · rfl

/-- An operation leaves the operands alone that it does not write. -/
theorem perform_env {op : OpId} {id : OperandId} (h : id ∉ (a.op op).kind.mentioned true)
    (m : Memory D) : (a.perform E m op).env id = m.env id := by
  unfold perform
  split
  · rfl
  · simp [OpKind.written?_eq_none.2 h]

/-- Operations leave the operands alone that none of them writes. -/
theorem foldl_perform_env {ops : List OpId} {id : OperandId}
    (h : ∀ op ∈ ops, id ∉ (a.op op).kind.mentioned true) (m : Memory D) :
    (ops.foldl (a.perform E) m).env id = m.env id := by
  induction ops generalizing m with
  | nil => rfl
  | cons op ops ih =>
    rw [List.foldl_cons, ih (fun o ho => h o (List.mem_cons_of_mem _ ho)),
      perform_env (h op (List.mem_cons_self ..))]

theorem takes?_eq_some {block : BlockId} {source : Option BlockId} {id u : OperandId}
    {phi : OpId} : a.takes? block source id phi = some u ↔
      ∃ vars b, (a.op phi).kind = .phi vars id ∧ source = some b ∧
        a.phiOperand? block b vars = some u := by
  unfold takes?
  split
  · rename_i vars result hk
    by_cases hr : result = id
    · subst hr
      cases source <;> simp [hk]
    · simp [hk, hr]
  · rename_i hk
    simp only [reduceCtorEq, false_iff, not_exists, not_and]
    exact fun vars b hphi => absurd hphi (hk vars id)

theorem takes?_eq_none {block : BlockId} {source : Option BlockId} {id : OperandId} {phi : OpId}
    (h : id ∉ (a.op phi).kind.mentioned true) : a.takes? block source id phi = none := by
  rw [Option.eq_none_iff_forall_ne_some]
  intro u hu
  obtain ⟨vars, b, hk, -⟩ := takes?_eq_some.1 hu
  exact h (by simp [hk, OpKind.mentioned_phi_true])

/-- Only the φ operations of a block that is entered change values. -/
theorem incoming?_eq_none {block : BlockId} {source : Option BlockId} {id : OperandId}
    (h : ∀ phi ∈ (a.block block).phis, id ∉ (a.op phi).kind.mentioned true) :
    a.incoming? block source id = none := by
  unfold incoming?
  rw [List.findSome?_eq_none_iff]
  exact fun phi hphi => takes?_eq_none (h phi hphi)

theorem exists_of_incoming? {block : BlockId} {source : Option BlockId} {id u : OperandId}
    (h : a.incoming? block source id = some u) :
    ∃ phi ∈ (a.block block).phis, ∃ vars b, (a.op phi).kind = .phi vars id ∧ source = some b ∧
      a.phiOperand? block b vars = some u := by
  obtain ⟨phi, hphi, htake⟩ := List.exists_of_findSome?_eq_some h
  exact ⟨phi, hphi, takes?_eq_some.1 htake⟩

/-- The only φ operation with its result gives it the value of the operand that the edge selects. -/
theorem incoming?_of_only {block source : BlockId} {phi : OpId} {vars : List OperandId}
    {result id : OperandId} (hp : phi ∈ (a.block block).phis)
    (hk : (a.op phi).kind = .phi vars result)
    (honly : ∀ o ∈ (a.block block).phis, ∀ vars', (a.op o).kind = .phi vars' result → o = phi)
    (hid : a.phiOperand? block source vars = some id) :
    a.incoming? block (some source) result = some id := by
  have hfound : (a.incoming? block (some source) result).isSome := by
    unfold incoming?
    rw [List.findSome?_isSome_iff]
    exact ⟨phi, hp, by rw [takes?_eq_some.2 ⟨vars, source, hk, rfl, hid⟩]; rfl⟩
  obtain ⟨id', hid'⟩ := Option.isSome_iff_exists.1 hfound
  rw [hid']
  obtain ⟨other, ho, vars', source', hk', hsource, htake⟩ := exists_of_incoming? hid'
  obtain rfl : other = phi := honly other ho vars' hk'
  obtain rfl := Option.some.inj hsource
  rw [hk] at hk'
  obtain ⟨rfl, -⟩ := OpKind.phi.inj hk'
  exact htake.symm.trans hid

end Arena

end QueryTaint
