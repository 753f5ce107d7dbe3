import QueryTaint.Ir.Verify
import QueryTaint.Proofs.Arena.Edit
import QueryTaint.Proofs.Simplify.Ssa

/-!
# Certificates for single assignment form

That definitions dominate uses is a statement about all trails. It follows from a condition on single
edges, for given operations that are executed before each block (`available`): none before the entry
block, and before any other block only such as are executed before a block that leads to it, or in
that. `Arena.certified` checks this and the other conditions of single assignment form, apart from
the lists of operands, which edits keep exact (`Ssa.of_edits`).
-/

namespace QueryTaint.Arena

/-- All operations of an arena. -/
def allOps (a : Arena) : List OpId := (indices a.ops).map OpId.mk

/-- All blocks of an arena. -/
def allBlocks (a : Arena) : List BlockId := (indices a.blocks).map BlockId.mk

/-- Whether an operation in a block writes an operand. -/
def defines (a : Arena) (op : OpId) (id : OperandId) : Bool :=
  (a.op op).block.isSome && id ∈ (a.op op).kind.mentioned true

theorem defines_iff {a : Arena} {op : OpId} {id : OperandId} :
    a.defines op id = true ↔ a.Defines op id := by
  simp [defines, Defines]

variable (a : Arena) (available : BlockId → List OpId)

/-- The operations that are executed before the end of a block. -/
def executed (block : BlockId) : List OpId := available block ++ a.members block

/-- Whether all operations that write an operand are among some. -/
def definedIn (ops : List OpId) (id : OperandId) : Bool :=
  a.allOps.all fun op => !a.defines op id || op ∈ ops

/-- Whether operations stand where they say, φ operations apart from others. -/
def placedWell : Bool :=
  (a.allBlocks.all fun b =>
    ((a.members b).all fun op => (a.op op).block = some b) &&
    ((a.block b).phis.all fun op => a.isPhi op) && ((a.block b).ops.all fun op => !a.isPhi op)) &&
  a.allOps.all fun op => match (a.op op).block with
    | some b => op ∈ a.members b
    | none => true

/-- Whether no two operations write one operand. -/
def writesOnce : Bool :=
  a.allOps.all fun op => a.allOps.all fun other =>
    op = other || !((a.op op).kind.mentioned true).any fun id =>
      a.defines op id && a.defines other id

/-- Whether the uses in a block come after their definitions. -/
def usesDefined (b : BlockId) : Bool :=
  (a.block b).ops.zipIdx.all fun (op, i) => (a.op op).kind.reads.all
    (a.definedIn (available b ++ (a.block b).phis ++ (a.block b).ops.take i))

/-- Whether an edge is recorded, and leads on with what was executed before. -/
def edgeDefined (source b : BlockId) : Bool :=
  source ∈ (a.block b).preds && ((available b).all (· ∈ a.executed available source)) &&
  (a.block b).phis.all fun phi => match (a.op phi).kind with
    | .phi vars _ =>
      (a.phiOperand? b source vars).all (a.definedIn (a.executed available source))
    | _ => true

/-- Whether the φ operations of a block fit its predecessors. -/
def arityFits (b : BlockId) : Bool :=
  (a.block b).phis.all fun phi => match (a.op phi).kind with
    | .phi vars _ => vars.length = (a.livePreds b).length
    | _ => true

/-- The conditions of single assignment form, for what is executed before each block. -/
def certified (entry : BlockId) : Bool :=
  a.placedWell && a.writesOnce && (available entry).isEmpty &&
  a.allBlocks.all fun b => a.arityFits b && a.usesDefined available b &&
    (a.successors b).all (a.edgeDefined available b)

/-- Whether each block that only jumps is a predecessor of the block where it jumps only. -/
def jumpsListedOnce : Bool :=
  a.allBlocks.all fun source => (a.block source).dead || match (a.block source).ops with
    | [jump] => match (a.op jump).kind with
      | .jump target => a.allBlocks.all fun b =>
        b = target || (a.block b).dead || source ∉ (a.block b).preds
      | _ => true
    | _ => true

/-- Whether the φ operations of a block merge nothing. -/
def mergesNothing (b : BlockId) : Bool :=
  (a.block b).phis.all fun phi => match (a.op phi).kind with
    | .phi vars _ => vars.isEmpty
    | _ => true

variable {a available} {entry : BlockId}

theorem of_allBlocks {p : BlockId → Bool} (h : a.allBlocks.all p = true) {b : BlockId}
    (hb : b.index < a.blocks.size) : p b = true :=
  List.all_eq_true.1 h b (List.mem_map.2 ⟨b.index, List.mem_range.2 hb, rfl⟩)

theorem of_allOps {p : OpId → Bool} (h : a.allOps.all p = true) {op : OpId}
    (hop : op.index < a.ops.size) : p op = true :=
  List.all_eq_true.1 h op (List.mem_map.2 ⟨op.index, List.mem_range.2 hop, rfl⟩)

theorem op_lt_of_placed {op : OpId} (h : (a.op op).block.isSome) : op.index < a.ops.size := by
  refine Nat.lt_of_not_le fun hle => ?_
  rw [op_of_le a hle] at h
  cases h

theorem block_lt_of_member {b : BlockId} {op : OpId} (h : op ∈ a.members b) :
    b.index < a.blocks.size := by
  refine Nat.lt_of_not_le fun hle => ?_
  rw [members, block_of_le a hle] at h
  cases h

theorem block_lt_of_successor {b c : BlockId} (h : c ∈ a.successors b) :
    b.index < a.blocks.size := by
  refine Nat.lt_of_not_le fun hle => ?_
  rw [successors_eq, block_of_le a hle] at h
  cases h

theorem mem_of_definedIn {ops : List OpId} {id : OperandId} (h : a.definedIn ops id = true)
    {writer : OpId} (hw : a.Defines writer id) : writer ∈ ops := by
  have hall := of_allOps h (op_lt_of_placed hw.1)
  simpa [defines_iff.2 hw] using hall

/-- What is available before a block was executed on every trail to it. -/
theorem mem_of_available
    (hentry : available entry = [])
    (hedge : ∀ {b c}, c ∈ a.successors b → ∀ op ∈ available c, op ∈ a.executed available b)
    {b : BlockId} {rest : List BlockId} (ht : a.Trail entry (b :: rest)) :
    ∀ op ∈ available b, ∃ c ∈ rest, op ∈ a.members c := by
  induction rest generalizing b with
  | nil =>
    intro op hop
    rw [ht.eq_entry, hentry] at hop
    cases hop
  | cons c rest ih =>
    intro op hop
    rcases List.mem_append.1 (hedge ht.edge op hop) with hop | hop
    · obtain ⟨d, hd, hmem⟩ := ih ht.tail op hop
      exact ⟨d, List.mem_cons_of_mem _ hd, hmem⟩
    · exact ⟨c, List.mem_cons_self .., hop⟩

theorem mem_of_executed
    (hentry : available entry = [])
    (hedge : ∀ {b c}, c ∈ a.successors b → ∀ op ∈ available c, op ∈ a.executed available b)
    {b : BlockId} {rest : List BlockId} (ht : a.Trail entry (b :: rest)) {op : OpId}
    (hop : op ∈ a.executed available b) : ∃ c ∈ b :: rest, op ∈ a.members c := by
  rcases List.mem_append.1 hop with hop | hop
  · obtain ⟨c, hc, hmem⟩ := mem_of_available hentry hedge ht op hop
    exact ⟨c, List.mem_cons_of_mem _ hc, hmem⟩
  · exact ⟨b, List.mem_cons_self .., hop⟩

/-- A certified function is in single assignment form. -/
theorem Ssa.of_certified (hlists : a.DefUse []) (h : a.certified available entry = true) :
    a.Ssa entry := by
  simp only [certified, Bool.and_eq_true, List.isEmpty_iff] at h
  obtain ⟨⟨⟨hplaced, honce⟩, hentry⟩, hblocks⟩ := h
  simp only [placedWell, Bool.and_eq_true] at hplaced
  have hblock := fun {b : BlockId} (hb : b.index < a.blocks.size) => of_allBlocks hplaced.1 hb
  have hblocks := fun {b : BlockId} (hb : b.index < a.blocks.size) => of_allBlocks hblocks hb
  simp only [Bool.and_eq_true, List.all_eq_true] at hblock hblocks
  have hsucc : ∀ {b c}, c ∈ a.successors b → a.edgeDefined available b c = true := fun hc =>
    (hblocks (block_lt_of_successor hc)).2 _ hc
  simp only [edgeDefined, Bool.and_eq_true, List.all_eq_true, decide_eq_true_eq] at hsucc
  have hedge : ∀ {b c}, c ∈ a.successors b → ∀ op ∈ available c, op ∈ a.executed available b :=
    fun hc => (hsucc hc).1.2
  refine ⟨⟨fun op b => ⟨fun hm => ?_, fun hb => ?_⟩, fun _ hs => (hsucc hs).1.1⟩,
    ⟨[], hlists, fun op hs => ⟨op_lt_of_placed hs, nofun⟩⟩, fun {b} op hop => ?_,
    fun {b} op hop => ?_, fun {op other id} hd he => ?_, fun {b rest phi vars result} _ hp hk => ?_,
    fun {b rest i op writer id} ht hi hread hw => ?_,
    fun {b source rest phi writer vars result id} ht hp hk htake hw => ?_⟩
  · simpa using (hblock (block_lt_of_member hm)).1.1 op hm
  · have hop := of_allOps hplaced.2 (op_lt_of_placed (by rw [hb]; rfl))
    rw [hb] at hop
    simpa using hop
  · exact (hblock (block_lt_of_member (List.mem_append_left _ hop))).1.2 op hop
  · simpa using (hblock (block_lt_of_member (List.mem_append_right _ hop))).2 op hop
  · have hboth := of_allOps (of_allOps honce (op_lt_of_placed hd.1)) (op_lt_of_placed he.1)
    simp only [Bool.or_eq_true, decide_eq_true_eq, Bool.not_eq_true', List.any_eq_false] at hboth
    rcases hboth with heq | hnot
    · exact heq
    · exact absurd (by simp [defines_iff.2 hd, defines_iff.2 he]) (hnot id hd.2)
  · have harity := (hblocks (block_lt_of_member (List.mem_append_left _ hp))).1.1
    have harity := List.all_eq_true.1 harity phi hp
    simpa [hk] using harity
  · have hmem := List.mem_of_getElem? hi
    have huses := (hblocks (block_lt_of_member (List.mem_append_right _ hmem))).1.2
    have huse := List.all_eq_true.1 huses (op, i) (List.mem_zipIdx_iff_getElem?.2 hi)
    have hin := mem_of_definedIn (List.all_eq_true.1 huse id hread) hw
    rcases List.mem_append.1 hin with hin | hin
    · rcases List.mem_append.1 hin with hin | hin
      · exact .inr (.inr (mem_of_available hentry hedge ht writer hin))
      · exact .inl hin
    · exact .inr (.inl hin)
  · have hphi := (hsucc ht.edge).2 phi hp
    rw [hk] at hphi
    simp only [htake, Option.all_some] at hphi
    exact mem_of_executed hentry hedge ht.tail (mem_of_definedIn hphi hw)

/-- A function that was built by edits, none of which removes anything, and that is certified is in
single assignment form. -/
theorem Ssa.of_edits {edits : List Edit} (available : BlockId → List OpId)
    (hlegal : Edit.allLegal {} edits = true) (hremoved : (Edit.applyAll {} edits).removed = [])
    (h : (Edit.applyAll {} edits).arena.certified available entry = true) :
    (Edit.applyAll {} edits).arena.Ssa entry := by
  have hlists : (Edit.applyAll {} edits).Exact := Edit.applyAll_defUse (d := {}) empty_defUse hlegal
  rw [Draft.Exact, hremoved] at hlists
  exact .of_certified hlists h

theorem Regular.of_check (hjumps : a.jumpsListedOnce = true)
    (hentry : a.mergesNothing entry = true) : a.Regular entry where
  sole {source b target jump} hlive hops hk hlive' hmem := by
    have hsource : source.index < a.blocks.size :=
      block_lt_of_member (show jump ∈ a.members source by simp [members, hops])
    have hb : b.index < a.blocks.size := Nat.lt_of_not_le fun hle => by
      rw [block_of_le a hle] at hmem
      cases hmem
    have hlisted := of_allBlocks hjumps hsource
    simp only [hlive, hops, hk, Bool.false_or] at hlisted
    have hlisted := of_allBlocks hlisted hb
    simpa [hlive', hmem] using hlisted
  entry_phis {phi vars result} hp hk := by
    have hempty := List.all_eq_true.1 hentry phi hp
    simpa [hk] using hempty

/-- Trails are among given ones if these go on only to others of them. -/
theorem Trail.mem_of_closed (trails : List (List BlockId)) (hstart : [entry] ∈ trails)
    (hclosed : (trails.all fun trail => match trail with
      | [] => true
      | b :: _ => (a.successors b).all fun c => (c :: trail) ∈ trails) = true)
    {trail : List BlockId} (ht : a.Trail entry trail) : trail ∈ trails := by
  induction ht with
  | start => exact hstart
  | @step source b rest _ hedge _ ih =>
    have hall := List.all_eq_true.1 (List.all_eq_true.1 hclosed _ ih) b hedge
    simpa using hall

end QueryTaint.Arena
