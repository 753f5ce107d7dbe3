import QueryTaint.Proofs.Relabel.Walk
import QueryTaint.Proofs.Walk.Instant

/-!
# Tasks with new numbers

A task leads to the same tasks in a terrain and in one among further scripts, with new numbers of
entries and invocations and new names of variables: the same blocks are put on the walk
(`Explorer.opened?_twin`), the same arms are feasible and the same ways lead out
(`Explorer.expand_twin`), and the same comes after each operation (`Explorer.nextAt_twin`). The new
numbers of invocations are given; those of calls that are entered must be the next ones
(`Explorer.Aligned`).
-/

namespace QueryTaint

/-- The place with new numbers. -/
def Place.relabel (ρ : Relabel) (σ : Nat → Nat) (p : Place) : Place :=
  ⟨σ p.invocation, ρ.block p.block⟩

theorem Place.relabel_injective (ρ : Relabel) {σ : Nat → Nat} (hσ : σ.Injective) :
    (Place.relabel ρ σ).Injective := by
  rintro ⟨i, b⟩ ⟨j, c⟩ h
  have hi : i = j := hσ (congrArg Place.invocation h)
  have hb : b = c := ρ.block_injective (congrArg Place.block h)
  rw [hi, hb]

/-! ## Feasibility -/

/-- The same assumptions are live in the same scopes, with new names of variables. -/
structure Feasibility.Alike (var : String → String) (f f' : Feasibility Float) : Prop where
  assertions : f'.solver.assertions.toList = f.solver.assertions.toList.map (Term.rename var)
  frames : f'.solver.frames = f.solver.frames
  depth : f'.depth = f.depth

namespace Feasibility.Alike

variable {var : String → String} {f f' : Feasibility Float}

theorem feasible (h : f.Alike var f') (hvar : var.Injective) (term : Term Float) :
    (f'.assume (term.rename var)).1 = (f.assume term).1 := by
  rw [assume_eq_feasible, assume_eq_feasible, h.assertions, feasible_rename hvar]

theorem assume (h : f.Alike var f') (term : Term Float) :
    Alike var (f.assume term).2 (f'.assume (term.rename var)).2 := by
  have hsize : f'.solver.assertions.size = f.solver.assertions.size := by
    rw [← Array.length_toList, h.assertions, List.length_map, Array.length_toList]
  refine ⟨?_, ?_, ?_⟩
  · simp [solver_assume, Solver.push, Solver.assert, h.assertions]
  · rw [solver_assume, solver_assume]
    show f'.solver.assertions.size :: f'.solver.frames = f.solver.assertions.size :: f.solver.frames
    rw [hsize, h.frames]
  · rw [depth_assume, depth_assume, h.depth]

theorem retract (h : f.Alike var f') : Alike var f.retract f'.retract := by
  unfold Feasibility.retract
  rw [h.depth]
  by_cases hdepth : f.depth = 0
  · rw [if_pos hdepth, if_pos hdepth]
    exact h
  · rw [if_neg hdepth, if_neg hdepth]
    have hframes := h.frames
    cases hown : f.solver.frames with
    | nil =>
      rw [hown] at hframes
      refine ⟨?_, ?_, rfl⟩ <;> simp [Solver.pop, hown, hframes, h.assertions]
    | cons size frames =>
      rw [hown] at hframes
      refine ⟨?_, ?_, rfl⟩ <;> simp [Solver.pop, hown, hframes, h.assertions, List.map_take]

theorem retracts (h : f.Alike var f') (k : Nat) :
    Alike var (k.repeat Feasibility.retract f) (k.repeat Feasibility.retract f') := by
  induction k with
  | zero => exact h
  | succ k ih => exact ih.retract

end Feasibility.Alike

namespace Explorer

variable {g : Graft} {n : g.toRelabel.Naming} {ι σ : Nat → Nat} {t t' : Terrain}
  {o o' e e' : Explorer} {w w' : Walk}

/-! ## What is related -/

/-- The same task with new numbers. -/
inductive Task.Twin (n : g.toRelabel.Naming) (σ : Nat → Nat) : Task → Task → Prop
  | enter {w w' : Walk} (hw : w.Twin g.toRelabel σ w') (block : BlockId) (source : Option BlockId) :
    Twin n σ (.enter w block source) (.enter w' (g.block block) (source.map g.block))
  | branch {w w' : Walk} (hw : w.Twin g.toRelabel σ w') (term : Term Float) (choice : Choice)
      (target source : BlockId) :
    Twin n σ (.branch w term choice target source)
      (.branch w' (term.rename n.var) (choice.relabel g.toRelabel) (g.block target) (g.block source))
  | leave (place : Place) : Twin n σ (.leave place) (.leave (place.relabel g.toRelabel σ))
  | retract : Twin n σ .retract .retract

/-- The same comes next, with new numbers. -/
inductive Next.Twin (n : g.toRelabel.Naming) (σ : Nat → Nat) : Next → Next → Prop
  | run {w w' : Walk} (hw : w.Twin g.toRelabel σ w') (block : BlockId) (index : Nat) :
    Twin n σ (.run w block index) (.run w' (g.block block) index)
  | done {w w' : Walk} (hw : w.Twin g.toRelabel σ w') : Twin n σ (.done w) (.done w')
  | tasks {next next' : List Task} (h : List.Forall₂ (Task.Twin n σ) next next') :
    Twin n σ (.tasks next) (.tasks next')

/-- Two explorers did the same since they were two given ones. What they did before does not count,
nor what they counted. -/
structure Twin (n : g.toRelabel.Naming) (σ : Nat → Nat) (o o' e e' : Explorer) : Prop where
  feasibility : e.feasibility.Alike n.var e'.feasibility
  places : e'.places = e.places.map (Place.relabel g.toRelabel σ)
  invocations : ∃ j, e.invocations = o.invocations + j ∧ e'.invocations = o'.invocations + j
  found : ∃ new new', e.found.toList = o.found.toList ++ new ∧
    e'.found.toList = o'.found.toList ++ new' ∧ List.Forall₂ (Walk.Twin g.toRelabel σ) new new'

/-- The same comes after a place, and it leaves the same tasks and explorers. -/
structure ComesAfter.Twin (n : g.toRelabel.Naming) (σ : Nat → Nat) (o o' : Explorer)
    (x x' : Next × List Task × Explorer) : Prop where
  next : x.1.Twin n σ x'.1
  tasks : List.Forall₂ (Task.Twin n σ) x.2.1 x'.2.1
  explorer : Explorer.Twin n σ o o' x.2.2 x'.2.2

/-- The invocations that two explorers begin, up to a limit, are numbered in step. -/
def Aligned (σ : Nat → Nat) (o o' : Explorer) (limit : Nat) : Prop :=
  ∀ j, o.invocations + j < limit → σ (o.invocations + j) = o'.invocations + j

/-! ## Forks and exits -/

/-- The arm with new numbers. -/
def Arm.rename (n : g.toRelabel.Naming) (arm : Arm) : Arm :=
  ⟨arm.assumption.rename n.var, arm.choice.relabel g.toRelabel, g.block arm.target⟩

theorem moment_twin (ht : t.Twin g ι t') (hw : w.Twin g.toRelabel σ w') :
    Moment.Twin g ⟨t.arena, w.overrides⟩ ⟨t'.arena, w'.overrides⟩ :=
  ⟨ht.arena, hw.overrides⟩

theorem arms_twin (n : g.toRelabel.Naming) (ht : t.Twin g ι t') (hw : w.Twin g.toRelabel σ w')
    (kind : OpKind) :
    t'.arms w' (kind.relabel g.toRelabel) = (t.arms w kind).map (Arm.rename n) := by
  have hm := moment_twin ht hw
  cases kind with
  | jumpIf cond ifTarget elseTarget =>
    simp only [OpKind.relabel, Terrain.arms, hm.condition n, Modeled.map, Term.not_rename, Arm.rename,
      Choice.relabel, List.map_cons, List.map_nil]
  | switch subject cases targets otherwise =>
    have hnot : (cases.map g.operand).map (fun case =>
          ((⟨t'.arena, w'.overrides⟩ : Moment).caseEquality (g.operand subject) case).value.not) =
        (cases.map fun case =>
          ((⟨t.arena, w.overrides⟩ : Moment).caseEquality subject case).value.not).map
            (Term.rename n.var) := by
      simp only [List.map_map, Function.comp_def, hm.caseEquality n, Modeled.map, Term.not_rename]
    simp only [OpKind.relabel, Terrain.arms]
    rw [hnot, Term.and_rename]
    simp only [List.zip_map, List.map_map, List.map_append, List.map_singleton, Function.comp_def,
      Prod.map, hm.caseEquality n, Modeled.map, Arm.rename, Choice.relabel]
  | _ => rfl

theorem fork_twin (ht : t.Twin g ι t') (hw : w.Twin g.toRelabel σ w') (block : BlockId)
    (kind : OpKind) :
    List.Forall₂ (Task.Twin n σ)
      ((t.arms w kind).map fun arm => .branch w arm.assumption arm.choice arm.target block)
      ((t'.arms w' (kind.relabel g.toRelabel)).map fun arm =>
        .branch w' arm.assumption arm.choice arm.target (g.block block)) := by
  rw [arms_twin n ht hw, List.map_map, List.forall₂_map_left_iff, List.forall₂_map_right_iff]
  exact List.forall₂_same.2 fun arm _ => .branch hw arm.assumption arm.choice arm.target block

/-- The way out of a block with new numbers. -/
def wayOut (ρ : Relabel) (way : BlockId × Option Choice) : BlockId × Option Choice :=
  (ρ.block way.1, way.2.map (Choice.relabel ρ))

theorem exits_relabel (ρ : Relabel) (kind : OpKind) :
    exits (kind.relabel ρ) = (exits kind).map (wayOut ρ) := by
  cases kind with
  | switch subject cases targets otherwise =>
    simp only [OpKind.relabel, exits, List.zip_map, List.map_map, List.map_append, List.map_singleton,
      Function.comp_def, Prod.map, wayOut, Option.map_some, Choice.relabel]
  | _ => rfl

theorem waysOut_twin (ht : t.Twin g ι t') (block : BlockId) :
    t'.waysOut (g.block block) = (t.waysOut block).map (wayOut g.toRelabel) := by
  rw [Terrain.waysOut, Terrain.waysOut, ht.arena.terminator?]
  cases t.arena.terminator? block with
  | none => rfl
  | some op =>
    simp only [Option.map_some, ht.arena.op, Op.relabel]
    exact exits_relabel g.toRelabel _

theorem dead_twin (ht : t.Twin g ι t') (block : BlockId) :
    (t'.arena.block (g.block block)).dead = (t.arena.block block).dead := by
  rw [ht.arena.block, Block.relabel]

theorem chooseAny_twin (hw : w.Twin g.toRelabel σ w') (choice : Option Choice) :
    (w.chooseAny choice).Twin g.toRelabel σ (w'.chooseAny (choice.map (Choice.relabel g.toRelabel))) := by
  cases choice with
  | none => exact hw
  | some choice => exact hw.choose choice

/-! ## Explorers -/

theorem Twin.visit (he : Twin n σ o o' e e') (place : Place) :
    Twin n σ o o' (e.visit place).1 (e'.visit (place.relabel g.toRelabel σ)).1 :=
  { he with places := congrArg (List.cons _) he.places }

theorem Twin.reset (he : Twin n σ o o' e e') : Twin n σ o o' e.reset e'.reset :=
  { he with
    feasibility := by
      have hsame := he.feasibility.retracts e.feasibility.depth
      rw [Explorer.reset, Explorer.reset, he.feasibility.depth]
      exact hsame
    places := rfl }

theorem Twin.commit (he : Twin n σ o o' e e') (hw : w.Twin g.toRelabel σ w')
    (hne : e.remaining t ≠ 0) (hne' : e'.remaining t' ≠ 0) :
    Twin n σ o o' (e.commit t w) (e'.commit t' w') := by
  obtain ⟨new, new', hnew, hnew', htwins⟩ := he.found
  rw [Explorer.commit, Explorer.commit, if_neg hne, if_neg hne']
  refine { he with found := ⟨new ++ [w], new' ++ [w'], ?_, ?_, ?_⟩ }
  · simp [hnew]
  · simp [hnew']
  · exact List.rel_append htwins (.cons hw .nil)

theorem Twin.mem_places (he : Twin n σ o o' e e') (hσ : σ.Injective) (place : Place) :
    place.relabel g.toRelabel σ ∈ e'.places ↔ place ∈ e.places := by
  rw [he.places]
  exact List.mem_map_of_injective (Place.relabel_injective g.toRelabel hσ)

theorem tasks_reenter (e : Explorer) (t : Terrain) (w : Walk) (block : BlockId) :
    (e.reenter t w block).2 = ((t.waysOut block).filter fun way =>
        !e.places.contains ⟨w.invocation, way.1⟩ && !(t.arena.block way.1).dead).map fun way =>
      Task.enter (w.chooseAny way.2) way.1 (some block) := by
  refine List.map_congr_left fun way _ => ?_
  obtain ⟨target, choice⟩ := way
  cases choice <;> rfl

/-- A block that is met again is left in the same ways. -/
theorem reenter_twin (ht : t.Twin g ι t') (hσ : σ.Injective) (he : Twin n σ o o' e e')
    (hw : w.Twin g.toRelabel σ w') (block : BlockId) :
    Twin n σ o o' (e.reenter t w block).1 (e'.reenter t' w' (g.block block)).1 ∧
      List.Forall₂ (Task.Twin n σ) (e.reenter t w block).2 (e'.reenter t' w' (g.block block)).2 := by
  refine ⟨{ he with }, ?_⟩
  have hways : ((t'.waysOut (g.block block)).filter fun way =>
        !e'.places.contains ⟨w'.invocation, way.1⟩ && !(t'.arena.block way.1).dead) =
      ((t.waysOut block).filter fun way =>
        !e.places.contains ⟨w.invocation, way.1⟩ && !(t.arena.block way.1).dead).map
          (wayOut g.toRelabel) := by
    rw [waysOut_twin ht, List.filter_map]
    refine congrArg _ (List.filter_congr fun way _ => ?_)
    have hplace : e'.places.contains ⟨w'.invocation, g.block way.1⟩ =
        e.places.contains ⟨w.invocation, way.1⟩ := by
      rw [hw.invocation, Bool.eq_iff_iff, List.contains_iff_mem, List.contains_iff_mem]
      exact he.mem_places hσ ⟨w.invocation, way.1⟩
    show (!e'.places.contains ⟨w'.invocation, g.block way.1⟩ &&
      !(t'.arena.block (g.block way.1)).dead) = _
    rw [hplace, dead_twin ht]
  rw [tasks_reenter, tasks_reenter, hways, List.map_map, List.forall₂_map_left_iff,
    List.forall₂_map_right_iff]
  exact List.forall₂_same.2 fun way _ => .enter (chooseAny_twin hw way.2) way.1 (some block)

/-- The block that a task puts on the walk is the same. -/
theorem opened?_twin (ht : t.Twin g ι t') (hσ : σ.Injective) (he : Twin n σ o o' e e')
    {task task' : Task} (h : Task.Twin n σ task task') :
    Option.Rel (fun x x' => x.1.Twin g.toRelabel σ x'.1 ∧ x'.2 = g.block x.2)
      (e.opened? t task) (e'.opened? t' task') := by
  cases h with
  | @enter w w' hw block source =>
    have hv := commitPhis_twin ht.arena hw block source
    have hseen : (⟨(commitPhis t'.arena w' (g.block block) (source.map g.block)).invocation,
          g.block block⟩ : Place) ∈ e'.places ↔
        (⟨(commitPhis t.arena w block source).invocation, block⟩ : Place) ∈ e.places := by
      rw [hv.invocation]
      exact he.mem_places hσ ⟨(commitPhis t.arena w block source).invocation, block⟩
    unfold opened?
    dsimp only
    simp only [dead_twin ht, hseen]
    split
    · exact .none
    · exact .some ⟨hv, rfl⟩
  | branch | leave | retract => exact .none

/-- A task that puts no block on the walk leads to the same tasks. -/
theorem expand_twin (ht : t.Twin g ι t') (hσ : σ.Injective) (he : Twin n σ o o' e e')
    {task task' : Task} (h : Task.Twin n σ task task') (hopened : e.opened? t task = none) :
    Twin n σ o o' (e.expand t task).1 (e'.expand t' task').1 ∧
      List.Forall₂ (Task.Twin n σ) (e.expand t task).2 (e'.expand t' task').2 := by
  cases h with
  | leave place =>
    refine ⟨{ he with places := ?_ }, .nil⟩
    show e'.places.erase (place.relabel g.toRelabel σ) =
      (e.places.erase place).map (Place.relabel g.toRelabel σ)
    rw [he.places]
    exact (List.map_erase (Place.relabel_injective g.toRelabel hσ) e.places).symm
  | retract => exact ⟨{ he with feasibility := he.feasibility.retract }, .nil⟩
  | @branch w w' hw term choice target source =>
    have hsame := he.feasibility.feasible n.injective term
    have hafter := he.feasibility.assume term
    unfold Explorer.expand
    dsimp only
    rw [hsame]
    split
    · exact ⟨{ he with feasibility := hafter },
        .cons (.enter (hw.choose choice) target (some source)) (.cons .retract .nil)⟩
    · exact ⟨{ he with feasibility := hafter.retract }, .nil⟩
  | @enter w w' hw block source =>
    have hv := commitPhis_twin ht.arena hw block source
    have hseen := he.mem_places hσ ⟨(commitPhis t.arena w block source).invocation, block⟩
    rw [Place.relabel, ← hv.invocation] at hseen
    unfold Explorer.expand Explorer.enter
    dsimp only [opened?] at hopened ⊢
    rw [dead_twin ht]
    by_cases hdead : (t.arena.block block).dead = true
    · rw [if_pos hdead, if_pos hdead]
      exact ⟨he, .nil⟩
    · rw [if_neg hdead, if_neg hdead]
      have hmem : (⟨(commitPhis t.arena w block source).invocation, block⟩ : Place) ∈ e.places := by
        by_contra hnot
        rw [if_neg (by simp [hdead, hnot])] at hopened
        cases hopened
      rw [if_pos hmem, if_pos (hseen.2 hmem)]
      exact reenter_twin ht hσ he hv block

/-! ## Calls -/

theorem followed?_twin (ht : t.Twin g ι t') (hw : w.Twin g.toRelabel σ w') (op : OpId) :
    t'.followed? w' (g.op op) = (t.followed? w op).map g.func := by
  have hcalls : ((t.arena.op op).kind.relabel g.toRelabel).callsFunction =
      (t.arena.op op).kind.callsFunction := by
    cases (t.arena.op op).kind <;> rfl
  unfold Terrain.followed?
  rw [ht.arena.op, Op.relabel]
  dsimp only
  rw [hcalls, hw.func, ht.resolver.owner, hw.depth, ht.maxDepth]
  split
  · cases t.resolver.scriptOf? w.func with
    | none => rfl
    | some script =>
      simp only [Option.map_some, Option.bind_eq_bind, Option.bind_some,
        ht.resolver.resolve? hw.overrides]
      cases t.resolver.resolve? script w.func op w.overrides with
      | none => rfl
      | some func =>
        simp only [Option.map_some, Option.bind_some, hw.isActive]
        split <;> rfl
  · rfl

theorem followed?_mem_entries (ht : t.Twin g ι t') {op : OpId} {func : FuncId}
    (h : t.followed? w op = some func) : .func func ∈ t.arena.entries := by
  unfold Terrain.followed? at h
  split at h
  · obtain ⟨script, -, h⟩ := Option.bind_eq_some_iff.1 h
    obtain ⟨f, hf, h⟩ := Option.bind_eq_some_iff.1 h
    split at h
    · cases h
    · cases h
      exact ht.grounded.resolve? hf
  · cases h

theorem func_twin (ht : t.Twin g ι t') {func : FuncId} (h : .func func ∈ t.arena.entries) :
    t'.arena.func (g.func func) = (t.arena.func func).relabel g.toRelabel :=
  ht.arena.func h

theorem supplied_twin (ht : t.Twin g ι t') (hw : w.Twin g.toRelabel σ w') (call : OpId)
    {func : FuncId} (hfunc : .func func ∈ t.arena.entries) :
    (t.supplied w call func).Twin g.toRelabel σ (t'.supplied w' (g.op call) (g.func func)) := by
  unfold Terrain.supplied
  dsimp only
  rw [func_twin ht hfunc, ht.arena.op, Op.relabel, OpKind.operandList_relabel]
  exact bindCaptures_twin ht (bindParams_twin ht hw _ _) _

/-- A call that is entered gets the next number on both sides. -/
theorem enterCall_twin (ht : t.Twin g ι t') {limit : Nat} (haligned : Aligned σ o o' limit)
    (he : Twin n σ o o' e e') (hw : w.Twin g.toRelabel σ w') (call : OpId) {func : FuncId}
    (hfunc : .func func ∈ t.arena.entries) (block : BlockId) (index : Nat)
    (hlimit : e.invocations < limit) :
    (e.enterCall t w call func block index).1.Twin g.toRelabel σ
        (e'.enterCall t' w' (g.op call) (g.func func) (g.block block) index).1 ∧
      Twin n σ o o' (e.enterCall t w call func block index).2
        (e'.enterCall t' w' (g.op call) (g.func func) (g.block block) index).2 := by
  have hv := supplied_twin ht hw call hfunc
  obtain ⟨j, hown, hboth⟩ := he.invocations
  have hnext : e'.invocations = σ e.invocations := by
    rw [hown, haligned j (hown ▸ hlimit), hboth]
  refine ⟨?_, { he with invocations := ⟨j + 1, ?_, ?_⟩ }⟩
  · rw [enterCall_walk, enterCall_walk]
    refine { hv with func := rfl, invocation := hnext, frames := ?_ }
    show (⟨g.func func, e'.invocations, g.op call, g.block block, index, w'.invocation, w'.func⟩ ::
      w'.frames : List Frame) = _
    rw [hnext, hw.invocation, hw.func, hw.frames]
    rfl
  · show e.invocations + 1 = _
    rw [hown, Nat.add_assoc]
  · show e'.invocations + 1 = _
    rw [hboth, Nat.add_assoc]

/-! ## What comes after a place -/

theorem unwind_twin (ht : t.Twin g ι t') (hw : w.Twin g.toRelabel σ w') (via : Option OpId)
    (value : Option OperandId) :
    Next.Twin n σ (unwind t w via value) (unwind t' w' (via.map g.op) (value.map g.operand)) := by
  have hframes := hw.frames
  unfold unwind
  cases hown : w.frames with
  | nil =>
    rw [hown] at hframes
    rw [hframes]
    exact .done hw
  | cons frame rest =>
    rw [hown] at hframes
    rw [hframes]
    exact .run (leaveCall_twin ht hw frame rest via value) frame.resumeBlock frame.resumeIndex

theorem terminate_twin (ht : t.Twin g ι t') (hw : w.Twin g.toRelabel σ w') (block : BlockId)
    (op : OpId) :
    Next.Twin n σ (terminate t w block op) (terminate t' w' (g.block block) (g.op op)) := by
  unfold terminate
  rw [ht.arena.op, Op.relabel]
  cases (t.arena.op op).kind with
  | jump target => exact .tasks (.cons (.enter hw target (some block)) .nil)
  | jumpIf cond ifTarget elseTarget =>
    exact .tasks (fork_twin ht hw block (.jumpIf cond ifTarget elseTarget))
  | switch subject cases targets otherwise =>
    dsimp only [OpKind.relabel]
    rw [forkSwitch_eq_arms, forkSwitch_eq_arms]
    exact .tasks (fork_twin ht hw block (.switch subject cases targets otherwise))
  | returns value => exact unwind_twin ht hw (some op) value
  | _ => exact .done hw

section NextAt

variable {limit : Nat}

/-- An operation that ends no block leads to the same. -/
theorem runOp_twin (ht : t.Twin g ι t') (haligned : Aligned σ o o' limit)
    (he : Twin n σ o o' e e') (hw : w.Twin g.toRelabel σ w') (block : BlockId) (index : Nat)
    (op : OpId) (hterm : (t.arena.op op).kind.isTerminator = false)
    (hlimit : (e.runOp t w block index op).2.2.invocations ≤ limit) :
    ComesAfter.Twin n σ o o' (e.runOp t w block index op)
      (e'.runOp t' w' (g.block block) index (g.op op)) := by
  have hkind : (t'.arena.op (g.op op)).kind = (t.arena.op op).kind.relabel g.toRelabel :=
    congrArg Op.kind (ht.arena.op op)
  by_cases hparam : ∃ name default defaultBlock byRef variadic type func result,
      (t.arena.op op).kind = .param name default defaultBlock byRef variadic type func result
  · obtain ⟨name, default, defaultBlock, byRef, variadic, type, func, result, hp⟩ := hparam
    unfold runOp
    rw [hkind, hp]
    exact ⟨.run hw block (index + 1), .nil, he⟩
  · have hplain : IsPlain (t.arena.op op).kind :=
      ⟨hterm, fun a b c d e f g h heq => hparam ⟨a, b, c, d, e, f, g, h, heq⟩⟩
    have hplain' : IsPlain (t'.arena.op (g.op op)).kind := by
      rw [hkind]
      refine ⟨(OpKind.isTerminator_relabel ..).trans hterm, ?_⟩
      intro a b c d e f g h heq
      cases hp : (t.arena.op op).kind <;> rw [hp] at heq <;> cases heq
      exact hparam ⟨_, _, _, _, _, _, _, _, hp⟩
    have hresult : (t'.arena.op (g.op op)).kind.result? =
        (t.arena.op op).kind.result?.map g.operand := by
      rw [hkind, OpKind.result?_relabel]
    have hv := hw.pushOp op (t.arena.op op).kind.result?
    rw [← hresult] at hv
    have hfollowed := followed?_twin ht hv op
    cases hown : t.followed? (w.pushOp op (t.arena.op op).kind.result?) op with
    | none =>
      rw [hown] at hfollowed
      obtain ⟨skipped, hrun⟩ := runOp_of_ignored e block index hplain hown
      obtain ⟨skipped', hrun'⟩ := runOp_of_ignored e' (g.block block) index hplain' hfollowed
      rw [hrun, hrun']
      exact ⟨.run hv block (index + 1), .nil, { he with }⟩
    | some func =>
      rw [hown] at hfollowed
      rw [runOp_of_followed hown] at hlimit ⊢
      rw [runOp_of_followed hfollowed]
      have hfunc := followed?_mem_entries ht hown
      obtain ⟨hcalled, hafter⟩ := enterCall_twin ht haligned he hv op hfunc block (index + 1) hlimit
      have hentry : (t'.arena.func (g.func func)).entry = g.block (t.arena.func func).entry :=
        congrArg Func.entry (func_twin ht hfunc)
      obtain ⟨j, hj, hj'⟩ := he.invocations
      have hplace : (⟨e'.invocations, (t'.arena.func (g.func func)).entry⟩ : Place) =
          Place.relabel g.toRelabel σ ⟨e.invocations, (t.arena.func func).entry⟩ := by
        rw [hentry, Place.relabel, hj, haligned j (hj ▸ hlimit), hj']
      dsimp only
      rw [hplace, hentry]
      exact ⟨.run hcalled _ 0, .cons (.leave _) .nil, hafter.visit _⟩

/-- The same comes after the same place. -/
theorem nextAt_twin (ht : t.Twin g ι t') (haligned : Aligned σ o o' limit)
    (he : Twin n σ o o' e e') (hw : w.Twin g.toRelabel σ w') (block : BlockId) (index : Nat)
    (hlimit : (e.nextAt t w block index).2.2.invocations ≤ limit) :
    ComesAfter.Twin n σ o o' (e.nextAt t w block index)
      (e'.nextAt t' w' (g.block block) index) := by
  have hop : (t'.arena.block (g.block block)).ops[index]? =
      (t.arena.block block).ops[index]?.map g.op := by
    rw [ht.arena.block, Block.relabel, List.getElem?_map]
  unfold nextAt at hlimit ⊢
  rw [hop]
  cases hown : (t.arena.block block).ops[index]? with
  | none => exact ⟨unwind_twin ht hw none none, .nil, he⟩
  | some op =>
    have hterm : (t'.arena.op (g.op op)).kind.isTerminator =
        (t.arena.op op).kind.isTerminator := by
      rw [ht.arena.op]
      exact OpKind.isTerminator_relabel ..
    rw [hown] at hlimit
    dsimp only [Option.map_some] at hlimit ⊢
    rw [hterm]
    by_cases h : (t.arena.op op).kind.isTerminator = true
    · rw [if_pos h, if_pos h]
      exact ⟨terminate_twin ht hw block op, .nil, he⟩
    · rw [if_neg h] at hlimit
      rw [if_neg h, if_neg h]
      exact runOp_twin ht haligned he hw block index op (Bool.eq_false_iff.2 h) hlimit

end NextAt

end Explorer

end QueryTaint
