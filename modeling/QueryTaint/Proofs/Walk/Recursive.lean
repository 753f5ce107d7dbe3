import Mathlib.Algebra.GroupWithZero.Nat
import Mathlib.Data.List.Basic
import QueryTaint.Walk.Explore

/-!
# Walks by recursion

The walks from a function as a plain recursive exploration (`Terrain.walksInto`,
`Terrain.walksFrom`, `Terrain.walksBack`). What the exploration has to know about the walk so far is
passed down by value (`Scope`): the blocks of the running invocation that are on the walk, those of
the invocations that wait for a call to return, and the assumptions. Nothing has to be taken back.

Every recursive call has a smaller cost: a block that is entered is fresh no more, a block that is
met again is left for fresh ones only, and a call is run at a depth where all costs weigh less.

Where a walk forks on what is known, the arms that it takes are decided without the solver. A branch
goes on in one arm (`Terrain.walksFrom_jumpIf_of_known`), so of a chain of comparisons the first one
that holds is taken (`Terrain.walksFrom_jumpIf_of_equal`). A jump table goes on in every case that
equals the subject, and in the default if there is none (`Terrain.walksFrom_switch_of_known`): a case
does not assume that those before it are unequal.
-/

namespace QueryTaint

/-- What an exploration knows about the walk so far: the blocks of the running invocation on it,
those of each invocation with an open call, the innermost first, and the assumptions in order. -/
structure Scope where
  seen : List BlockId := []
  callers : List (List BlockId) := []
  assumed : List (Term Float) := []

/-- An arm of a fork: what is assumed and recorded when it is taken, and where it leads. -/
structure Arm where
  assumption : Term Float
  choice : Choice
  target : BlockId

/-- Whether an operation calls a function, a method or a constructor. -/
def OpKind.callsFunction : OpKind → Bool
  | .functionCall .. | .methodCall .. | .staticCall .. | .new .. => true
  | _ => false

/-- Whether a term can be assumed after others. -/
def feasible (assumed : List (Term Float)) (term : Term Float) : Bool :=
  match term.asBool? with
  | some b => b
  | none => (decideAll (assumed ++ [term])).isFeasible

namespace Walk

/-- Records a decision if there is one. -/
def chooseAny (w : Walk) : Option Choice → Walk
  | some choice => w.choose choice
  | none => w

@[simp] theorem frames_pushOp (w : Walk) (op : OpId) (result : Option OperandId) :
    (w.pushOp op result).frames = w.frames := rfl
@[simp] theorem frames_choose (w : Walk) (choice : Choice) :
    (w.choose choice).frames = w.frames := rfl
@[simp] theorem frames_chooseAny (w : Walk) (choice : Option Choice) :
    (w.chooseAny choice).frames = w.frames := by
  cases choice <;> rfl

end Walk

namespace Explorer

section Keep

variable {β : Type} {get : Walk → β}
  (hget : ∀ w via target source, get (w.bind via target source) = get w)
include hget

/-- What flowing values keep is the same after values flowed into φs. -/
theorem commitPhis_keep (a : Arena) (w : Walk) (block : BlockId) (source : Option BlockId) :
    get (commitPhis a w block source) = get w := by
  unfold commitPhis
  generalize (a.block block).phis = phis
  induction phis generalizing w with
  | nil => rfl
  | cons phi phis ih =>
    refine (ih _).trans ?_
    dsimp only
    split
    · split
      · exact hget ..
      · rfl
    · rfl

theorem bindParams_keep (t : Terrain) (args : List OperandId) (w : Walk) (params : List OpId) :
    get (bindParams t args w params) = get w := by
  induction params generalizing args w with
  | nil => rfl
  | cons param params ih =>
    refine (ih _ _).trans ?_
    split
    · exact hget ..
    · rfl

theorem bindCaptures_keep (t : Terrain) (w : Walk) (callable : Option OpId) :
    get (bindCaptures t w callable) = get w := by
  unfold bindCaptures
  split
  · rename_i uses _ _
    generalize uses = uses
    induction uses generalizing w with
    | nil => rfl
    | cons bound uses ih =>
      refine (ih _).trans ?_
      dsimp only
      split
      · exact hget ..
      · rfl
  · rfl

end Keep

@[simp] theorem frames_commitPhis (a : Arena) (w : Walk) (block : BlockId)
    (source : Option BlockId) : (commitPhis a w block source).frames = w.frames :=
  commitPhis_keep (fun _ _ _ _ => rfl) a w block source

@[simp] theorem frames_leaveCall (t : Terrain) (w : Walk) (frame : Frame) (rest : List Frame)
    (via : Option OpId) (value : Option OperandId) :
    (leaveCall t w frame rest via value).frames = rest := by
  unfold leaveCall
  dsimp only
  split <;> rfl

end Explorer

namespace Terrain

/-- The arms of a fork, in the order in which they are explored. -/
def arms (t : Terrain) (w : Walk) : OpKind → List Arm
  | .jumpIf cond ifTarget elseTarget =>
    let term := ((⟨t.arena, w.overrides⟩ : Moment).condition cond).value
    [⟨term, .branch cond true, ifTarget⟩, ⟨term.not, .branch cond false, elseTarget⟩]
  | .switch subject cases targets otherwise =>
    let m : Moment := ⟨t.arena, w.overrides⟩
    let equation (case : OperandId) := (m.caseEquality subject case).value
    (cases.zip targets).map (fun (case, target) => ⟨equation case, .case subject case, target⟩)
      ++ [⟨.and (cases.map fun case => (equation case).not), .default subject, otherwise⟩]
  | _ => []

/-- The ways out of a block that is met again. -/
def waysOut (t : Terrain) (block : BlockId) : List (BlockId × Option Choice) :=
  match t.arena.terminator? block with
  | some op => Explorer.exits (t.arena.op op).kind
  | none => []

/-- The function that an operation is followed into, if it is a call: one that can be resolved, is
not active already, and is not too deep. -/
def followed? (t : Terrain) (w : Walk) (op : OpId) : Option FuncId :=
  if (t.arena.op op).kind.callsFunction then do
    let script ← t.resolver.scriptOf? w.func
    let func ← t.resolver.resolve? script w.func op w.overrides
    if w.isActive func || t.limits.maxDepth ≤ w.depth then none else some func
  else none

/-- The walk when the arguments and captured values of a call have flowed into its function. -/
def supplied (t : Terrain) (w : Walk) (call : OpId) (func : FuncId) : Walk :=
  let record := t.arena.func func
  Explorer.bindCaptures t
    (Explorer.bindParams t ((t.arena.op call).kind.operandList .args) w record.params)
    record.callable

/-- The walk at the entry of a function that was called, where the caller goes on at a place of its
own. -/
def called (t : Terrain) (w : Walk) (call : OpId) (func : FuncId) (resumeBlock : BlockId)
    (resumeIndex : Nat) : Walk :=
  let w := t.supplied w call func
  { w with frames := ⟨func, 0, call, resumeBlock, resumeIndex, 0, w.func⟩ :: w.frames, func }

theorem supplied_keep {β : Type} {get : Walk → β}
    (hget : ∀ w via target source, get (w.bind via target source) = get w) (t : Terrain) (w : Walk)
    (call : OpId) (func : FuncId) : get (t.supplied w call func) = get w :=
  (Explorer.bindCaptures_keep hget ..).trans (Explorer.bindParams_keep hget ..)

@[simp] theorem frames_supplied (t : Terrain) (w : Walk) (call : OpId) (func : FuncId) :
    (t.supplied w call func).frames = w.frames :=
  supplied_keep (fun _ _ _ _ => rfl) t w call func

@[simp] theorem func_supplied (t : Terrain) (w : Walk) (call : OpId) (func : FuncId) :
    (t.supplied w call func).func = w.func :=
  supplied_keep (fun _ _ _ _ => rfl) t w call func

/-! ## Costs -/

/-- What entering a block of an invocation for the first time costs at most. -/
def blockCost (t : Terrain) (block : BlockId) : Nat := 4 * (t.arena.block block).ops.length + 8

/-- What entering blocks that are not on the walk costs at most. -/
def freshCost (t : Terrain) (seen : List BlockId) : Nat :=
  ((((List.range t.arena.blocks.size).map BlockId.mk).filter (· ∉ seen)).map t.blockCost).sum

/-- What running from a place of a block costs at most. -/
def fromCost (t : Terrain) (seen : List BlockId) (block : BlockId) (index : Nat) : Nat :=
  t.freshCost seen + 4 * ((t.arena.block block).ops.length - index) + 2

/-- What entering a block costs at most. -/
def intoCost (t : Terrain) (seen : List BlockId) (block : BlockId) : Nat :=
  t.freshCost seen + if block ∈ seen then 4 else 3

/-- What a cost at some depth of calls weighs: more than everything that is deeper. -/
def weight (t : Terrain) (depth : Nat) : Nat :=
  (t.freshCost [] + 3) ^ (t.limits.maxDepth - depth)

/-- What going on in all callers costs at most. -/
def callersCost (t : Terrain) : List Frame → List (List BlockId) → Nat
  | frame :: frames, seen :: callers =>
    t.fromCost seen frame.resumeBlock frame.resumeIndex * t.weight frames.length
      + t.callersCost frames callers
  | _, _ => 0

theorem weight_pos (t : Terrain) (depth : Nat) : 0 < t.weight depth :=
  Nat.pow_pos (by omega)

/-- A cost at a depth is more than one cost less, and all costs one call deeper. -/
theorem weight_succ (t : Terrain) {depth : Nat} (h : depth < t.limits.maxDepth) :
    t.weight depth = t.weight (depth + 1) * (t.freshCost [] + 3) := by
  rw [weight, weight, ← Nat.pow_succ]
  congr 1
  omega

theorem sum_filter_le (cost : BlockId → Nat) {p q : BlockId → Bool}
    (h : ∀ b, q b = true → p b = true) (l : List BlockId) :
    ((l.filter q).map cost).sum ≤ ((l.filter p).map cost).sum := by
  induction l with
  | nil => simp
  | cons b l ih =>
    by_cases hq : q b = true
    · rw [List.filter_cons_of_pos hq, List.filter_cons_of_pos (h b hq)]
      simpa using ih
    · rw [List.filter_cons_of_neg hq]
      by_cases hp : p b = true
      · rw [List.filter_cons_of_pos hp, List.map_cons, List.sum_cons]
        omega
      · rwa [List.filter_cons_of_neg hp]

/-- A block that is entered leaves less that is fresh. -/
theorem sum_filter_cons_le (cost : BlockId → Nat) {block : BlockId} {seen l : List BlockId}
    (hb : block ∉ seen) (hl : block ∈ l) :
    ((l.filter (· ∉ block :: seen)).map cost).sum + cost block ≤
      ((l.filter (· ∉ seen)).map cost).sum := by
  induction l with
  | nil => cases hl
  | cons b l ih =>
    have hle : ((l.filter (· ∉ block :: seen)).map cost).sum ≤
        ((l.filter (· ∉ seen)).map cost).sum :=
      sum_filter_le cost (by simp) l
    by_cases he : b = block
    · subst he
      rw [List.filter_cons_of_neg (by simp), List.filter_cons_of_pos (by simpa using hb),
        List.map_cons, List.sum_cons]
      omega
    · have hl : block ∈ l := (List.mem_cons.1 hl).resolve_left (Ne.symm he)
      have ih := ih hl
      by_cases hseen : b ∈ seen
      · rw [List.filter_cons_of_neg (by simp [hseen]), List.filter_cons_of_neg (by simp [hseen])]
        exact ih
      · rw [List.filter_cons_of_pos (by simp [hseen, he]), List.filter_cons_of_pos (by simp [hseen]),
          List.map_cons, List.map_cons, List.sum_cons, List.sum_cons]
        omega

variable (t : Terrain)

/-! ## Costs go down -/

theorem fromCost_lt_intoCost {seen : List BlockId} {block : BlockId} (h : block ∉ seen) :
    t.fromCost (block :: seen) block 0 < t.intoCost seen block := by
  rw [fromCost, intoCost, if_neg h]
  rcases Nat.lt_or_ge block.index t.arena.blocks.size with hlt | hge
  · have hmem : block ∈ (List.range t.arena.blocks.size).map BlockId.mk :=
      List.mem_map.2 ⟨block.index, List.mem_range.2 hlt, rfl⟩
    have hfresh : t.freshCost (block :: seen) + t.blockCost block ≤ t.freshCost seen :=
      sum_filter_cons_le t.blockCost h hmem
    rw [blockCost] at hfresh
    omega
  · have hops : (t.arena.block block).ops = [] := by simp [Arena.block, hge]; rfl
    have hfresh : t.freshCost (block :: seen) ≤ t.freshCost seen :=
      sum_filter_le t.blockCost (by simp) _
    rw [hops, List.length_nil]
    omega

theorem intoCost_lt_of_seen {seen : List BlockId} {block target : BlockId} (h : block ∈ seen)
    (ht : target ∉ seen) : t.intoCost seen target < t.intoCost seen block := by
  rw [intoCost, intoCost, if_pos h, if_neg ht]
  omega

theorem intoCost_lt_fromCost {seen : List BlockId} {block : BlockId} {index : Nat} {op : OpId}
    (h : (t.arena.block block).ops[index]? = some op) (target : BlockId) :
    t.intoCost seen target < t.fromCost seen block index := by
  have hlt : index < (t.arena.block block).ops.length := (List.getElem?_eq_some_iff.1 h).1
  rw [intoCost, fromCost]
  split <;> omega

theorem fromCost_succ {seen : List BlockId} {block : BlockId} {index : Nat} {op : OpId}
    (h : (t.arena.block block).ops[index]? = some op) :
    t.fromCost seen block index = t.fromCost seen block (index + 1) + 4 := by
  have hlt : index < (t.arena.block block).ops.length := (List.getElem?_eq_some_iff.1 h).1
  rw [fromCost, fromCost]
  omega

theorem fromCost_entry_lt (entry : BlockId) :
    t.fromCost [entry] entry 0 < t.freshCost [] + 3 := by
  have h := t.fromCost_lt_intoCost (List.not_mem_nil : entry ∉ [])
  rw [intoCost, if_neg List.not_mem_nil] at h
  omega

/-- A call that is followed costs less than going on in its place. -/
theorem call_cost_lt (seen : List BlockId) (entry : BlockId) {block : BlockId} {index depth : Nat}
    {op : OpId} (h : (t.arena.block block).ops[index]? = some op) (hd : depth < t.limits.maxDepth) :
    t.fromCost [entry] entry 0 * t.weight (depth + 1)
        + t.fromCost seen block (index + 1) * t.weight depth <
      t.fromCost seen block index * t.weight depth := by
  have hpos := t.weight_pos (depth + 1)
  have hentry : t.fromCost [entry] entry 0 * t.weight (depth + 1) <
      (t.freshCost [] + 3) * t.weight (depth + 1) :=
    Nat.mul_lt_mul_of_pos_right (t.fromCost_entry_lt entry) hpos
  have hweight := t.weight_succ hd
  rw [t.fromCost_succ h, Nat.add_mul]
  rw [Nat.mul_comm] at hweight
  omega

theorem weighed_lt {x y : Nat} (h : x < y) (depth rest : Nat) :
    x * t.weight depth + rest < y * t.weight depth + rest :=
  Nat.add_lt_add_right (Nat.mul_lt_mul_of_pos_right h (t.weight_pos depth)) rest

theorem back_cost_lt (seen : List BlockId) (block : BlockId) (index depth rest : Nat) :
    rest + 1 < t.fromCost seen block index * t.weight depth + rest := by
  have hpos : 1 ≤ t.weight depth := t.weight_pos depth
  have hcost : 2 ≤ t.fromCost seen block index := by rw [fromCost]; omega
  have hmul := Nat.mul_le_mul hcost hpos
  omega

theorem frames_called (w : Walk) (call : OpId) (func : FuncId) (block : BlockId) (index : Nat) :
    (t.called w call func block index).frames =
      ⟨func, 0, call, block, index, 0, w.func⟩ :: w.frames := by
  simp only [called, func_supplied, frames_supplied]

theorem depth_lt_of_followed? {w : Walk} {op : OpId} {func : FuncId}
    (h : t.followed? w op = some func) : w.frames.length < t.limits.maxDepth := by
  unfold followed? at h
  split at h
  case isFalse => cases h
  obtain ⟨script, -, h⟩ := Option.bind_eq_some_iff.1 h
  obtain ⟨f, -, h⟩ := Option.bind_eq_some_iff.1 h
  split at h
  · cases h
  · rename_i hnot
    simp only [Bool.or_eq_true, decide_eq_true_eq, not_or, Nat.not_le] at hnot
    exact hnot.2

/-! ## The exploration -/

mutual

/-- The walks that go on by entering a block from another one. -/
def walksInto (t : Terrain) (s : Scope) (w : Walk) (block : BlockId) (source : Option BlockId) :
    List Walk :=
  if (t.arena.block block).dead then []
  else
    let w' := Explorer.commitPhis t.arena w block source
    if _hseen : block ∈ s.seen then
      (t.waysOut block).flatMap fun (target, choice) =>
        if _ht : target ∈ s.seen then []
        else if (t.arena.block target).dead then []
        else t.walksInto s (w'.chooseAny choice) target (some block)
    else t.walksFrom { s with seen := block :: s.seen } w' block 0
termination_by
  t.intoCost s.seen block * t.weight w.frames.length + t.callersCost w.frames s.callers
decreasing_by
  · rw [Walk.frames_chooseAny, Explorer.frames_commitPhis]
    exact t.weighed_lt (t.intoCost_lt_of_seen _hseen _ht) _ _
  · rw [Explorer.frames_commitPhis]
    exact t.weighed_lt (t.fromCost_lt_intoCost _hseen) _ _

/-- The walks that go on by running a block from a place in it. -/
def walksFrom (t : Terrain) (s : Scope) (w : Walk) (block : BlockId) (index : Nat) : List Walk :=
  match _hop : (t.arena.block block).ops[index]? with
  | none => t.walksBack s w none none
  | some op =>
    let kind := (t.arena.op op).kind
    match kind with
    | .jump target => t.walksInto s w target (some block)
    | .jumpIf .. | .switch .. =>
      (t.arms w kind).flatMap fun arm =>
        if feasible s.assumed arm.assumption then
          t.walksInto { s with assumed := s.assumed ++ [arm.assumption] } (w.choose arm.choice)
            arm.target (some block)
        else []
    | .returns value => t.walksBack s w (some op) value
    | .exit _ | .throws _ => [w]
    | .param .. => t.walksFrom s w block (index + 1)
    | _ =>
      let w' := w.pushOp op kind.result?
      match _hfunc : t.followed? w' op with
      | some func =>
        let entry := (t.arena.func func).entry
        t.walksFrom ⟨[entry], s.seen :: s.callers, s.assumed⟩
          (t.called w' op func block (index + 1)) entry 0
      | none => t.walksFrom s w' block (index + 1)
termination_by
  t.fromCost s.seen block index * t.weight w.frames.length + t.callersCost w.frames s.callers
decreasing_by
  · exact t.back_cost_lt _ _ _ _ _
  · exact t.weighed_lt (t.intoCost_lt_fromCost _hop _) _ _
  · exact t.weighed_lt (t.intoCost_lt_fromCost _hop _) _ _
  · exact t.weighed_lt (t.intoCost_lt_fromCost _hop _) _ _
  · exact t.back_cost_lt _ _ _ _ _
  · exact t.weighed_lt (by rw [t.fromCost_succ _hop]; omega) _ _
  · have hdepth : w.frames.length < t.limits.maxDepth := t.depth_lt_of_followed? _hfunc
    have hlt := t.call_cost_lt s.seen (t.arena.func func).entry _hop hdepth
    rw [frames_called, callersCost, List.length_cons, Walk.frames_pushOp]
    dsimp only
    omega
  · exact t.weighed_lt (by rw [t.fromCost_succ _hop]; omega) _ _

/-- The walks that go on by returning from the running function. -/
def walksBack (t : Terrain) (s : Scope) (w : Walk) (via : Option OpId)
    (value : Option OperandId) : List Walk :=
  match _hw : w.frames, _hs : s.callers with
  | frame :: rest, seen :: callers =>
    t.walksFrom { s with seen, callers } (Explorer.leaveCall t w frame rest via value)
      frame.resumeBlock frame.resumeIndex
  | _, _ => [w]
termination_by t.callersCost w.frames s.callers + 1
decreasing_by
  rw [_hw, _hs, callersCost, Explorer.frames_leaveCall]
  exact Nat.lt_succ_self _

end

/-- The walks from the entry of a function. -/
def walks (t : Terrain) (func : FuncId) : List Walk :=
  t.walksInto {} { func, invocation := 0 } (t.arena.func func).entry none

theorem flatMap_filter {α β : Type} (p : α → Bool) (f : α → List β) (l : List α) :
    (l.filter p).flatMap f = l.flatMap fun a => if p a then f a else [] := by
  induction l with
  | nil => rfl
  | cons a l ih =>
    rw [List.filter_cons, List.flatMap_cons, ← ih]
    split
    · rw [List.flatMap_cons]
    · rw [List.nil_append]

/-- A block that is met again is left through the live blocks that are not on the walk. -/
theorem walksInto_of_seen {s : Scope} {block : BlockId} (hlive : (t.arena.block block).dead = false)
    (hseen : block ∈ s.seen) (w : Walk) (source : Option BlockId) :
    t.walksInto s w block source =
      ((t.waysOut block).filter fun (target, _) =>
          target ∉ s.seen && !(t.arena.block target).dead).flatMap fun (target, choice) =>
        t.walksInto s ((Explorer.commitPhis t.arena w block source).chooseAny choice) target
          (some block) := by
  rw [walksInto, if_neg (Bool.eq_false_iff.1 hlive), dif_pos hseen, flatMap_filter]
  refine congrArg (List.flatMap · _) (funext fun (target, choice) => ?_)
  by_cases ht : target ∈ s.seen
  · simp [ht]
  · cases hdead : (t.arena.block target).dead <;> simp [ht, hdead]

variable {t} {s : Scope} {w : Walk} {block : BlockId} {index : Nat} {op : OpId}

theorem walksFrom_end (h : (t.arena.block block).ops[index]? = none) :
    t.walksFrom s w block index = t.walksBack s w none none := by
  rw [walksFrom.eq_def]
  split
  · rfl
  · rename_i h'
    rw [h] at h'
    cases h'

/-- What comes after the operation at a place, without the proofs that the recursion ends. -/
theorem walksFrom_of_op (h : (t.arena.block block).ops[index]? = some op) :
    t.walksFrom s w block index =
      match (t.arena.op op).kind with
      | .jump target => t.walksInto s w target (some block)
      | .jumpIf .. | .switch .. =>
        (t.arms w (t.arena.op op).kind).flatMap fun arm =>
          if feasible s.assumed arm.assumption then
            t.walksInto { s with assumed := s.assumed ++ [arm.assumption] } (w.choose arm.choice)
              arm.target (some block)
          else []
      | .returns value => t.walksBack s w (some op) value
      | .exit _ | .throws _ => [w]
      | .param .. => t.walksFrom s w block (index + 1)
      | kind =>
        let w' := w.pushOp op kind.result?
        match t.followed? w' op with
        | some func =>
          let entry := (t.arena.func func).entry
          t.walksFrom ⟨[entry], s.seen :: s.callers, s.assumed⟩
            (t.called w' op func block (index + 1)) entry 0
        | none => t.walksFrom s w' block (index + 1) := by
  rw [walksFrom.eq_def]
  split
  · rename_i h'
    rw [h] at h'
    cases h'
  · rename_i op' h'
    obtain rfl : op = op' := Option.some.inj (h.symm.trans h')
    dsimp only
    cases hkind : (t.arena.op op).kind
    case jump | jumpIf | switch | returns | exit | throws | param => rfl
    all_goals
      dsimp only
      split <;> rename_i hfunc <;> rw [hfunc]

theorem walksBack_of_call {via : Option OpId} {value : Option OperandId} {frame : Frame}
    {rest : List Frame} {seen : List BlockId} {callers : List (List BlockId)}
    (hw : w.frames = frame :: rest) (hs : s.callers = seen :: callers) :
    t.walksBack s w via value =
      t.walksFrom { s with seen, callers } (Explorer.leaveCall t w frame rest via value)
        frame.resumeBlock frame.resumeIndex := by
  rw [walksBack.eq_def]
  split
  · rename_i hw' hs'
    obtain ⟨rfl, rfl⟩ := List.cons.inj (hw.symm.trans hw')
    obtain ⟨rfl, rfl⟩ := List.cons.inj (hs.symm.trans hs')
    rfl
  · rename_i hnot
    exact (hnot _ _ _ _ hw hs).elim

theorem walksBack_of_no_call (via : Option OpId) (value : Option OperandId)
    (hw : w.frames = []) : t.walksBack s w via value = [w] := by
  rw [walksBack.eq_def]
  split
  · rename_i hw' _
    rw [hw] at hw'
    cases hw'
  · rfl

end Terrain

/-! ## Forks on known values -/

theorem Term.flattenAnd_map_bool {ν α : Type} (p : α → Bool) (l : List α) :
    Term.flattenAnd (l.map fun x => (.bool (p x) : Term ν)) = if l.all p then some [] else none := by
  induction l with
  | nil => rfl
  | cons x l ih =>
    rw [List.map_cons, List.all_cons]
    cases p x with
    | true => exact ih
    | false => rfl

/-- A conjunction of literals is a literal. -/
theorem Term.and_map_bool {ν α : Type} (p : α → Bool) (l : List α) :
    Term.and (l.map fun x => (.bool (p x) : Term ν)) = .bool (l.all p) := by
  rw [Term.and, Term.flattenAnd_map_bool]
  cases l.all p <;> rfl

namespace Moment

variable {m : Moment} {id : OperandId} {value : Scalar Float}

/-- The value of an operand is known. -/
def Knows (m : Moment) (id : OperandId) (value : Scalar Float) : Prop :=
  m.known? (m.overrides.follow maxChain id) = some (.concrete value)

theorem Knows.meaning (h : m.Knows id value) (depth : Nat) :
    m.meaning depth id = pure (.concrete value) := by
  unfold Knows at h
  cases depth with
  | zero => rw [Moment.meaning, h]
  | succ depth => rw [Moment.meaning, h]

/-- The equation of a known subject and a known case is whether they are equal. -/
theorem Knows.caseEquality {subject case : OperandId} {other : Scalar Float}
    (hsubject : m.Knows subject value) (hcase : m.Knows case other) :
    (m.caseEquality subject case).value = .bool (value.looseEq other) := by
  rw [Moment.caseEquality, hsubject.meaning, hcase.meaning]
  rfl

/-- The condition on a comparison of known values is whether they are equal. -/
theorem condition_of_equal {left right result : OperandId} {other : Scalar Float}
    (hunknown : m.known? (m.overrides.follow maxChain id) = none)
    (hdefinition : m.definition? (m.overrides.follow maxChain id) =
      some (.binary .equal left right result))
    (hleft : m.Knows left value) (hright : m.Knows right other) :
    (m.condition id).value = .bool (value.looseEq other) := by
  have hmeaning : m.meaning maxDepth id = pure (.concrete (.bool (value.looseEq other))) := by
    rw [maxDepth, meaning, hunknown]
    dsimp only
    rw [hdefinition]
    dsimp only
    rw [hleft.meaning, hright.meaning]
    rfl
  rw [condition, hmeaning]
  rfl

end Moment

namespace Terrain

/-- What an operand means at a moment of a walk. -/
abbrev moment (t : Terrain) (w : Walk) : Moment := ⟨t.arena, w.overrides⟩

variable {t : Terrain} {s : Scope} {w : Walk} {block : BlockId} {index : Nat} {op : OpId}

/-- A branch on a known condition is walked in one arm. -/
theorem walksFrom_jumpIf_of_known (hop : (t.arena.block block).ops[index]? = some op)
    {cond : OperandId} {ifTarget elseTarget : BlockId}
    (hkind : (t.arena.op op).kind = .jumpIf cond ifTarget elseTarget) {holds : Bool}
    (hcond : ((t.moment w).condition cond).value = .bool holds) :
    t.walksFrom s w block index =
      t.walksInto { s with assumed := s.assumed ++ [.bool true] } (w.choose (.branch cond holds))
        (if holds then ifTarget else elseTarget) (some block) := by
  rw [walksFrom_of_op hop, hkind]
  simp only [arms, hcond]
  cases holds with
  | true => exact List.append_nil _
  | false => exact List.append_nil _

/-- A branch on a comparison of known values, such as a test of a chain, is walked in the arm of the
answer. -/
theorem walksFrom_jumpIf_of_equal (hop : (t.arena.block block).ops[index]? = some op)
    {cond left right result : OperandId} {ifTarget elseTarget : BlockId}
    (hkind : (t.arena.op op).kind = .jumpIf cond ifTarget elseTarget) {value other : Scalar Float}
    (hunknown : (t.moment w).known? (w.overrides.follow Moment.maxChain cond) = none)
    (hdefinition : (t.moment w).definition? (w.overrides.follow Moment.maxChain cond) =
      some (.binary .equal left right result))
    (hleft : (t.moment w).Knows left value) (hright : (t.moment w).Knows right other) :
    t.walksFrom s w block index =
      t.walksInto { s with assumed := s.assumed ++ [.bool true] }
        (w.choose (.branch cond (value.looseEq other)))
        (if value.looseEq other then ifTarget else elseTarget) (some block) :=
  walksFrom_jumpIf_of_known hop hkind
    (Moment.condition_of_equal hunknown hdefinition hleft hright)

/-- A jump table on a known subject is walked in every case that equals the subject, in their order,
and in the default if there is none. -/
theorem walksFrom_switch_of_known (hop : (t.arena.block block).ops[index]? = some op)
    {subject : OperandId} {cases : List OperandId} {targets : List BlockId} {otherwise : BlockId}
    (hkind : (t.arena.op op).kind = .switch subject cases targets otherwise)
    {value : Scalar Float} {labels : OperandId → Scalar Float}
    (hsubject : (t.moment w).Knows subject value)
    (hcases : ∀ case ∈ cases, (t.moment w).Knows case (labels case)) :
    t.walksFrom s w block index =
      (((cases.zip targets).filter fun c => value.looseEq (labels c.1)).flatMap fun c =>
        t.walksInto { s with assumed := s.assumed ++ [.bool true] }
          (w.choose (.case subject c.1)) c.2 (some block)) ++
      if cases.any fun case => value.looseEq (labels case) then []
      else t.walksInto { s with assumed := s.assumed ++ [.bool true] }
        (w.choose (.default subject)) otherwise (some block) := by
  have hequation (case : OperandId) (hcase : case ∈ cases) :
      ((t.moment w).caseEquality subject case).value =
        .bool (value.looseEq (labels case)) := hsubject.caseEquality (hcases case hcase)
  have hdefault : Term.and (cases.map fun case =>
        ((t.moment w).caseEquality subject case).value.not) =
      .bool (cases.all fun case => !value.looseEq (labels case)) := by
    rw [List.map_congr_left fun case hcase => congrArg Term.not (hequation case hcase)]
    exact Term.and_map_bool _ cases
  rw [walksFrom_of_op hop, hkind]
  simp only [arms, hdefault, List.flatMap_append, List.flatMap_map, List.flatMap_singleton]
  congr 1
  · rw [flatMap_filter]
    refine List.flatMap_congr fun c hc => ?_
    rw [hequation c.1 (List.of_mem_zip hc).1]
    cases value.looseEq (labels c.1) <;> rfl
  · rw [← List.not_any_eq_all_not]
    cases cases.any fun case => value.looseEq (labels case) <;> rfl

end Terrain

end QueryTaint
