import QueryTaint.Proofs.Relabel.Resolve
import QueryTaint.Walk.Explore

/-!
# Walks with new numbers

A walk through an arena inside another one has a twin there: the same events, decisions and calls with
new numbers of entries and invocations, and the same overrides under them (`Walk.Twin`). The value that
flows into a φ, a parameter, a captured variable or the result of a call does not depend on numbers, so
twins stay twins.
-/

namespace QueryTaint

/-- The event with new numbers. -/
def Event.relabel (ρ : Relabel) : Event → Event
  | op id => op (ρ.op id)
  | bind via target source => bind (via.map ρ.op) (ρ.operand target) (source.map ρ.operand)

/-- The decision with new numbers. -/
def Choice.relabel (ρ : Relabel) : Choice → Choice
  | branch cond taken => branch (ρ.operand cond) taken
  | case subject value => case (ρ.operand subject) (ρ.operand value)
  | default subject => default (ρ.operand subject)

/-- The call with new numbers of entries and invocations. -/
def Frame.relabel (ρ : Relabel) (σ : Nat → Nat) (f : Frame) : Frame where
  func := ρ.func f.func
  invocation := σ f.invocation
  call := ρ.op f.call
  resumeBlock := ρ.block f.resumeBlock
  resumeIndex := f.resumeIndex
  callerInvocation := σ f.callerInvocation
  callerFunc := ρ.func f.callerFunc

/-- The same walk with new numbers of entries and invocations. -/
structure Walk.Twin (ρ : Relabel) (σ : Nat → Nat) (w w' : Walk) : Prop where
  func : w'.func = ρ.func w.func
  invocation : w'.invocation = σ w.invocation
  events : w'.events = w.events.map (Event.relabel ρ)
  choices : w'.choices = w.choices.map (Choice.relabel ρ)
  overrides : w.overrides.Twin ρ w'.overrides
  known (x : OperandId) : w'.known.contains (ρ.operand x) = w.known.contains x
  returned : w'.returned = w.returned.map ρ.operand
  frames : w'.frames = w.frames.map (Frame.relabel ρ σ)

namespace Walk.Twin

variable {ρ : Relabel} {σ : Nat → Nat} {w w' : Walk}

theorem start {func func' : FuncId} {invocation invocation' : Nat} (hfunc : func' = ρ.func func)
    (hinvocation : invocation' = σ invocation) :
    Twin ρ σ { func, invocation } { func := func', invocation := invocation' } where
  func := hfunc
  invocation := hinvocation
  events := by simp
  choices := by simp
  overrides := .empty
  known x := by simp
  returned := rfl
  frames := rfl

theorem known_insert (h : w.Twin ρ σ w') (x y : OperandId) :
    (w'.known.insert (ρ.operand x)).contains (ρ.operand y) = (w.known.insert x).contains y := by
  rw [Std.TreeSet.contains_insert, Std.TreeSet.contains_insert, h.known]
  refine congrArg (· || _) (Bool.eq_iff_iff.2 ?_)
  rw [beq_iff_eq, beq_iff_eq]
  exact compare_iff_of_injective ρ.operand_injective x y

theorem pushOp (h : w.Twin ρ σ w') (op : OpId) (result : Option OperandId) :
    (w.pushOp op result).Twin ρ σ (w'.pushOp (ρ.op op) (result.map ρ.operand)) :=
  { h with
    events := by simp [Walk.pushOp, h.events, Event.relabel]
    known := by
      cases result with
      | none => exact h.known
      | some result => exact h.known_insert result }

theorem bind (h : w.Twin ρ σ w') (via : Option OpId) (target : OperandId)
    (source : Option OperandId) :
    (w.bind via target source).Twin ρ σ
      (w'.bind (via.map ρ.op) (ρ.operand target) (source.map ρ.operand)) :=
  { h with
    events := by simp [Walk.bind, h.events, Event.relabel]
    overrides := h.overrides.bind target source
    known := h.known_insert target }

theorem choose (h : w.Twin ρ σ w') (choice : Choice) :
    (w.choose choice).Twin ρ σ (w'.choose (choice.relabel ρ)) :=
  { h with choices := by simp [Walk.choose, h.choices] }

theorem depth (h : w.Twin ρ σ w') : w'.depth = w.depth := by
  rw [Walk.depth, Walk.depth, h.frames, List.length_map]

theorem isActive (h : w.Twin ρ σ w') (func : FuncId) :
    w'.isActive (ρ.func func) = w.isActive func := by
  rw [Walk.isActive, Walk.isActive, h.func, h.frames, List.any_map]
  simp only [Function.comp_def, Frame.relabel, ρ.func_inj]

end Walk.Twin

/-- A terrain among further scripts: its calls are resolved there as they are without them. -/
structure Terrain.Twin (g : Graft) (ι : Nat → Nat) (t t' : Terrain) : Prop where
  resolver : t.resolver.Twin g ι t'.resolver
  grounded : t.resolver.Grounded
  null : t'.null = g.operand t.null
  maxDepth : t'.limits.maxDepth = t.limits.maxDepth

theorem Terrain.Twin.arena {g : Graft} {ι : Nat → Nat} {t t' : Terrain} (ht : t.Twin g ι t') :
    t.arena.Embeds g t'.arena := ht.resolver.arena

namespace Explorer

variable {g : Graft} {ι σ : Nat → Nat} {t t' : Terrain} {w w' : Walk}

/-! ## Values that flow -/

theorem incoming?_twin (h : w.Twin g.toRelabel σ w') (slot : Option Nat) (vars : List OperandId) :
    incoming? slot w'.known (vars.map g.operand) = (incoming? slot w.known vars).map g.operand := by
  have hfind : (vars.map g.operand).find? w'.known.contains =
      (vars.find? w.known.contains).map g.operand := by
    rw [List.find?_map]
    refine congrArg (Option.map g.operand) (congrArg (List.find? · vars) (funext h.known))
  rw [incoming?, incoming?, hfind, List.head?_map, Option.map_or, Option.map_or]
  cases slot with
  | none => rfl
  | some i => simp only [Option.bind_some, List.getElem?_map]

theorem commitPhis_twin {a b : Arena} (ha : a.Embeds g b) (h : w.Twin g.toRelabel σ w')
    (block : BlockId) (source : Option BlockId) :
    (commitPhis a w block source).Twin g.toRelabel σ
      (commitPhis b w' (g.block block) (source.map g.block)) := by
  have hslot : ((source.map g.block).bind fun source =>
      (b.livePreds (g.block block)).findIdx? (· = source)) =
        source.bind fun source => (a.livePreds block).findIdx? (· = source) := by
    cases source with
    | none => rfl
    | some source =>
      simp only [Option.map_some, Option.bind_some, ha.livePreds, List.findIdx?_map,
        Function.comp_def, g.block_inj]
  unfold commitPhis
  dsimp only
  rw [hslot, ha.block, Block.relabel, List.foldl_map]
  generalize (source.bind fun source => (a.livePreds block).findIdx? (· = source)) = slot
  induction (a.block block).phis generalizing w w' with
  | nil => exact h
  | cons phi phis ih =>
    refine ih ?_
    dsimp only
    rw [ha.op, Op.relabel]
    cases (a.op phi).kind with
    | phi vars result =>
      simp only [OpKind.relabel, incoming?_twin h]
      cases incoming? slot w.known vars with
      | none => exact h
      | some value => exact h.bind none result (some value)
    | _ => exact h

theorem bindParams_twin (ht : t.Twin g ι t') (h : w.Twin g.toRelabel σ w') (args : List OperandId)
    (params : List OpId) :
    (bindParams t args w params).Twin g.toRelabel σ
      (bindParams t' (args.map g.operand) w' (params.map g.op)) := by
  induction params generalizing args w w' with
  | nil => exact h
  | cons param params ih =>
    rw [List.map_cons, bindParams, bindParams, ← List.map_tail]
    apply ih
    rw [ht.arena.op, Op.relabel]
    cases (t.arena.op param).kind with
    | param name default defaultBlock byRef variadic type func result =>
      have hvalue : ((args.map g.operand).head?.or (default.map g.operand)).getD t'.null =
          g.operand ((args.head?.or default).getD t.null) := by
        rw [List.head?_map, ← Option.map_or, ht.null]
        cases args.head?.or default <;> rfl
      simp only [OpKind.relabel, hvalue]
      exact h.bind (some param) result (some _)
    | _ => exact h

theorem bindCaptures_twin (ht : t.Twin g ι t') (h : w.Twin g.toRelabel σ w')
    (callable : Option OpId) :
    (bindCaptures t w callable).Twin g.toRelabel σ (bindCaptures t' w' (callable.map g.op)) := by
  have ha := ht.arena
  unfold bindCaptures
  cases callable with
  | none => exact h
  | some op =>
    simp only [Option.map_some, ha.op, Op.relabel]
    cases (t.arena.op op).kind with
    | closure func uses result =>
      simp only [OpKind.relabel, List.foldl_map]
      induction uses generalizing w w' with
      | nil => exact h
      | cons bound uses ih =>
        refine ih ?_
        dsimp only
        rw [ha.operand, Operand.relabel]
        cases (t.arena.operand bound).kind with
        | bound name value byRef scope =>
          cases value with
          | none => exact h
          | some value => exact h.bind none bound (some value)
        | _ => exact h
    | _ => exact h

theorem leaveCall_twin (ht : t.Twin g ι t') (h : w.Twin g.toRelabel σ w') (frame : Frame)
    (rest : List Frame) (via : Option OpId) (value : Option OperandId) :
    (leaveCall t w frame rest via value).Twin g.toRelabel σ
      (leaveCall t' w' (frame.relabel g.toRelabel σ) (rest.map (Frame.relabel g.toRelabel σ))
        (via.map g.op) (value.map g.operand)) := by
  have hkind : (t'.arena.op (g.op frame.call)).kind =
      (t.arena.op frame.call).kind.relabel g.toRelabel :=
    congrArg Op.kind (ht.arena.op frame.call)
  have hleft : Walk.Twin g.toRelabel σ { w with frames := rest, returned := value }
      { w' with
        frames := rest.map (Frame.relabel g.toRelabel σ), returned := value.map g.operand } :=
    { h with frames := rfl, returned := rfl }
  have hback {v v' : Walk} (hv : v.Twin g.toRelabel σ v') : Walk.Twin g.toRelabel σ
      { v with func := frame.callerFunc, invocation := frame.callerInvocation }
      { v' with func := g.func frame.callerFunc, invocation := σ frame.callerInvocation } :=
    { hv with func := rfl, invocation := rfl }
  unfold leaveCall
  dsimp only [Frame.relabel]
  rw [hkind, OpKind.result?_relabel]
  generalize (t.arena.op frame.call).kind.result? = result
  cases (t.arena.op frame.call).kind with
  | new => exact hback hleft
  | _ =>
    cases result with
    | none => exact hback hleft
    | some x => exact hback (hleft.bind via x value)

end Explorer

end QueryTaint
