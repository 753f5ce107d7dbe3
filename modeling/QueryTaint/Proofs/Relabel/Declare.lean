import QueryTaint.Lower.Declare
import QueryTaint.Proofs.Relabel.Control

/-!
# Declarations in different arenas

Functions, classes, constants and static variables are lowered in the same way in different arenas.
The body of a function starts at its entry, which is only known of a function that is there.
-/

namespace QueryTaint.Lower

variable {α β : Type} {g : Graft} {n : Nat}

theorem apart_follows {value : Lowering OperandId} (hvalue : Rebuilds g value) :
    Follows g n (fun made => (g.operand made.1, g.block made.2)) (apart value) (apart value) :=
  .bind (.lift newBlock_mirrors) fun block => .bind (inBlock_follows block (hvalue n)) fun _ =>
    .pure rfl

theorem defaultApart_follows {value : Option (Lowering OperandId)} (h : ∀ x ∈ value, Rebuilds g x) :
    Follows g n (fun made => (made.1.map g.operand, made.2.map g.block)) (defaultApart value)
      (defaultApart value) := by
  cases value with
  | none => exact .pure rfl
  | some value => exact .bind (apart_follows (h value rfl)) fun _ => .pure rfl

/-! ## Functions -/

theorem param_follows (func : FuncId) (entry : BlockId) {p : Param (Lowering OperandId)}
    (h : ∀ x ∈ p.default, Rebuilds g x) :
    Follows g n id (param func entry p) (param (g.func func) (g.block entry) p) := by
  refine .bind (defaultApart_follows h) fun made => .bind (.lift (newString_mirrors p.name))
    fun name => .bind (.lift (newOperand_mirrors (.variable name none) rfl)) fun var =>
    .bind (.lift (newVersion_mirrors var)) fun result => .bind (.lift (detached_mirrors _ rfl p.span))
    fun op => .bind (.lift (bindIn_mirrors entry p.name result)) fun _ => .lift ?_
  refine change_mirrors (fun a => (Arena.Below.append a _ _).trans (.modifyFunc _ _ _))
    fun _ _ h => (h.append entry op).modifyFunc func fun f => ?_
  simp [Func.relabel]

theorem finishBody_mirrors : Mirrors g n id finishBody finishBody := by
  have hcomplete : Mirrors g n id (do
      let pending := (← get).scope.pending
      changeScope fun s => { s with complete := true, pending := #[] }
      completePhis pending.toList) (do
      let pending := (← get).scope.pending
      changeScope fun s => { s with complete := true, pending := #[] }
      completePhis pending.toList) := by
    refine .get (fun b b' hb => by rw [hb.scope.pending]) fun b => ?_
    refine .bind (changeScope_mirrors fun s s' hs => ?_) fun _ => ?_
    · exact { hs with complete := rfl, pending := by simp }
    · rw [Array.toList_map]
      exact completePhis_mirrors b.scope.pending.toList
  refine .get (fun b b' hb => by rw [hb.block]) fun b => ?_
  refine .bind (isDead_mirrors b.block) fun dead => ?_
  cases dead with
  | true => exact hcomplete
  | false => exact .bind (emit_mirrors _ rfl .none) fun _ => hcomplete

/-- A step in the body of another function. What was known before is known again afterwards. -/
def inside (func : FuncId) (entry : BlockId) (step : Lowering Unit) : Lowering Unit := do
  let outer := ((← get).func, (← get).scope, (← get).block)
  modify fun b => { b with func, scope := {}, block := entry }
  step
  modify fun b => { b with func := outer.1, scope := outer.2.1, block := outer.2.2 }

theorem run_inside (func : FuncId) (entry : BlockId) (step : Lowering Unit) (b : Builder) :
    (inside func entry step).run.run b =
      let r := step.run.run { b with func, scope := {}, block := entry }
      match r.1 with
      | .ok _ => (.ok (), { r.2 with func := b.func, scope := b.scope, block := b.block })
      | .error e => (.error e, r.2) := by
  change (let r := step.run.run { b with func, scope := {}, block := entry }
    (ExceptT.bindCont (fun _ => modify fun c : Builder =>
      { c with func := b.func, scope := b.scope, block := b.block }) r.1 :
        Build (Except Error Unit)).run r.2) = _
  dsimp only
  cases (step.run.run { b with func, scope := {}, block := entry }).1 <;> rfl

theorem inside_follows (func : FuncId) (entry : BlockId) {step step' : Lowering Unit}
    (h : Follows g n id step step') :
    Follows g n id (inside func entry step) (inside (g.func func) (g.block entry) step') where
  widens b := by
    have hstep := h.widens { b with func, scope := {}, block := entry }
    rw [run_inside]
    dsimp only
    split
    · exact hstep
    · exact hstep
  twin {b b'} hb hn hlimit := by
    rw [run_inside] at hlimit ⊢
    rw [run_inside]
    dsimp only at hlimit ⊢
    have hstart : Builder.Twin g { b with func, scope := {}, block := entry }
        { b' with func := g.func func, scope := {}, block := g.block entry } :=
      { hb with scope := .empty _, func := rfl, block := rfl }
    have hbelow : (step.run.run { b with func, scope := {}, block := entry }).2.arena.Below
        g.limit := by
      revert hlimit
      cases (step.run.run { b with func, scope := {}, block := entry }).1 <;> exact id
    obtain ⟨hresult, htwin⟩ := h.twin hstart hn hbelow
    rw [hresult]
    cases (step.run.run { b with func, scope := {}, block := entry }).1 with
    | error e => exact ⟨rfl, htwin⟩
    | ok _ => exact ⟨rfl, { htwin with scope := hb.scope, func := hb.func, block := hb.block }⟩

theorem captured_follows (entry : BlockId) (captured : List (String × OperandId)) :
    Follows g n id
      (captured.forM fun (name, value) => (liftM (bindIn entry name value) : Lowering Unit))
      ((captured.map fun c => (c.1, g.operand c.2)).forM fun (name, value) =>
        (liftM (bindIn (g.block entry) name value) : Lowering Unit)) :=
  .forM fun c _ => .lift (bindIn_mirrors entry c.1 c.2)

theorem params_follows (func : FuncId) (entry : BlockId) {params : List (Param (Lowering OperandId))}
    (h : ∀ p ∈ params, ∀ x ∈ p.default, Rebuilds g x) :
    Follows g n id (params.forM (param func entry))
      (params.forM (param (g.func func) (g.block entry))) :=
  .forM_same fun p hp => param_follows func entry (h p hp)

/-- What the body of a function does after it is entered. -/
def fillBody (func : FuncId) (captured : List (String × OperandId))
    (params : List (Param (Lowering OperandId))) (steps : List (Lowering Unit)) (entry : BlockId) :
    Lowering Unit := do
  captured.forM fun (name, value) => bindIn entry name value
  params.forM (param func entry)
  inOrder steps
  finishBody

theorem body_eq (func : FuncId) (captured : List (String × OperandId))
    (params : List (Param (Lowering OperandId))) (steps : List (Lowering Unit)) :
    body func captured params steps =
      look (fun a => (a.func func).entry) >>= fun entry =>
        inside func entry (fillBody func captured params steps entry) := by
  simp only [body, inside, fillBody, bind_assoc]

/-- The entry of a function is known if the function is there. -/
theorem entry_follows {func : FuncId} (hfunc : func.index < n) {f : α → β} {k : BlockId → Lowering α}
    {k' : BlockId → Lowering β} (hk : ∀ entry, Follows g n f (k entry) (k' (g.block entry))) :
    Follows g n f (look (fun a => (a.func func).entry) >>= k)
      (look (fun a => (a.func (g.func func)).entry) >>= k') where
  widens b := (hk (b.arena.func func).entry).widens b
  twin {b b'} hb hn hlimit := by
    have hentry : (b'.arena.func (g.func func)).entry = g.block (b.arena.func func).entry := by
      rw [hb.arena.func (Nat.lt_of_lt_of_le hfunc hn)]
      rfl
    have htwin := (hk (b.arena.func func).entry).twin hb hn hlimit
    rw [← hentry] at htwin
    exact htwin

theorem body_follows {func : FuncId} (hfunc : func.index < n) (captured : List (String × OperandId))
    {params : List (Param (Lowering OperandId))} {steps : List (Lowering Unit)}
    (hparams : ∀ p ∈ params, ∀ x ∈ p.default, Rebuilds g x) (hsteps : ∀ x ∈ steps, Repeats g x) :
    Follows g n id (body func captured params steps)
      (body (g.func func) (captured.map fun c => (c.1, g.operand c.2)) params steps) := by
  have hfill (entry : BlockId) : Follows g n id (fillBody func captured params steps entry)
      (fillBody (g.func func) (captured.map fun c => (c.1, g.operand c.2)) params steps
        (g.block entry)) :=
    .bind (captured_follows entry captured) fun _ =>
      .bind (params_follows func entry hparams) fun _ => .bind (inOrder_repeats hsteps n) fun _ =>
      .lift finishBody_mirrors
  rw [body_eq, body_eq]
  exact entry_follows hfunc fun entry => inside_follows func entry (hfill entry)

theorem newFunc_mirrors (name : String) (span : Span) (returnType : Option TypeHint) (flags : Nat)
    (cls : Option String) : Mirrors g n g.func (newFunc name span returnType flags cls)
      (newFunc name span returnType flags cls) := by
  refine .get (fun b b' hb => by rw [hb.script.path]) fun b => ?_
  exact .bind (build_mirrors (fun a => .newFunc a name) fun _ _ h hlimit => h.newFunc name hlimit)
    fun func => .bind (modifyFunc_mirrors func fun _ => rfl) fun _ => .pure rfl

theorem newFunc_lt (name : String) (span : Span) (returnType : Option TypeHint) (flags : Nat)
    (cls : Option String) (b : Builder) :
    Gives (newFunc name span returnType flags cls) b fun func b' =>
      func.index + 1 ≤ b'.arena.funcs.size := by
  change b.arena.funcs.size + 1 ≤ (((b.arena.newFunc name).2.modifyFunc _ _).funcs.size)
  simp [Arena.newFunc, Arena.modifyFunc]

/-- What comes after a function is made may rely on it. -/
theorem newFunc_follows (name : String) (span : Span) (returnType : Option TypeHint) (flags : Nat)
    (cls : Option String) {f : α → β} {k : FuncId → Lowering α} {k' : FuncId → Lowering β}
    (hk : ∀ func : FuncId, Follows g (func.index + 1) f (k func) (k' (g.func func))) :
    Follows g n f (liftM (newFunc name span returnType flags cls) >>= k)
      (liftM (newFunc name span returnType flags cls) >>= k') where
  widens b := ((newFunc_mirrors (g := g) (n := n) name span returnType flags cls).widens b).trans
    ((hk _).widens _)
  twin {b b'} hb hn hlimit := by
    have hmade := newFunc_mirrors (g := g) (n := n) name span returnType flags cls
    let func := ((newFunc name span returnType flags cls).run b).1
    let b₁ := ((newFunc name span returnType flags cls).run b).2
    obtain ⟨hfunc, hb₁⟩ := hmade.twin hb hn (((hk func).widens b₁).trans hlimit)
    have htwin := (hk func).twin hb₁ (newFunc_lt name span returnType flags cls b) hlimit
    rw [← hfunc] at htwin
    exact htwin

theorem setCallable_mirrors (func : FuncId) (op : OpId) :
    Mirrors g n id (setCallable func op) (setCallable (g.func func) (g.op op)) :=
  modifyFunc_mirrors func fun _ => rfl

theorem listFunction_mirrors (name : String) (func : FuncId) :
    Mirrors g n id (listFunction name func) (listFunction name (g.func func)) :=
  modify_mirrors (fun _ => rfl) fun _ _ hb => { hb with script := hb.script.addFunction name func }

section Functions

variable {params : List (Param (Lowering OperandId))} {steps : List (Lowering Unit)}

theorem function_repeats (name : String) (hparams : ∀ p ∈ params, ∀ x ∈ p.default, Rebuilds g x)
    (byRef : Bool) (returnType : Option TypeHint) (hsteps : ∀ x ∈ steps, Repeats g x) (span : Span) :
    Repeats g (function name params byRef returnType steps span) := fun _ =>
  newFunc_follows name span returnType _ none fun func => .bind (.lift (emit_mirrors _ rfl span))
    fun op => .bind (.lift (setCallable_mirrors func op)) fun _ =>
    .bind (body_follows (Nat.lt_succ_self _) [] hparams hsteps) fun _ =>
    .lift (listFunction_mirrors name func)

theorem scopedName_embeds {a a' : Arena} (h : Arena.Embeds g a a') (f : FuncId) :
    (a'.func (g.func f)).scopedName = id (a.func f).scopedName := h.scopedName_func f

theorem method_repeats (name : String) (modifiers : Nat)
    (hparams : ∀ p ∈ params, ∀ x ∈ p.default, Rebuilds g x) (byRef : Bool)
    (returnType : Option TypeHint) (hsteps : ∀ x ∈ steps, Repeats g x) (span : Span) :
    Repeats g (method name modifiers params byRef returnType steps span) := fun n => by
  refine .get (fun b b' hb => by rw [hb.cls]) fun b => ?_
  exact newFunc_follows name span returnType _ b.cls fun func =>
    .bind (.lift (emit_mirrors _ rfl span)) fun op => .bind (.lift (setCallable_mirrors func op))
    fun _ => .bind (body_follows (Nat.lt_succ_self _) [] hparams hsteps) fun _ =>
    .look (fun _ _ h => scopedName_embeds h func) fun name => .lift (listFunction_mirrors name func)

/-- A captured variable with new numbers. -/
def relabelCapture (g : Graft) (c : String × OperandId) : String × OperandId := (c.1, g.operand c.2)

theorem captures_mirrors (uses : List Capture) :
    Mirrors g n (List.map (relabelCapture g)) (captures uses) (captures uses) := by
  induction uses with
  | nil => exact .pure rfl
  | cons used rest ih =>
    refine .get (fun b b' hb => by rw [hb.block]) fun b => ?_
    exact .bind (readName_mirrors used.name b.block) fun value =>
      .bind (newString_mirrors used.name) fun name =>
      .bind (newOperand_mirrors (.bound name (some value) used.byRef .locals) rfl) fun _ =>
      .bind ih fun _ => .pure rfl

theorem nextName_mirrors : Mirrors g n id
    (modifyGet fun b : Builder =>
      let (name, labels) := b.labels.nextFunction
      (name, { b with labels }))
    (modifyGet fun b : Builder =>
      let (name, labels) := b.labels.nextFunction
      (name, { b with labels })) where
  widens b := .refl b.arena
  twin {b b'} hb _ _ := by
    have hlabels := hb.labels
    constructor
    · change b'.labels.nextFunction.1 = b.labels.nextFunction.1
      rw [hlabels]
    · change Builder.Twin g { b with labels := b.labels.nextFunction.2 }
        { b' with labels := b'.labels.nextFunction.2 }
      exact { hb with labels := by rw [hlabels] }

theorem closure_rebuilds (hparams : ∀ p ∈ params, ∀ x ∈ p.default, Rebuilds g x) (uses : List Capture)
    (byRef isStatic : Bool) (returnType : Option TypeHint) (hsteps : ∀ x ∈ steps, Repeats g x)
    (span : Span) : Rebuilds g (closure params uses byRef isStatic returnType steps span) := fun n =>
  .bind (.lift nextName_mirrors) fun name => newFunc_follows name span returnType _ none fun func =>
    .bind (.lift (captures_mirrors uses)) fun captured =>
    .bind (body_follows (Nat.lt_succ_self _) captured hparams hsteps) fun _ =>
    .bind (.lift (listFunction_mirrors name func)) fun _ => .bind (.lift newResult_mirrors)
    fun result => .bind (.lift (emit_mirrors _ (by simp [OpKind.relabel, relabelCapture]) span))
    fun op => .bind (.lift (setCallable_mirrors func op)) fun _ => .pure rfl

end Functions

/-! ## Classes, constants and static variables -/

theorem setClass_follows (cls : Option String) :
    Follows g n id (modify fun b : Builder => { b with cls }) (modify fun b : Builder => { b with cls }) :=
  .lift (modify_mirrors (fun _ => rfl) fun _ _ hb => { hb with cls := rfl })

theorem names_follows (names : List Name) :
    Follows g n (List.map g.operand)
      (names.mapM fun i => (liftM (newString i.joined) : Lowering OperandId))
      (names.mapM fun i => (liftM (newString i.joined) : Lowering OperandId)) :=
  .mapM_same fun i _ => .lift (newString_mirrors i.joined)

theorem classDecl_repeats (kind : ClassKind) (name : String) (modifiers : Nat) (parent : Option Name)
    (implements : List Name) {steps : List (Lowering Unit)} (hsteps : ∀ x ∈ steps, Repeats g x)
    (span : Span) : Repeats g (classDecl kind name modifiers parent implements steps span) := by
  refine fun n => .get (fun b b' hb => by rw [hb.cls]) fun b => ?_
  refine .bind (.lift newBlock_mirrors) fun block => .bind (inBlock_follows block (.bind (setClass_follows (some name)) fun _ =>
      .bind (inOrder_repeats hsteps n) fun _ => setClass_follows b.cls)) fun _ =>
    .bind (.lift (newString_mirrors name)) fun name => ?_
  have hrest (parent : Option OperandId) : Follows g n id (do
      let implements ← implements.mapM fun i => newString i.joined
      let _ ← emit (.classDecl kind name block modifiers parent implements) span) (do
      let implements ← implements.mapM fun i => newString i.joined
      let _ ← emit (.classDecl kind (g.operand name) (g.block block) modifiers (parent.map g.operand)
        implements) span) :=
    .bind (names_follows implements) fun _ => .bind (.lift (emit_mirrors _ rfl span)) fun _ =>
      .pure rfl
  cases parent with
  | none => exact hrest none
  | some parent =>
    exact .bind (.lift (newString_mirrors parent.joined)) fun x => hrest (some x)

/-- A property whose value is an input makes its function read input. -/
theorem propertyDefault_follows (default : Option OperandId) (block : Option BlockId)
    {rest rest' : Lowering Unit} (hrest : Follows g n id rest rest') :
    Follows g n id
      (do
        match default, block with
        | some value, some block =>
          if ← look fun a => (a.operand value).tainted then
            changeFunc fun f => { f with readsInput := true }
            change (·.modifyBlock block fun b => { b with readsInput := true })
        | _, _ => pure ()
        rest)
      (do
        match default.map g.operand, block.map g.block with
        | some value, some block =>
          if ← look fun a => (a.operand value).tainted then
            changeFunc fun f => { f with readsInput := true }
            change (·.modifyBlock block fun b => { b with readsInput := true })
        | _, _ => pure ()
        rest') := by
  cases default with
  | none => exact hrest
  | some value =>
    cases block with
    | none => exact hrest
    | some block =>
      refine .look (f := id) (fun _ _ h => tainted_embeds h value) fun tainted => ?_
      cases tainted with
      | false => exact hrest
      | true =>
        exact .bind (.lift (changeFunc_mirrors fun _ => rfl)) fun _ =>
          .bind (.lift (modifyBlock_mirrors block fun _ => rfl)) fun _ => hrest

theorem propertyDecl_repeats (modifiers : Nat) (type : DeclaredType)
    {p : Declared (Lowering OperandId)} (h : ∀ x ∈ p.default, Rebuilds g x) :
    Repeats g (propertyDecl modifiers type p) := fun _ =>
  .bind (defaultApart_follows h) fun made => propertyDefault_follows made.1 made.2
    (.bind (.lift (newString_mirrors p.name)) fun _ => .bind (.lift (emit_mirrors _ rfl p.span))
      fun _ => .pure rfl)

theorem constDecl_repeats (inClass : Bool) {c : ConstDecl (Lowering OperandId)}
    (h : Rebuilds g c.value) : Repeats g (constDecl inClass c) := fun n => by
  refine .bind (apart_follows h) fun made => .get (fun b b' hb => by rw [hb.cls]) fun b => ?_
  exact .bind (.lift (newString_mirrors _)) fun _ => .bind (.lift (emit_mirrors _ rfl c.span))
    fun _ => .lift (define_mirrors _ made.1)

theorem staticVar_repeats {v : Declared (Lowering OperandId)} (h : ∀ x ∈ v.default, Rebuilds g x) :
    Repeats g (staticVar v) := fun n => by
  refine .bind (defaultApart_follows h) fun made => .bind (.lift (newString_mirrors v.name))
    fun name => .bind (.lift (newOperand_mirrors (.bound name made.1 false .function) rfl))
    fun bound => .get (fun b b' hb => by rw [hb.block]) fun b => ?_
  exact .bind (.lift (bindIn_mirrors b.block v.name bound)) fun _ =>
    .bind (.lift (emit_mirrors _ rfl v.span)) fun _ => .pure rfl

/-- The operands of removed variables with new numbers. -/
def relabelUnset (g : Graft) (made : List OperandId × List OperandId) :
    List OperandId × List OperandId :=
  (made.1.map g.operand, made.2.map g.operand)

theorem unset_follows {steps : List (Bool × Lowering OperandId)} (h : ∀ s ∈ steps, Rebuilds g s.2) :
    Follows g n (relabelUnset g) (unset steps) (unset steps) := by
  induction steps with
  | nil => exact .pure rfl
  | cons s rest ih =>
    obtain ⟨hs, hrest⟩ := List.forall_mem_cons.1 h
    obtain ⟨named, step⟩ := s
    refine .bind (hs n) fun raw => .bind (.lift (readVariable_mirrors raw)) fun read => ?_
    cases named with
    | true =>
      exact .bind (.lift (writeVariable_mirrors raw)) fun _ => .bind (ih hrest) fun _ => .pure rfl
    | false =>
      exact .bind (.lift newResult_mirrors) fun _ => .bind (ih hrest) fun _ => .pure rfl

end QueryTaint.Lower
