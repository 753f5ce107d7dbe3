import QueryTaint.Program
import QueryTaint.Proofs.Lower.Law
import QueryTaint.Proofs.Version.Build
import QueryTaint.Proofs.Version.Control

/-!
# Versions in bodies, files and programs

The body of a function is lowered with a scope of its own, and the outer body goes on as it was, since
the blocks of the function are none of its blocks (`body_next`). So lowering any syntax tree keeps what
is known of a builder (`versioning`), and after any files were lowered, φs join versions of their
variables (`Program.versioned_of_files`).
-/

namespace QueryTaint

namespace Version

open Lower

variable {b b' : Builder} {G : Set BlockId} {func : FuncId} {entry : BlockId}
  {params : List (Param (Lowering OperandId))} {steps : List (Lowering Unit)}

/-! ## Values of their own blocks -/

theorem enclose_goes {α β : Type} {x : Lowering α} {next : BlockId → α → Lowering β} (hx : Goes ∅ x)
    (hnext : ∀ block y, Goes ∅ (next block y)) : Goes G (do
      let block ← newBlock
      let y ← inBlock block x
      next block y) :=
  .newBlock fun block => .bind (inBlock_goes (Set.mem_insert ..) hx.anywhere) fun y =>
    (hnext block y).anywhere

theorem defaultApart_goes {value : Option (Lowering OperandId)} (h : ∀ x ∈ value, Goes ∅ x) :
    Goes G (defaultApart value) := by
  cases value with
  | none => exact .pure _
  | some value =>
    have hapart : Goes G (apart value) := enclose_goes (h value rfl) fun _ _ => .pure _
    exact .bind hapart fun _ => .pure _

theorem param_goes (func : FuncId) (entry : BlockId) {p : Param (Lowering OperandId)}
    (hp : ∀ x ∈ p.default, Goes ∅ x) : Goes G (param func entry p) := by
  refine .bind (defaultApart_goes hp) fun made => ?_
  obtain ⟨default, defaultBlock⟩ := made
  intro b hb hG
  refine Yields.bind (.lift (newString_names hb.apt.joins hb.apt.laid p.name)) ?_
  rintro name b₁ ⟨h₁, hname⟩
  refine Yields.bind (.lift (newOperand_kind h₁.joins h₁.laid (.variable name none))) ?_
  rintro var b₂ ⟨h₂, hvar⟩
  refine Yields.bind (.lift (newTemporary_names h₂.joins h₂.laid hvar (h₂.later.stringOf? hname))) ?_
  rintro result b₃ ⟨h₃, hresult⟩
  refine Yields.bind (.lift (detached_filled h₃.joins h₃.laid (.of_sole? rfl) p.span)) fun op b₄ h₄ => ?_
  have hb₄ := hb.filled (((h₁.trans h₂).trans h₃).trans h₄)
  refine Yields.bind (.lift (bindIn_next hb₄.isOpen (h₄.later.nameOf? hresult) entry)) fun _ b₅ h₅ => ?_
  have hplaced (a : Arena) : a.Spares ((a.append entry op).modifyFunc func fun f =>
      { f with params := f.params ++ [op] }) :=
    (Arena.Spares.append a entry op).trans (.modifyFunc _ func fun _ => rfl)
  exact .lift (((change_fills hplaced).runs (G := ∅) h₅.isOpen fun _ => nofun).mono
    fun _ _ h₆ => (hb₄.trans h₅).trans h₆)

/-- An operand that stands for a captured or static variable has the name of the variable. -/
theorem newBound_names (hjoins : b.arena.Joins) (hlaid : b.arena.Laid) {name : OperandId}
    {text : String} (hname : b.arena.stringOf? name = some text) (value : Option OperandId)
    (byRef : Bool) (scope : VarScope) :
    Gives (newOperand (.bound name value byRef scope)) b fun x b' => Filled b b' ∧
      b'.arena.nameOf? x = some text :=
  (newOperand_kind hjoins hlaid (.bound name value byRef scope)).mono fun _ _ ⟨h, hkind⟩ =>
    ⟨h, (Arena.nameOf?_bound hkind).trans (h.later.stringOf? hname)⟩

theorem staticVar_goes {v : Declared (Lowering OperandId)} (hv : ∀ x ∈ v.default, Goes ∅ x) :
    Goes G (staticVar v) := by
  refine .bind (defaultApart_goes hv) fun made => ?_
  obtain ⟨default, defaultBlock⟩ := made
  intro b hb hG
  refine Yields.bind (.lift (newString_names hb.apt.joins hb.apt.laid v.name)) ?_
  rintro name b₁ ⟨h₁, hname⟩
  refine Yields.bind (.lift (newBound_names h₁.joins h₁.laid hname default false .function)) ?_
  rintro bound b₂ ⟨h₂, hbound⟩
  have hb₂ := hb.filled (h₁.trans h₂)
  refine Yields.get (Yields.bind (.lift (bindIn_next hb₂.isOpen hbound b₂.block)) fun _ b₃ h₃ => ?_)
  have h₃ := hb₂.trans h₃
  have hplace : Fills (emit (.staticVar bound default defaultBlock) v.span) := emit_fills rfl v.span
  exact (Goes.build hplace.runs (fun _ => .pure ()) h₃.isOpen (hG.next h₃)).mono fun _ _ => h₃.trans

/-! ## Bodies -/

/-- A function that is made has no φs yet. -/
structure Vacant (a : Arena) (func : FuncId) : Prop where
  lt : func.index < a.funcs.size
  entry : (a.block (a.func func).entry).func = some func
  free : ∀ block, (a.block block).func = some func → (a.block block).phis = []

/-- The builder when lowering the body of a function starts. -/
def entering (b : Builder) (func : FuncId) : Builder :=
  { b with func, scope := {}, block := (b.arena.func func).entry }

/-- Lowering the body of a function starts with an empty scope. -/
theorem Vacant.enter (hv : Vacant b.arena func) (hjoins : b.arena.Joins) (hlaid : b.arena.Laid) :
    Open (entering b func) := by
  have hnone (block : BlockId) (name : String) : ({} : Scope).lookup block name = none := by
    simp [Scope.lookup]
  refine ⟨⟨hjoins, hlaid, hv.entry, fun {block name x} hx => ?_, fun {name target} ht => ?_, ?_, ?_, ?_,
    ?_⟩, rfl⟩
  · cases (hnone block name).symm.trans hx
  · simp [entering] at ht
  · simp [entering]
  · simp [entering]
  · exact List.Pairwise.nil
  · intro block phi name hfunc hphi
    change phi ∈ (b.arena.block block).phis at hphi
    rw [hv.free block hfunc] at hphi
    cases hphi

/-- After the parameters and statements of a body no φ waits any more. -/
theorem inside_yields (func : FuncId) (entry : BlockId) {captured : List (String × OperandId)}
    (hcaptured : ∀ c ∈ captured, b.arena.nameOf? c.2 = some c.1)
    (hparams : ∀ p ∈ params, ∀ x ∈ p.default, Goes ∅ x) (hsteps : ∀ x ∈ steps, Goes ∅ x)
    (hb : Open b) :
    Yields (do
      captured.forM fun (name, value) => bindIn entry name value
      params.forM (param func entry)
      inOrder steps
      finishBody : Lowering Unit) b fun _ b' => Apt [] b' ∧ After {b.func} b b' := by
  have hbind : Yields (captured.forM fun (name, value) =>
      (bindIn entry name value : Lowering Unit)) b fun _ b₁ => Next b b₁ := by
    induction captured generalizing b with
    | nil => exact .pure hb.next
    | cons c rest ih =>
      obtain ⟨hc, hrest⟩ := List.forall_mem_cons.1 hcaptured
      refine Yields.bind (.lift (bindIn_next hb hc entry)) fun _ b₁ h₁ => ?_
      exact (ih (fun c hc => h₁.after.later.nameOf? (hrest c hc)) h₁.isOpen).mono fun _ _ => h₁.trans
  refine Yields.bind hbind fun _ b₁ h₁ => ?_
  have hdeclared : Goes ∅ (params.forM (param func entry)) :=
    .forM fun p hp => param_goes func entry (hparams p hp)
  refine Yields.bind (hdeclared h₁.isOpen fun _ => nofun) fun _ b₂ h₂ => ?_
  refine Yields.bind (inOrder_goes hsteps h₂.isOpen fun _ => nofun) fun _ b₃ h₃ => ?_
  have h₃ := (h₁.trans h₂).trans h₃
  have hclosed := finishBody_closes h₃.isOpen
  rw [h₃.after.func] at hclosed
  exact .lift (hclosed.mono fun _ _ ⟨hapt, hafter⟩ =>
    ⟨hapt, (h₃.after.mono (Set.empty_subset _)).trans hafter⟩)

/-- A body is lowered, and the builder is where it was before. -/
theorem body_yields {captured : List (String × OperandId)} {Q : Builder → Prop}
    (hv : Vacant b.arena func) (hjoins : b.arena.Joins) (hlaid : b.arena.Laid)
    (hcaptured : ∀ c ∈ captured, b.arena.nameOf? c.2 = some c.1)
    (hparams : ∀ p ∈ params, ∀ x ∈ p.default, Goes ∅ x) (hsteps : ∀ x ∈ steps, Goes ∅ x)
    (hQ : ∀ b', Apt [] b' → After {func} (entering b func) b' →
      Q { b' with func := b.func, scope := b.scope, block := b.block }) :
    Yields (body func captured params steps) b fun _ b' => Q b' := by
  refine .look (.get (.get (.get ?_)))
  refine Yields.bind (P := fun _ b₁ => b₁ = entering b func) (.of_run rfl rfl) ?_
  rintro _ _ rfl
  have hopen : Open (entering b func) := hv.enter hjoins hlaid
  have hcaptured : ∀ c ∈ captured, (entering b func).arena.nameOf? c.2 = some c.1 := hcaptured
  have hinside := inside_yields func (b.arena.func func).entry hcaptured hparams hsteps hopen
  have hresumed := hinside.bind (T := fun _ b' => Q b')
    (f := fun _ => modify fun b' => { b' with func := b.func, scope := b.scope, block := b.block })
    fun _ b' ⟨hapt, hafter⟩ => .of_run rfl (hQ b' hapt hafter)
  simp only [bind_assoc] at hresumed
  exact hresumed

/-- The outer body goes on as it was. -/
theorem Open.resume (hb : Open b) (hne : func ≠ b.func) (hapt : Apt [] b')
    (hafter : After {func} (entering b func) b') :
    Open { b' with func := b.func, scope := b.scope, block := b.block } ∧
      After {func} b { b' with func := b.func, scope := b.scope, block := b.block } := by
  have hne : some b.func ≠ some func := fun heq => hne (Option.some.inj heq).symm
  refine ⟨⟨?_, hb.building⟩, hafter.later, rfl, hafter.phis, fun block hge hlt => ?_⟩
  · refine (hb.apt.later hafter.later hapt.joins hapt.laid fun block hblock => ?_).congr rfl rfl rfl rfl
    rcases Nat.lt_or_ge block.index b.arena.blocks.size with hlt | hge
    · refine hafter.phis block hlt fun f hf => ?_
      rw [Set.mem_singleton_iff.1 hf, ← hafter.later.owner block hlt, hblock]
      exact hne
    · obtain ⟨f, hf, hwhich⟩ := hafter.made block hge (Arena.lt_of_func hblock)
      rw [hblock] at hf
      cases hf
      rcases hwhich with heq | hmem | hnew
      · exact absurd (congrArg some heq) hne
      · exact absurd (congrArg some hmem) hne
      · exact absurd (hb.apt.laid.func_lt hb.apt.here) (Nat.not_lt.2 hnew)
  · obtain ⟨f, hf, hwhich⟩ := hafter.made block hge hlt
    exact ⟨f, hf, hwhich.elim (fun heq => .inr (.inl heq)) .inr⟩

/-! ## Functions -/

/-- A function has been made since some step, and its body is not lowered yet. -/
structure Fresh (b₀ b : Builder) (func : FuncId) : Prop where
  start : Open b₀
  next : Next b₀ b
  new : b₀.arena.funcs.size ≤ func.index
  vacant : Vacant b.arena func

variable {b₀ : Builder}

theorem Fresh.other (h : Fresh b₀ b func) : func ≠ b.func := by
  rw [h.next.after.func]
  rintro rfl
  exact Nat.not_lt.2 h.new (h.start.apt.laid.func_lt h.start.apt.here)

/-- Further steps of the outer body make no φs for it. -/
theorem Fresh.trans (h : Fresh b₀ b func) (h' : Next b b') : Fresh b₀ b' func := by
  refine ⟨h.start, h.next.trans h', h.new, Nat.lt_of_lt_of_le h.vacant.lt h'.after.later.funcs, ?_,
    fun block hblock => ?_⟩
  · rw [h'.after.later.entry func h.vacant.lt]
    exact h'.after.later.func h.vacant.entry
  · rcases Nat.lt_or_ge block.index b.arena.blocks.size with hlt | hge
    · rw [h'.after.phis block hlt fun _ => nofun]
      exact h.vacant.free block ((h'.after.later.owner block hlt).symm.trans hblock)
    · obtain ⟨f, hf, hwhich⟩ := h'.after.made block hge (Arena.lt_of_func hblock)
      rw [hblock] at hf
      cases hf
      rcases hwhich with heq | hmem | hnew
      · exact absurd heq h.other
      · cases hmem
      · exact absurd h.vacant.lt (Nat.not_lt.2 hnew)

theorem vacant_newFunc {a : Arena} (hlaid : a.Laid) (name : String) :
    Vacant (a.newFunc name).2 ⟨a.funcs.size⟩ := by
  have hm := Arena.Makes.newFunc a name
  refine ⟨hm.func, ?_, fun block hblock => ?_⟩
  · rw [Arena.func_newFunc, if_pos rfl]
    exact congrArg Block.func hm.self
  · rw [hm.phis]
    by_cases hlt : block.index < a.blocks.size
    · rw [hm.later.owner block hlt] at hblock
      exact absurd (hlaid.func_lt hblock) (Nat.lt_irrefl _)
    · exact congrArg Block.phis (Arena.block_of_le a (Nat.not_lt.1 hlt))

theorem Vacant.spares {a a' : Arena} (hv : Vacant a func) (hs : a.Spares a') : Vacant a' func where
  lt := Nat.lt_of_lt_of_eq hv.lt hs.funcs.symm
  entry := by rw [hs.entry, hs.func, hv.entry]
  free block hblock := by
    rw [hs.func] at hblock
    rw [hs.phis, hv.free block hblock]

/-- A function is made. -/
theorem newFunc_fresh (hb : Open b) (name : String) (span : Span) (returnType : Option TypeHint)
    (flags : Nat) (cls : Option String) :
    Gives (newFunc name span returnType flags cls) b fun func b' => Fresh b b' func := by
  have hmade : Fresh b { b with arena := (b.arena.newFunc name).2 } ⟨b.arena.funcs.size⟩ :=
    ⟨hb, hb.makes (Arena.Makes.newFunc b.arena name) (.inr (Nat.le_refl _)), Nat.le_refl _,
      vacant_newFunc hb.apt.laid name⟩
  have hedit : Fills (change (·.modifyFunc ⟨b.arena.funcs.size⟩ fun f =>
      { f with span, file := some b.script.path, returnType := declaredType returnType, flags, cls })) :=
    change_fills fun a => .modifyFunc a _ (by exact fun _ => rfl)
  exact hmade.trans (hedit.runs (G := ∅) hmade.next.isOpen fun _ => nofun)

/-- The body of a function that was made is lowered, and the outer body goes on. -/
theorem body_next (h : Fresh b₀ b func) {captured : List (String × OperandId)}
    (hcaptured : ∀ c ∈ captured, b.arena.nameOf? c.2 = some c.1)
    (hparams : ∀ p ∈ params, ∀ x ∈ p.default, Goes ∅ x) (hsteps : ∀ x ∈ steps, Goes ∅ x) :
    Yields (body func captured params steps) b fun _ b' => Next b₀ b' := by
  have hb := h.next.isOpen
  refine body_yields h.vacant hb.apt.joins hb.apt.laid hcaptured hparams hsteps
    fun b' hapt hafter => ?_
  obtain ⟨hopen, hafter⟩ := hb.resume h.other hapt hafter
  have hall := (h.next.after.mono (Set.empty_subset _)).trans hafter
  exact ⟨hopen, hall.of_new h.start.apt.laid fun f hf => Set.mem_singleton_iff.1 hf ▸ h.new⟩

theorem setCallable_fills (func : FuncId) (op : OpId) : Fills (setCallable func op) :=
  change_fills fun a => .modifyFunc a func (by exact fun _ => rfl)

theorem listFunction_fills (name : String) (func : FuncId) : Fills (listFunction name func) :=
  aside_fills fun _ => ⟨rfl, rfl, rfl, rfl⟩

theorem function_goes (name : String) (hparams : ∀ p ∈ params, ∀ x ∈ p.default, Goes ∅ x)
    (byRef : Bool) (returnType : Option TypeHint) (hsteps : ∀ x ∈ steps, Goes ∅ x) (span : Span) :
    Goes G (function name params byRef returnType steps span) := by
  intro b hb hG
  refine Yields.bind (.lift (newFunc_fresh hb name span returnType (refFlag byRef) none))
    fun func b₁ h₁ => ?_
  have hop : Runs G (emit (.function func) span) := (emit_fills rfl span).runs
  refine Yields.bind (.lift (hop h₁.next.isOpen (hG.next h₁.next))) fun op b₂ h₂ => ?_
  have h₂ := h₁.trans h₂
  refine Yields.bind (.lift ((setCallable_fills func op).runs h₂.next.isOpen (hG.next h₂.next)))
    fun _ b₃ h₃ => ?_
  refine Yields.bind (body_next (h₂.trans h₃) (fun _ => nofun) hparams hsteps) fun _ b₄ h₄ => ?_
  exact .lift (((listFunction_fills name func).runs h₄.isOpen (hG.next h₄)).mono fun _ _ => h₄.trans)

theorem method_goes (name : String) (modifiers : Nat)
    (hparams : ∀ p ∈ params, ∀ x ∈ p.default, Goes ∅ x) (byRef : Bool)
    (returnType : Option TypeHint) (hsteps : ∀ x ∈ steps, Goes ∅ x) (span : Span) :
    Goes G (method name modifiers params byRef returnType steps span) := by
  intro b hb hG
  refine .get (Yields.bind (.lift (newFunc_fresh hb name span returnType _ b.cls))
    fun func b₁ h₁ => ?_)
  have hop : Runs G (emit (.classMethod func (methodFlags modifiers byRef)) span) :=
    (emit_fills rfl span).runs
  refine Yields.bind (.lift (hop h₁.next.isOpen (hG.next h₁.next))) fun op b₂ h₂ => ?_
  have h₂ := h₁.trans h₂
  refine Yields.bind (.lift ((setCallable_fills func op).runs h₂.next.isOpen (hG.next h₂.next)))
    fun _ b₃ h₃ => ?_
  refine Yields.bind (body_next (h₂.trans h₃) (fun _ => nofun) hparams hsteps) fun _ b₄ h₄ => ?_
  exact .look (.lift (((listFunction_fills _ func).runs h₄.isOpen (hG.next h₄)).mono
    fun _ _ => h₄.trans))

/-- A captured variable stands for itself in the closure. -/
theorem captures_names (uses : List Capture) (hb : Open b) :
    Gives (captures uses) b fun captured b' => Next b b' ∧
      ∀ c ∈ captured, b'.arena.nameOf? c.2 = some c.1 := by
  induction uses generalizing b with
  | nil => exact ⟨hb.next, fun _ => nofun⟩
  | cons used rest ih =>
    have hhere : Holds {b.block} b := fun block hblock => hblock ▸ hb.apt.here
    refine Gives.get (Gives.bind (readName_runs used.name (Set.mem_singleton _) hb hhere) fun value b₁ h₁ => ?_)
    refine Gives.bind (newString_names h₁.isOpen.apt.joins h₁.isOpen.apt.laid used.name) ?_
    rintro name b₂ ⟨h₂, hname⟩
    refine Gives.bind (newBound_names h₂.joins h₂.laid hname (some value) used.byRef .locals) ?_
    rintro bound b₃ ⟨h₃, hbound⟩
    have hb₃ := h₁.trans (h₁.isOpen.filled (h₂.trans h₃))
    refine Gives.bind (ih hb₃.isOpen) ?_
    rintro captured b₄ ⟨h₄, hcaptured⟩
    exact ⟨hb₃.trans h₄, List.forall_mem_cons.2 ⟨h₄.after.later.nameOf? hbound, hcaptured⟩⟩

theorem closure_goes (hparams : ∀ p ∈ params, ∀ x ∈ p.default, Goes ∅ x) (uses : List Capture)
    (byRef isStatic : Bool) (returnType : Option TypeHint) (hsteps : ∀ x ∈ steps, Goes ∅ x)
    (span : Span) : Goes G (closure params uses byRef isStatic returnType steps span) := by
  intro b hb hG
  refine Yields.bind (P := fun _ b₁ => Next b b₁) (.of_run rfl (hb.filled (.same hb.apt.joins
    hb.apt.laid rfl rfl rfl rfl))) fun name b₁ h₁ => ?_
  refine Yields.bind (.lift (newFunc_fresh h₁.isOpen name span returnType _ none)) fun func b₂ h₂ => ?_
  refine Yields.bind (.lift (captures_names uses h₂.next.isOpen)) ?_
  rintro captured b₃ ⟨h₃, hcaptured⟩
  refine Yields.bind (body_next (h₂.trans h₃) hcaptured hparams hsteps) fun _ b₄ h₄ => ?_
  have hrest : Goes G (do
      listFunction name func
      let result ← newTemporary none
      let op ← emit (.closure func (captured.map (·.2)) result) span
      setCallable func op
      return result : Lowering OperandId) :=
    .build (listFunction_fills name func).runs fun _ => .build (newTemporary_fills none).runs fun _ =>
      .build (emit_fills rfl span).runs fun op => .build (setCallable_fills func op).runs fun _ =>
        .pure _
  have h₄ := h₁.trans h₄
  exact (hrest h₄.isOpen (hG.next h₄)).mono fun _ _ => h₄.trans

/-! ## All syntax trees -/

/-- Lowering keeps what is known of a builder. -/
def versioning : Law where
  Has x := Goes ∅ x
  unit := .pure
  seq := .bind
  builder := fun _ hb _ => .of_run rfl hb.next
  fail := .throw
  aside h := .lift (aside_fills h).runs
  operand kind := .lift (newOperand_fills kind).runs
  touch id _ hf := .lift (change_fills fun a => .modifyOperand a id hf).runs
  noteFunc := .lift (changeFunc_fills (by exact fun _ => rfl)).runs
  noteBlock block := .lift (change_fills fun a => .modifyBlock a block (by exact fun _ => rfl)
    (by exact fun _ => rfl) (by exact fun _ => rfl)).runs
  place span _ hkind := .lift (emit_fills hkind span).runs
  result span _ hmake := .lift (emitValue_fills hmake span).runs
  answer span _ hmake := .lift (emitCall_fills hmake span).runs
  leave span _ hkind := .build (emit_fills hkind span).runs fun _ => .lift goDead_runs
  version id := .lift (readVariable_runs id)
  newVersion id := .lift (writeVariable_runs id)
  enclose := enclose_goes
  ternary span hcond htrue hfalse := ternary_goes hcond htrue hfalse span
  ifElse span hcond hbody hfurther hother := ifElse_goes hcond hbody hfurther hother span
  loop span hcond hbody := loop_goes hcond hbody span
  doWhile span hbody hcond := doWhile_goes hbody hcond span
  foreach byRef valueSpan span hsubject hkey hvalue hbody :=
    foreach_goes hsubject hkey hvalue hbody byRef valueSpan span
  switch span hsubject hcases := switch_goes hsubject hcases _ span
  goto := goto_goes
  label name span := .lift (label_runs name span)
  tryCatch := tryCatch_goes
  function name byRef returnType span hparams hsteps :=
    function_goes name hparams byRef returnType hsteps span
  method name modifiers byRef returnType span hparams hsteps :=
    method_goes name modifiers hparams byRef returnType hsteps span
  closure uses byRef isStatic returnType span hparams hsteps :=
    closure_goes hparams uses byRef isStatic returnType hsteps span
  staticVar := staticVar_goes

end Version

/-! ## Files and programs -/

open Version Lower in
/-- Whether lowering a file succeeds or fails, φs join versions of their variables, in places of
their own. -/
theorem laid_lowerFile {a : Arena} (hjoins : a.Joins) (hlaid : a.Laid) (path : String)
    (labels : Labels) (stmts : List Stmt) : (lowerFile a path labels stmts).2.Joins ∧
      (lowerFile a path labels stmts).2.Laid := by
  have hm := Arena.Makes.newFunc a Func.mainName
  have hspares : (a.newFunc Func.mainName).2.Spares (Builder.start a path labels).arena :=
    .modifyFunc _ _ fun _ => rfl
  have hstart : Vacant (Builder.start a path labels).arena (Builder.start a path labels).func :=
    (vacant_newFunc hlaid Func.mainName).spares hspares
  have hbody : Yields (body (Builder.start a path labels).func [] [] (Lower.stmts stmts))
      (Builder.start a path labels) fun _ b' => b'.arena.Joins ∧ b'.arena.Laid :=
    body_yields hstart (hspares.joins (hm.joins hjoins))
      (hspares.laid (hm.joins hjoins) (hm.laid hjoins hlaid)) (fun _ => nofun) (fun _ => nofun)
      (have_stmts versioning stmts) fun b' hapt _ => ⟨hapt.joins, hapt.laid⟩
  rw [lowerFile]
  match hrun : (body (Builder.start a path labels).func [] []
    (Lower.stmts stmts)).run.run (Builder.start a path labels) with
  | (.ok _, b) => exact hbody.ok _ b hrun
  | (.error e, b) => exact hbody.error e b hrun

theorem Arena.joins_empty : ({} : Arena).Joins := by
  have hop (op : OpId) : (({} : Arena).op op).kind.sole? = none := by
    rw [op_of_le _ (Nat.zero_le _)]
    rfl
  refine ⟨fun hr => ?_, fun hr => ?_, fun hr => ?_, fun hkind => ?_⟩
  · cases (hop _).symm.trans hr
  · cases (hop _).symm.trans hr
  · cases (hop _).symm.trans (OpKind.sole?_of_joined? hr)
  · cases (hop _).symm.trans (congrArg OpKind.sole? hkind)

theorem Arena.laid_empty : ({} : Arena).Laid := by
  have hblock (block : BlockId) : ({} : Arena).block block = default :=
    block_of_le _ (Nat.zero_le _)
  refine ⟨fun block => ?_, fun block => ?_, fun block => ?_, fun block hlt => ?_⟩
  · rw [hblock]
    exact List.Pairwise.nil
  · rw [hblock]
    exact fun _ => nofun
  · rw [hblock]
    exact fun _ => nofun
  · exact absurd hlt (Nat.not_lt_zero _)

namespace Program

theorem laid_add {p : Program} (hjoins : p.arena.Joins) (hlaid : p.arena.Laid) (path : String)
    (prepared : Except Error (List Stmt × Labels)) :
    (p.add path prepared).arena.Joins ∧ (p.add path prepared).arena.Laid := by
  unfold add
  split
  · exact ⟨hjoins, hlaid⟩
  · rename_i stmts labels
    have hfile := laid_lowerFile hjoins hlaid path labels stmts
    split
    all_goals
      rename_i heq
      rw [heq] at hfile
      exact hfile

/-- After any files were lowered, φs join versions of their variables. -/
theorem versioned_of_files (files : List (String × Except Error (List Stmt × Labels))) :
    (files.foldl (fun p file => p.add file.1 file.2) ({} : Program)).arena.Versioned := by
  generalize hstart : ({} : Program) = start
  have hjoins : start.arena.Joins := hstart ▸ Arena.joins_empty
  have hlaid : start.arena.Laid := hstart ▸ Arena.laid_empty
  clear hstart
  induction files generalizing start with
  | nil => exact ⟨hjoins, hlaid.apart⟩
  | cons file rest ih =>
    obtain ⟨hjoins, hlaid⟩ := laid_add hjoins hlaid file.1 file.2
    exact ih _ hjoins hlaid

end Program

end QueryTaint
