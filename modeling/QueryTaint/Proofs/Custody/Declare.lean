import QueryTaint.Lower.Tree
import QueryTaint.Proofs.Custody.Build

/-!
# Bodies and files keep computed values in custody

The body of a function is lowered in a scope of its own, where nothing is known but what a closure
captures. A captured variable is no intermediate value, and so it fits every function. What the outer
function knows fits it still when the body is done (`body_ends`). So a file that is lowered keeps
computed values in custody, and its top level comes first among its functions (`custody_lowerFile`).
-/

namespace QueryTaint.Custody

open Lower

variable {b b' : Builder} {G : Set Entry} {func : FuncId} {params : List (Param (Lowering OperandId))}
  {steps : List (Lowering Unit)}

/-! ## Bodies -/

theorem param_lowers {entry : BlockId} {p : Param (Lowering OperandId)}
    (hp : ∀ x ∈ p.default, custody.Makes x) : Lowers G (param func entry p) fun _ => ∅ :=
  fun _ b hb hG => by
  refine Regime.Ends.bind (defaultApart_lowers (L := custody) hp hb hG) fun made b₁ h₁ => ?_
  refine Regime.Ends.bind (.lift (newString_builds p.name h₁.holds (Set.empty_subset _)))
    fun name b₂ h₂ => ?_
  refine Regime.Ends.bind (.lift (newOperand_done h₂.holds (.variable name none)
    (by simpa [OperandKind.links] using (h₂.known rfl).lt) (by simp))) ?_
  rintro var b₃ ⟨h₃, hvar⟩
  refine Regime.Ends.bind (.lift (newVersion_done h₃.holds
    ⟨(h₃.known rfl).lt, hvar.trans_ne (by simp)⟩)) fun result b₄ h₄ => ?_
  refine Regime.Ends.bind (P := fun op b₅ => op = ⟨b₄.arena.ops.size⟩ ∧ b₅ = { b₄ with
    arena := (b₄.arena.addOp (.param name made.1 made.2 p.byRef p.variadic (declaredType p.type) func
      result) p.span).2 }) (.lift ⟨rfl, rfl⟩) ?_
  rintro _ _ ⟨rfl, rfl⟩
  refine Regime.Ends.bind (P := fun _ b₆ => b₆ = { b₄ with
    arena := (b₄.arena.addOp (.param name made.1 made.2 p.byRef p.variadic (declaredType p.type) func
      result) p.span).2
    scope := b₄.scope.bind entry p.name result }) (.lift rfl) ?_
  rintro _ _ rfl
  have hbound : regime.Done () b₄ ∅ { b₄ with scope := b₄.scope.bind entry p.name result } :=
    bindIn_builds entry p.name (Set.mem_singleton _) h₄.holds h₄.known
  have hcalm := (calm_place hbound.holds.arena.toTidy (.param name made.1 made.2 p.byRef
    p.variadic (declaredType p.type) func result) rfl p.span entry).trans
    (.modifyFunc _ func (f := fun f => { f with params := f.params ++ [⟨b₄.arena.ops.size⟩] })
      (by exact fun _ => rfl) (by exact fun _ => rfl))
  exact .lift (h₁.trans (h₂.trans (h₃.trans (h₄.trans (hbound.trans
    (hbound.holds.done hcalm (Set.empty_subset _)))))))

theorem finishBody_builds : Builds G finishBody fun _ => ∅ := by
  have hphis {G : Set Entry} : Builds G (do
      let pending := (← get).scope.pending
      changeScope fun s => { s with complete := true, pending := #[] }
      completePhis pending.toList) fun _ => ∅ :=
    .get fun _ _ _ => .bind (changeScope_builds fun _ hb _ _ _ _ hx => hb.versions hx) fun _ =>
      completePhis_builds _
  refine .get fun _ _ _ => .look fun _ => ?_
  split
  · exact .bind (emit_builds rfl .none) fun _ => hphis
  · exact hphis

theorem body_ends (hb : Kept b) {captured : List (String × OperandId)}
    (hfunc : func.index < b.arena.funcs.size) (hcaptured : ∀ c ∈ captured, b.arena.Primary c.2)
    (hparams : ∀ p ∈ params, ∀ x ∈ p.default, custody.Makes x)
    (hsteps : ∀ x ∈ steps, custody.Acts x) :
    regime.Ends (body func captured params steps) b fun _ b' => regime.Done () b ∅ b' := by
  refine .look (.get (.get (.get ?_)))
  have hin : Kept { b with func, scope := {}, block := (b.arena.func func).entry } :=
    { arena := hb.arena
      here := hb.arena.entry hfunc
      versions := fun hx => by simp [Scope.lookup] at hx
      consts := hb.consts
      first := hb.first }
  refine Regime.Ends.bind (P := fun _ b₁ =>
    b₁ = { b with func, scope := {}, block := (b.arena.func func).entry }) (.lift rfl) ?_
  rintro _ b₁ rfl
  have hbind : Lowers (Entry.operands (captured.map (·.2)))
      (captured.forM fun c => bindIn (b.arena.func func).entry c.1 c.2) fun _ => ∅ :=
    .forM fun c hc => .lift (bindIn_builds _ _ (Entry.mem_operands.2 (List.mem_map_of_mem hc)))
  have hfits : Entry.operands (captured.map (·.2)) ⊆ fits
      { b with func, scope := {}, block := (b.arena.func func).entry } := by
    refine Entry.operands_subset.2 fun x hx => ?_
    obtain ⟨c, hc, rfl⟩ := List.mem_map.1 hx
    exact hb.arena.toSound.fits (hcaptured c hc)
  refine Regime.Ends.bind (hbind (i := ()) hin hfits) fun _ b₂ h₂ => ?_
  have hparam : Lowers ∅ (params.forM (param func (b.arena.func func).entry)) fun _ => ∅ :=
    .forM fun p hp => param_lowers (hparams p hp)
  refine Regime.Ends.bind (hparam h₂.holds (Set.empty_subset _)) fun _ b₃ h₃ => ?_
  refine Regime.Ends.bind (inOrder_acts hsteps ∅ h₃.holds (Set.empty_subset _)) fun _ b₄ h₄ => ?_
  refine Regime.Ends.bind (.lift (finishBody_builds (G := ∅) h₄.holds (Set.empty_subset _)))
    fun _ b₅ h₅ => .lift ?_
  obtain ⟨hkeeps, hmain, -⟩ := (h₂.trans (h₃.trans (h₄.trans h₅))).later
  have hversions {block : BlockId} {name : String} {x : OperandId}
      (hx : b.scope.lookup block name = some x) : b₅.arena.Fits b₅.script.main b.func x := by
    rw [hmain]
    exact (hb.versions hx).keeps hkeeps
  exact ⟨⟨h₅.holds.arena, hkeeps.toLater.func hb.here, hversions, h₅.holds.consts, h₅.holds.first⟩,
    ⟨hkeeps, hmain, rfl⟩, Set.empty_subset _⟩

theorem body_lowers (hfunc : .func func ∈ G)
    (hparams : ∀ p ∈ params, ∀ x ∈ p.default, custody.Makes x)
    (hsteps : ∀ x ∈ steps, custody.Acts x) : Lowers G (body func [] params steps) fun _ => ∅ :=
  fun _ _ hb hG => body_ends hb (hG hfunc) (fun _ hc => by cases hc) hparams hsteps

/-! ## Functions -/

theorem newFunc_builds (name : String) (span : Span) (returnType : Option TypeHint) (flags : Nat)
    (cls : Option String) :
    Builds G (newFunc name span returnType flags cls) fun func => {.func func} := fun _ b hb _ => by
  have hcalm := (Arena.Calm.ofFunc b.arena name).trans (.modifyFunc _ ⟨b.arena.funcs.size⟩
    (f := fun f => { f with
      span, file := some b.script.path, returnType := declaredType returnType, flags, cls })
    (by exact fun _ => rfl) (by exact fun _ => rfl))
  refine Gives.get (hb.done hcalm (Set.singleton_subset_iff.2 ?_))
  exact Nat.lt_of_lt_of_eq (Nat.lt_succ_self _)
    ((Array.size_modify ..).trans (Array.size_push ..)).symm

theorem setCallable_builds (op : OpId) : Builds G (setCallable func op) fun _ => ∅ :=
  calm_builds fun a => .modifyFunc a func (by exact fun _ => rfl) (by exact fun _ => rfl)

theorem listFunction_builds (name : String) : Builds G (listFunction name func) fun _ => ∅ :=
  modify_builds fun b hb _ => by
    refine ⟨{ hb with first := ?_ }, rfl, rfl, rfl⟩
    change (if b.script.functions.contains name then b.script.ordered
      else b.script.ordered ++ [func]).head? = some b.script.main
    split
    · exact hb.first
    · rw [List.head?_append, hb.first]
      rfl

theorem function_lowers (name : String) (hparams : ∀ p ∈ params, ∀ x ∈ p.default, custody.Makes x)
    (byRef : Bool) (returnType : Option TypeHint) (hsteps : ∀ x ∈ steps, custody.Acts x)
    (span : Span) : Lowers G (function name params byRef returnType steps span) fun _ => ∅ :=
  .bind (.lift (newFunc_builds ..)) fun f => .bind (.lift (emit_builds rfl span)) fun op =>
    .bind (.lift (setCallable_builds op)) fun _ =>
    .bind (body_lowers (by simp) hparams hsteps) fun _ => .lift (listFunction_builds name)

theorem method_lowers (name : String) (modifiers : Nat)
    (hparams : ∀ p ∈ params, ∀ x ∈ p.default, custody.Makes x) (byRef : Bool)
    (returnType : Option TypeHint) (hsteps : ∀ x ∈ steps, custody.Acts x) (span : Span) :
    Lowers G (method name modifiers params byRef returnType steps span) fun _ => ∅ :=
  .get fun _ _ _ => .bind (.lift (newFunc_builds ..)) fun f => .bind (.lift (emit_builds rfl span))
    fun op => .bind (.lift (setCallable_builds op)) fun _ =>
    .bind (body_lowers (by simp) hparams hsteps) fun _ => .look fun _ => .lift (listFunction_builds _)

/-- Captured variables are no intermediate values. -/
theorem captures_gives (hb : Kept b) (uses : List Capture) :
    Gives (captures uses) b fun made b' => regime.Done () b ∅ b' ∧
      ∀ c ∈ made, b'.arena.Primary c.2 := by
  induction uses generalizing b with
  | nil => exact ⟨⟨hb, regime.refl b, Set.empty_subset _⟩, fun _ hc => by cases hc⟩
  | cons used rest ih =>
    refine Gives.get (Gives.bind
      (readName_builds (G := ∅) (i := ()) used.name b.block hb (Set.empty_subset _))
      fun value b₁ h₁ => ?_)
    refine Gives.bind (newString_builds (G := ∅) used.name h₁.holds (Set.empty_subset _))
      fun name b₂ h₂ => ?_
    have hvalue : value.index < b₂.arena.operands.size :=
      ((h₁.known rfl).keeps h₂.later.arena).lt
    refine Gives.bind (newOperand_done h₂.holds (.bound name (some value) used.byRef .locals)
      (by simpa [OperandKind.links] using ⟨(h₂.known rfl).lt, hvalue⟩) nofun) ?_
    rintro bound b₃ ⟨h₃, hbound⟩
    refine Gives.bind (ih h₃.holds) ?_
    rintro made b₄ ⟨h₄, hmade⟩
    refine ⟨h₁.trans (h₂.trans (h₃.trans h₄)), fun c hc => ?_⟩
    rcases List.mem_cons.1 hc with rfl | hc
    · exact Arena.Primary.later ⟨(h₃.known rfl).lt, hbound.trans_ne nofun⟩ h₄.later.arena.toLater
    · exact hmade c hc

theorem closure_lowers (hparams : ∀ p ∈ params, ∀ x ∈ p.default, custody.Makes x)
    (uses : List Capture) (byRef isStatic : Bool) (returnType : Option TypeHint)
    (hsteps : ∀ x ∈ steps, custody.Acts x) (span : Span) :
    Lowers G (closure params uses byRef isStatic returnType steps span) fun x => {.operand x} :=
  fun _ _ hb hG => by
  have hname : Builds G (modifyGet fun b => (b.labels.nextFunction.1,
      { b with labels := b.labels.nextFunction.2 })) fun _ => ∅ := fun _ _ hb _ =>
    ⟨{ hb with }, ⟨.refl _, rfl, rfl⟩, Set.empty_subset _⟩
  refine Regime.Ends.bind (.lift (hname hb hG)) fun name b₁ h₁ => ?_
  refine Regime.Ends.bind (.lift (newFunc_builds (G := ∅) name span returnType _ none h₁.holds
    (Set.empty_subset _))) fun f b₂ h₂ => ?_
  refine Regime.Ends.bind (.lift (captures_gives h₂.holds uses)) ?_
  rintro captured b₃ ⟨h₃, hcaptured⟩
  have hf : f.index < b₃.arena.funcs.size := Nat.lt_of_lt_of_le (h₂.known rfl) h₃.later.arena.funcs
  refine Regime.Ends.bind (body_ends h₃.holds hf hcaptured hparams hsteps) fun _ b₄ h₄ => ?_
  have hrest : Lowers ∅ (do
      listFunction name f
      let result ← newTemporary none
      let op ← emit (.closure f (captured.map (·.2)) result) span
      setCallable f op
      return result) fun x => {.operand x} :=
    .bind (.lift (listFunction_builds name)) fun _ => .bind (.lift newResult_builds) fun _ =>
      .bind (.lift (emit_builds rfl span)) fun op => .bind (.lift (setCallable_builds op)) fun _ =>
      .pure (by simp)
  exact (hrest h₄.holds (Set.empty_subset _)).mono fun _ _ h₅ =>
    h₁.trans (h₂.trans (h₃.trans (h₄.trans h₅)))

/-! ## Static variables -/

theorem staticVar_lowers {v : Declared (Lowering OperandId)} (hv : ∀ x ∈ v.default, custody.Makes x) :
    Lowers G (staticVar v) fun _ => ∅ :=
  .bind (defaultApart_lowers (L := custody) hv) fun _ => .bind (.lift (newString_builds _)) fun _ =>
    .bind (.lift (newOperand_builds (by simp +contextual [OperandKind.links]) nofun)) fun _ =>
    .get fun _ _ _ => .bind (.lift (bindIn_builds _ _ (by simp))) fun _ =>
    .bind (.lift (emit_builds rfl _)) fun _ => .pure (Set.empty_subset _)

/-- Lowering keeps computed values in custody, whatever the syntax tree. -/
def custodyTheory : Theory where
  toLogic := custody
  function name byRef returnType span hparams hsteps _ :=
    function_lowers name hparams byRef returnType hsteps span
  method name modifiers byRef returnType span hparams hsteps _ :=
    method_lowers name modifiers hparams byRef returnType hsteps span
  closure uses byRef isStatic returnType span hparams hsteps _ :=
    closure_lowers hparams uses byRef isStatic returnType hsteps span
  staticVar hv _ := staticVar_lowers hv

/-! ## Files -/

theorem kept_start {a : Arena} (h : a.Sound) (path : String) (labels : Labels) :
    Kept (Builder.start a path labels) := by
  have hcalm := (Arena.Calm.ofFunc a Func.mainName).trans (.modifyFunc _ ⟨a.funcs.size⟩
    (f := fun f => { f with file := some path }) (by exact fun _ => rfl) (by exact fun _ => rfl))
  have hsound := hcalm.sound h
  have hlt : a.funcs.size < ((a.newFunc Func.mainName).2.modifyFunc ⟨a.funcs.size⟩
      fun f => { f with file := some path }).funcs.size :=
    Nat.lt_of_lt_of_eq (Nat.lt_succ_self _) ((Array.size_modify ..).trans (Array.size_push ..)).symm
  refine ⟨⟨hsound, fun hop hf hkind => ?_⟩, hsound.entry (f := ⟨a.funcs.size⟩) hlt, fun hx => ?_,
    fun hx => ?_, rfl⟩
  · -- the functions that were there before come before the top level
    obtain ⟨⟨block, -, hfunc⟩, -⟩ := hcalm.standsIn hop hkind
    exact absurd (h.func_lt hfunc) (Nat.not_lt.2 hf)
  · simp [Builder.start, Scope.lookup] at hx
  · simp [Builder.start] at hx

/-- Lowering a file, from its start. -/
theorem ends_file {a : Arena} (h : a.Sound) (path : String) (labels : Labels) (stmts : List Stmt) :
    regime.Ends (body (Builder.start a path labels).func [] [] (Lower.stmts stmts))
      (Builder.start a path labels) fun _ b => regime.Done () (Builder.start a path labels) ∅ b := by
  have hstart := kept_start h path labels
  exact body_ends hstart (hstart.arena.func_lt hstart.here) (fun _ hc => by cases hc)
    (params_make custodyTheory []) (stmts_act custodyTheory stmts)

end QueryTaint.Custody

namespace QueryTaint

variable {a a' : Arena} {path : String} {labels : Labels} {stmts : List Stmt} {s : Script}

/-- A file that is lowered lists its top level first, and keeps computed values in custody. -/
theorem custody_lowerFile (h : a.Sound) (hfile : lowerFile a path labels stmts = (.ok s, a')) :
    s.main = ⟨a.funcs.size⟩ ∧ s.ordered.head? = some s.main ∧ a'.Custody s.main := by
  rw [lowerFile] at hfile
  rcases hrun : (Lower.body (Lower.Builder.start a path labels).func [] []
    (Lower.stmts stmts)).run.run (Lower.Builder.start a path labels) with ⟨e | y, b⟩ <;>
    rw [hrun] at hfile
  · cases hfile
  · cases hfile
    have hdone := (Custody.ends_file h path labels stmts).ok y b hrun
    exact ⟨hdone.later.main, hdone.holds.first, hdone.holds.arena⟩

theorem sound_lowerFile (h : a.Sound) (path : String) (labels : Labels) (stmts : List Stmt) :
    (lowerFile a path labels stmts).2.Sound := by
  have hends := Custody.ends_file h path labels stmts
  rw [lowerFile]
  rcases hrun : (Lower.body (Lower.Builder.start a path labels).func [] []
    (Lower.stmts stmts)).run.run (Lower.Builder.start a path labels) with ⟨e | y, b⟩
  · exact hends.error e b hrun
  · exact (hends.ok y b hrun).holds.arena.toSound

end QueryTaint
