import QueryTaint.Lower.Declare
import QueryTaint.Proofs.Flow.Body
import QueryTaint.Proofs.Origin.Value

/-!
# Declarations and files keep to the file's entries

The body of a function is lowered in a scope of its own, and what the builder referred to before is
known until the body ends. A function is owed to the script while its body is lowered
(`newFunc_owes`); it is listed at the end, unless one of its name is listed already
(`listFunction_pays`).

A file that is lowered, or that fails on the way, leaves the entries of other files as they were, and
its own entries mention each other only (`adjoins_lowerFile`). The functions that a file lists say
which inputs it reads and which calls it makes (`Script.Tells`), provided that no two of its functions
have the same name: the second one would not be listed. The table and the list of a script have the
same names in any case (`tabled_lowerFile`), and under this proviso the same functions
(`mem_ordered_iff_named`).
-/

namespace QueryTaint

-- A membership in a union is taken apart as it stands, and not as one in a chain of insertions.
attribute [-simp] Set.singleton_union Set.union_insert

namespace Lower

variable {a₀ : Arena} {D : Owed} {b : Builder} {G : Set Entry}

/-! ## Bodies -/

theorem param_lowers {func : FuncId} {entry : BlockId} {p : Param (Lowering OperandId)}
    (hfunc : .func func ∈ G) (hentry : .block entry ∈ G) (hp : ∀ x ∈ p.default, (origin a₀).Makes x) :
    Lowers a₀ G (param func entry p) fun _ => ∅ := by
  refine .bind (defaultApart_lowers hp) fun made => .bind (.lift (newString_builds _)) fun name =>
    .bind (.lift (newOperand_builds (by simp [OperandKind.links]) rfl)) fun var =>
    .bind (.lift (newTemporary_builds (by simp))) fun result =>
    .bind (.lift (detached_builds (by simp +contextual [or_imp]) rfl _)) fun op =>
    .bind (.lift (bindIn_builds _ _ (by simp))) fun _ => .lift (change_builds (fun a ha hG => ?_)
      fun a => (Arena.Mild.append a _ _).trans (.modifyFunc _ _ fun r =>
        ⟨rfl, id, List.Subset.refl _⟩))
  have hop := hG (a := .op op) (by simp)
  have hplaced := ha.append (hG (a := .block entry) (by simp [hentry])) hop
  have hsince : (a.append entry op).since a₀ = a.since a₀ := by simp [Arena.append]
  rw [← hsince] at hop hG
  refine hplaced.modifyFunc (hG (by simp [hfunc])) fun hr => ⟨hr.entry, fun o ho => ?_, hr.callable⟩
  rcases List.mem_append.1 ho with ho | ho
  · exact hr.params o ho
  · rw [List.mem_singleton.1 ho]
    exact hop

theorem finishBody_builds : Builds a₀ G finishBody fun _ => ∅ := by
  have hphis {G : Set Entry} : Builds a₀ G (do
      let pending := (← get).scope.pending
      changeScope fun s => { s with complete := true, pending := #[] }
      completePhis pending.toList) fun _ => ∅ := by
    refine .get fun b => .bind (changeScope_builds fun s e he => ?_) fun _ =>
      completePhis_builds fun p hp => ?_
    · cases he with
      | version he => exact .inl (.version he)
      | label he => exact .inl (.label he)
      | place he => cases Array.not_mem_empty _ he
      | phi he => cases Array.not_mem_empty _ he
      | goto he => exact .inl (.goto he)
      | condition he => exact .inl (.condition he)
    · have hp : p ∈ b.scope.pending := Array.mem_toList_iff.1 hp
      exact ⟨.inr (.inl (.root (.scope (.place hp)))), .inr (.inl (.root (.scope (.phi hp))))⟩
  refine .get fun b => .bind (isDead_builds _) fun dead => ?_
  split
  · exact .bind (emit_builds (by simp) rfl .none) fun _ => hphis
  · exact hphis

theorem Scope.not_root_empty {e : Entry} : ¬({} : Scope).Root e := by
  rintro (⟨h⟩ | ⟨h⟩ | ⟨h⟩ | ⟨h⟩ | ⟨h⟩ | ⟨h⟩) <;> simp [Scope.lookup] at h

/-- The builder goes into a body. -/
theorem enterBody_builds {func : FuncId} {entry : BlockId} (hfunc : .func func ∈ G)
    (hentry : .block entry ∈ G) :
    Builds a₀ G (modify fun b => { b with func, scope := {}, block := entry }) fun _ => ∅ :=
  modify_builds (fun _ => rfl) (fun _ => rfl) (fun _ => rfl) fun b e he => by
    cases he with
    | func => exact .inr hfunc
    | block => exact .inr hentry
    | scope he => exact absurd he Scope.not_root_empty
    | const he => exact .inl (.const he)
    | main => exact .inl .main
    | named he => exact .inl (.named he)
    | listed he => exact .inl (.listed he)

/-- The builder goes back to where it was before a body. -/
theorem leaveBody_builds {func : FuncId} {scope : Scope} {block : BlockId} (hfunc : .func func ∈ G)
    (hscope : ∀ e, scope.Root e → e ∈ G) (hblock : .block block ∈ G) :
    Builds a₀ G (modify fun b => { b with func, scope, block }) fun _ => ∅ :=
  modify_builds (fun _ => rfl) (fun _ => rfl) (fun _ => rfl) fun b e he => by
    cases he with
    | func => exact .inr hfunc
    | block => exact .inr hblock
    | scope he => exact .inr (hscope e he)
    | const he => exact .inl (.const he)
    | main => exact .inl .main
    | named he => exact .inl (.named he)
    | listed he => exact .inl (.listed he)

theorem body_lowers {func : FuncId} {captured : List (String × OperandId)}
    {params : List (Param (Lowering OperandId))} {steps : List (Lowering Unit)}
    (hfunc : .func func ∈ G) (hcaptured : ∀ c ∈ captured, .operand c.2 ∈ G)
    (hparams : ∀ p ∈ params, ∀ x ∈ p.default, (origin a₀).Makes x)
    (hsteps : ∀ x ∈ steps, (origin a₀).Acts x) :
    Lowers a₀ G (body func captured params steps) fun _ => ∅ := by
  refine .look fun b => .get fun b₁ => .get fun b₂ => .get fun b₃ => ?_
  have hentry : .block (b.arena.func func).entry ∈ b.known G := Builder.known_entry (.given hfunc)
  refine .bind (.lift (enterBody_builds (by simp [hfunc]) (by simp [hentry]))) fun _ =>
    .bind (.forM fun c hc => .lift (bindIn_builds _ _ (by simp [hcaptured c hc]))) fun _ =>
    .bind (.forM fun p hp => param_lowers (by simp [hfunc]) (by simp [hentry]) (hparams p hp))
    fun _ => .bind (inOrder_acts hsteps _) fun _ => .bind (.lift finishBody_builds) fun _ =>
    .lift (leaveBody_builds (by simp) (fun e he => ?_) (by simp))
  have hroot := Builder.Finds.root (b := b₂) (G := b₁.known (b.known G ∪ G) ∪ (b.known G ∪ G))
    (.scope he)
  exact .inr (.inr (.inr (.inr (.inr (.inr (.inl hroot))))))

/-! ## Functions -/

/-- A function that is made is owed to the script. -/
theorem newFunc_owes (hb : Settled a₀ D b) (name : String) (span : Span)
    (returnType : Option TypeHint) (flags : Nat) (cls : Option String) :
    Gives (newFunc name span returnType flags cls) b fun f b' =>
      Done a₀ { D with funcs := insert f D.funcs } b {.func f} b' ∧
        (b'.arena.func f).name = name ∧ (b'.arena.func f).cls = cls := by
  let made : FuncId := ⟨b.arena.funcs.size⟩
  let a := (b.arena.newFunc name).2.modifyFunc made fun f =>
    { f with span, file := some b.script.path, returnType := declaredType returnType, flags, cls }
  have hsize : a.funcs.size = b.arena.funcs.size + 1 := by simp [a, Arena.newFunc, Arena.modifyFunc]
  have hlast (f : FuncId) (hge : b.arena.funcs.size ≤ f.index) (hlt : f.index < a.funcs.size) :
      f = made := by
    cases f
    exact congrArg FuncId.mk (Nat.le_antisymm (Nat.le_of_lt_succ (Nat.lt_of_lt_of_eq hlt hsize)) hge)
  have hin : .func made ∈ (b.arena.newFunc name).2.entries := by simp [made, Arena.newFunc]
  have hmade : .func made ∈ (b.arena.newFunc name).2.since a₀ := ⟨hb.adjoins.notMem_func, hin⟩
  have hadjoins : a₀.Adjoins a := (hb.adjoins.newFunc name).modifyFunc hmade fun hr =>
    ⟨hr.entry, hr.params, hr.callable⟩
  have hold (f : FuncId) (hf : f.index < b.arena.funcs.size) : a.func f = b.arena.func f := by
    have hne : made ≠ f := fun heq => Nat.ne_of_gt hf (congrArg FuncId.index heq)
    rw [Arena.func_modifyFunc, if_neg fun h => hne h.1, Arena.func_newFunc, if_neg (Nat.ne_of_lt hf)]
  have htame : b.arena.Tame a :=
    ⟨(Arena.entries_newFunc b.arena name).trans (Arena.entries_modifyFunc _ _ _).ge,
      fun f hf => hold f hf ▸ .refl _⟩
  have hfunc : a.func made = { ((b.arena.newFunc name).2.func made) with
      span, file := some b.script.path, returnType := declaredType returnType, flags, cls } := by
    rw [Arena.func_modifyFunc, if_pos ⟨rfl, hin⟩]
  obtain ⟨hsettled, hlater⟩ : Settled a₀ { D with funcs := insert made D.funcs }
      { b with arena := a } ∧ Later b _ :=
    hb.change hadjoins htame (Set.subset_insert _ _) subset_rfl (fun _ hx => .inl hx)
      (fun f hge hlt => .inl (hlast f hge hlt)) fun _ hop => .inl hop
  refine ⟨⟨hsettled, hlater, ?_⟩, ?_, congrArg Func.cls hfunc⟩
  · rintro _ rfl
    exact ⟨hmade.1, (Arena.entries_modifyFunc _ _ _).ge hin⟩
  · exact (congrArg Func.name hfunc).trans (by rw [Arena.func_newFunc, if_pos rfl])

/-- A function that is owed is listed, unless one of its name is. -/
theorem listFunction_pays {f : FuncId} (hb : Settled a₀ { D with funcs := insert f D.funcs } b)
    (hf : .func f ∈ b.arena.since a₀) :
    Gives (listFunction (b.arena.func f).scopedName f) b fun _ b' => Done a₀ D b ∅ b' := by
  let b' : Builder := { b with script := b.script.addFunction (b.arena.func f).scopedName f }
  have hordered : b.script.ordered ⊆ b'.script.ordered := b.script.ordered_subset_addFunction _ f
  have hsettled : Settled a₀ D b' := by
    refine ⟨hb.adjoins, fun e he => ?_, hb.inputs, hb.calls, fun g hg => ?_, hb.tabled.addFunction f⟩
    · cases he with
      | func => exact hb.roots _ .func
      | block => exact hb.roots _ .block
      | scope he => exact hb.roots _ (.scope he)
      | const he => exact hb.roots _ (.const he)
      | main => exact hb.roots _ .main
      | named he =>
        rw [Script.get?_addFunction] at he
        split at he
        · exact Option.some.inj he ▸ hf
        · exact hb.roots _ (.named he)
      | listed he =>
        rcases Script.mem_ordered_addFunction he with he | rfl
        · exact hb.roots _ (.listed he)
        · exact hf
    · rcases hb.lists g hg with (rfl | howed) | ⟨h, hh, heq⟩
      · exact .inr (hb.tabled.exists_listed g)
      · exact .inl howed
      · exact .inr ⟨h, hordered hh, heq⟩
  exact ⟨hsettled, ⟨subset_rfl, fun _ _ => rfl, hordered⟩, Set.empty_subset _⟩

theorem setCallable_builds {func : FuncId} {op : OpId} (hfunc : .func func ∈ G) (hop : .op op ∈ G) :
    Builds a₀ G (setCallable func op) fun _ => ∅ :=
  change_builds (fun _ ha hG => ha.modifyFunc (hG hfunc) fun hr => ⟨hr.entry, hr.params, fun _ ho =>
    Option.some.inj ho ▸ hG hop⟩) fun a => .modifyFunc a func fun _ => ⟨rfl, id, List.Subset.refl _⟩

section Functions

variable {params : List (Param (Lowering OperandId))} {steps : List (Lowering Unit)}

/-- The name of a function that was made outside of a class, after further steps. -/
theorem Later.scopedName {b' : Builder} {f : FuncId} {name : String} (h : Later b b')
    (hf : .func f ∈ b.arena.since a₀) (hname : (b.arena.func f).name = name)
    (hcls : (b.arena.func f).cls = none) : (b'.arena.func f).scopedName = name := by
  rw [h.names f hf.2, Func.scopedName, hcls]
  exact hname

theorem function_acts (name : String)
    (hparams : ∀ p ∈ params, ∀ x ∈ p.default, (origin a₀).Makes x) (byRef : Bool)
    (returnType : Option TypeHint) (hsteps : ∀ x ∈ steps, (origin a₀).Acts x) (span : Span) :
    (origin a₀).Acts (function name params byRef returnType steps span) := by
  intro G D b hb _
  refine Ends.bind (.lift (newFunc_owes hb name span returnType (refFlag byRef) none)) ?_
  rintro f b₁ ⟨h₁, hname, hcls⟩
  refine Ends.bind (.lift (emit_builds (by simp) rfl span h₁.settled h₁.known)) fun op b₂ h₂ => ?_
  have hknown := h₂.keep h₁.known
  refine Ends.bind (.lift (setCallable_builds (by simp) (by simp) h₂.settled hknown))
    fun _ b₃ h₃ => ?_
  have hknown := hknown.trans h₃.later.since
  refine Ends.bind (body_lowers (by simp) (fun _ hc => by cases hc) hparams hsteps h₃.settled hknown)
    fun _ b₄ h₄ => ?_
  have hlater := (h₂.trans (h₃.trans h₄)).later
  have hpays := listFunction_pays h₄.settled (hlater.since (h₁.known rfl))
  rw [hlater.scopedName (h₁.known rfl) hname hcls] at hpays
  exact .lift (hpays.mono fun _ _ h₅ =>
    ⟨h₅.settled, (h₁.later.trans hlater).trans h₅.later, h₅.known⟩)

theorem method_acts (name : String) (modifiers : Nat)
    (hparams : ∀ p ∈ params, ∀ x ∈ p.default, (origin a₀).Makes x) (byRef : Bool)
    (returnType : Option TypeHint) (hsteps : ∀ x ∈ steps, (origin a₀).Acts x) (span : Span) :
    (origin a₀).Acts (method name modifiers params byRef returnType steps span) := by
  intro G D b hb _
  refine Ends.get (Ends.bind (.lift (newFunc_owes hb name span returnType
    (methodFlags modifiers byRef) b.cls)) ?_)
  rintro f b₁ ⟨h₁, -, -⟩
  refine Ends.bind (.lift (emit_builds (by simp) rfl span h₁.settled h₁.known)) fun op b₂ h₂ => ?_
  have hknown := h₂.keep h₁.known
  refine Ends.bind (.lift (setCallable_builds (by simp) (by simp) h₂.settled hknown))
    fun _ b₃ h₃ => ?_
  have hknown := hknown.trans h₃.later.since
  refine Ends.bind (body_lowers (by simp) (fun _ hc => by cases hc) hparams hsteps h₃.settled hknown)
    fun _ b₄ h₄ => ?_
  have hlater := (h₂.trans (h₃.trans h₄)).later
  have hpays := listFunction_pays h₄.settled (hlater.since (h₁.known rfl))
  exact Ends.look (.lift (hpays.mono fun _ _ h₅ =>
    ⟨h₅.settled, (h₁.later.trans hlater).trans h₅.later, h₅.known⟩))

theorem captures_builds (uses : List Capture) :
    Builds a₀ G (captures uses) fun made => Entry.operands (made.map (·.2)) := by
  induction uses generalizing G with
  | nil => exact .pure (by simp)
  | cons used rest ih =>
    exact .get fun _ => .bind (readName_builds used.name (by simp)) fun _ =>
      .bind (newString_builds _) fun _ =>
      .bind (newOperand_builds (by simp [OperandKind.links]) rfl) fun _ => .bind ih fun _ =>
      .pure (by simp +contextual)

theorem closure_makes (hparams : ∀ p ∈ params, ∀ x ∈ p.default, (origin a₀).Makes x)
    (uses : List Capture) (byRef isStatic : Bool) (returnType : Option TypeHint)
    (hsteps : ∀ x ∈ steps, (origin a₀).Acts x) (span : Span) :
    (origin a₀).Makes (closure params uses byRef isStatic returnType steps span) := by
  intro G D b hb hG
  refine Ends.bind (P := fun _ b₁ => Settled a₀ D b₁ ∧ Later b b₁) (.lift ?_) ?_
  · exact hb.turn rfl rfl rfl fun e he => hb.roots e (he.keep rfl rfl rfl rfl rfl rfl rfl)
  rintro name b₁ ⟨hb₁, hlater₁⟩
  refine Ends.bind (.lift (newFunc_owes hb₁ name span returnType _ none)) ?_
  rintro f b₂ ⟨h₂, hname, hcls⟩
  refine Ends.bind (.lift (captures_builds uses h₂.settled h₂.known)) fun captured b₃ h₃ => ?_
  have hknown := h₃.keep h₂.known
  have hcaptured (c : String × OperandId) (hc : c ∈ captured) :
      .operand c.2 ∈ Entry.operands (captured.map (·.2)) :=
    Entry.mem_operands.2 (List.mem_map_of_mem hc)
  refine Ends.bind (body_lowers (by simp) (fun c hc => .inl (hcaptured c hc)) hparams hsteps
    h₃.settled hknown) fun _ b₄ h₄ => ?_
  have hlater := (h₃.trans h₄).later
  have hpays := listFunction_pays h₄.settled (hlater.since (h₂.known rfl))
  rw [hlater.scopedName (h₂.known rfl) hname hcls] at hpays
  refine Ends.bind (.lift hpays) fun _ b₅ h₅ => ?_
  have hrest : Lowers a₀ (Entry.operands (captured.map (·.2)) ∪ {.func f}) (do
      let result ← newTemporary none
      let op ← emit (.closure f (captured.map (·.2)) result) span
      setCallable f op
      return result) fun x => {.operand x} :=
    .bind (.lift newResult_builds) fun _ =>
      .bind (.lift (emit_builds (by simp +contextual [or_imp]) rfl span)) fun _ =>
      .bind (.lift (setCallable_builds (by simp) (by simp))) fun _ => .pure (by simp)
  refine (hrest h₅.settled (hknown.trans (h₄.later.trans h₅.later).since)).mono fun _ _ h₆ => ?_
  exact ⟨h₆.settled, (hlater₁.trans h₂.later).trans (hlater.trans (h₅.later.trans h₆.later)),
    h₆.known⟩

end Functions

/-! ## Static variables -/

theorem staticVar_acts {v : Declared (Lowering OperandId)} (hv : ∀ x ∈ v.default, (origin a₀).Makes x) :
    (origin a₀).Acts (staticVar v) := fun _ =>
  .bind (defaultApart_lowers hv) fun _ => .bind (.lift (newString_builds _)) fun _ =>
    .bind (.lift (newOperand_builds (by simp +contextual [OperandKind.links]) rfl)) fun _ =>
    .get fun _ => .bind (.lift (bindIn_builds _ _ (by simp))) fun _ =>
    .bind (.lift (emit_builds (by simp +contextual) rfl _)) fun _ => .pure (Set.empty_subset _)

/-- Lowering keeps to the entries of the file, whatever the syntax tree. -/
def originTheory (a₀ : Arena) : Theory where
  toLogic := origin a₀
  function name byRef returnType span hparams hsteps :=
    function_acts name hparams byRef returnType hsteps span
  method name modifiers byRef returnType span hparams hsteps :=
    method_acts name modifiers hparams byRef returnType hsteps span
  closure uses byRef isStatic returnType span hparams hsteps :=
    closure_makes hparams uses byRef isStatic returnType hsteps span
  staticVar := staticVar_acts

/-! ## Files -/

/-- A file starts with its top level as the only function, which is listed. -/
theorem settled_start (a : Arena) (path : String) (labels : Labels) :
    Settled a {} (Builder.start a path labels) := by
  let b := Builder.start a path labels
  let main : FuncId := ⟨a.funcs.size⟩
  have hin : .func main ∈ (a.newFunc Func.mainName).2.entries := by simp [main, Arena.newFunc]
  have hmade : .func main ∈ (a.newFunc Func.mainName).2.since a :=
    ⟨(Arena.Adjoins.refl a).notMem_func, hin⟩
  have hadjoins : a.Adjoins b.arena := ((Arena.Adjoins.refl a).newFunc Func.mainName).modifyFunc hmade
    fun hr => ⟨hr.entry, hr.params, hr.callable⟩
  have hmain : .func main ∈ b.arena.since a := ⟨hmade.1, (Arena.entries_modifyFunc _ _ _).ge hin⟩
  have hname : (b.arena.func main).scopedName = Func.mainName := by
    change (((a.newFunc Func.mainName).2.modifyFunc main _).func main).scopedName = _
    rw [Arena.func_modifyFunc, if_pos ⟨rfl, hin⟩, Arena.func_newFunc, if_pos rfl]
    rfl
  have htabled : b.script.Tabled b.arena := Script.tabled_ofMain path hname
  refine ⟨hadjoins, fun e he => ?_, fun x hx hinput => ?_, fun op hop hcall => ?_, fun f hf => .inr ?_,
    htabled⟩
  · cases he with
    | func => exact hmain
    | block => exact (hadjoins.closed _ hmain.1 hmain.2).entry
    | scope he => exact absurd he Scope.not_root_empty
    | const he => simp [Builder.start] at he
    | main => exact hmain
    | named he => exact Script.eq_main_of_ofMain he ▸ hmain
    | listed he => exact List.mem_singleton.1 he ▸ hmain
  · exact (hx (Arena.operand_mem_of_isInput (a := a) hinput)).elim
  · exact (hop (Arena.op_mem_of_isListedCall (a := a) hcall)).elim
  · have hlt : f.index < b.arena.funcs.size := hf.2
    have hsize : b.arena.funcs.size = a.funcs.size + 1 := by
      simp [b, Builder.start, Arena.newFunc, Arena.modifyFunc]
    have heq : f = main := by
      cases f
      exact congrArg FuncId.mk (Nat.le_antisymm (Nat.le_of_lt_succ (Nat.lt_of_lt_of_eq hlt hsize))
        (Nat.le_of_not_lt hf.1))
    exact heq ▸ ⟨main, List.mem_cons_self, rfl⟩

/-- Lowering a file, from its start. -/
theorem ends_body (a : Arena) (path : String) (labels : Labels) (stmts : List Stmt) :
    Ends a (body (Builder.start a path labels).func [] [] (Lower.stmts stmts))
      (Builder.start a path labels) fun _ b => Settled a {} b := by
  have hstart := settled_start a path labels
  have hmain : {.func (Builder.start a path labels).func} ⊆
      (Builder.start a path labels).arena.since a :=
    Set.singleton_subset_iff.2 (hstart.roots _ .func)
  exact (body_lowers (Set.mem_singleton _) (fun _ hc => by cases hc) (params_make (originTheory a) [])
    (stmts_act (originTheory a) stmts) hstart hmain).mono fun _ _ h => h.settled

end Lower

/-- What lowering a file comes to, if it succeeds. -/
theorem Lower.settled_lowerFile {a a' : Arena} {path : String} {labels : Labels} {stmts : List Stmt}
    {s : Script} (h : lowerFile a path labels stmts = (.ok s, a')) :
    ∃ b : Builder, b.script = s ∧ b.arena = a' ∧ Settled a {} b := by
  rw [lowerFile] at h
  rcases hrun : (Lower.body (Lower.Builder.start a path labels).func [] []
    (Lower.stmts stmts)).run.run (Lower.Builder.start a path labels) with ⟨e | y, b⟩ <;> rw [hrun] at h
  · cases h
  · cases h
    exact ⟨b, rfl, rfl, (ends_body a path labels stmts).1 y b hrun⟩

theorem adjoins_lowerFile (a : Arena) (path : String) (labels : Labels) (stmts : List Stmt) :
    a.Adjoins (lowerFile a path labels stmts).2 := by
  obtain ⟨hok, herror⟩ := Lower.ends_body a path labels stmts
  rw [lowerFile]
  rcases hrun : (Lower.body (Lower.Builder.start a path labels).func [] []
    (Lower.stmts stmts)).run.run (Lower.Builder.start a path labels) with ⟨e | y, b⟩
  · exact herror e b hrun
  · exact (hok y b hrun).adjoins

/-- The functions of a script are its own, and those that it lists say which inputs are read and which
calls are made by the entries that were made with it. -/
structure Script.Tells (a₀ a : Arena) (s : Script) : Prop where
  named : ∀ name f, s.functions.get? name = some f → .func f ∈ a.since a₀
  ordered : ∀ f ∈ s.ordered, .func f ∈ a.since a₀
  main : s.main ∈ s.ordered
  inputs : ∀ x, .operand x ∉ a₀.entries → (a.operand x).kind.isInput = true →
    ∃ f ∈ s.ordered, (a.func f).readsInput = true
  calls : ∀ op, .op op ∉ a₀.entries → (a.op op).kind.isListedCall = true →
    ∃ f ∈ s.ordered, op ∈ (a.func f).calls

/-- Functions that were made since have different names. -/
def Arena.DistinctNames (a₀ a : Arena) : Prop :=
  ((a.funcs.toList.drop a₀.funcs.size).map Func.scopedName).Nodup

instance (a₀ a : Arena) : Decidable (a₀.DistinctNames a) := inferInstanceAs (Decidable (List.Nodup _))

theorem Arena.DistinctNames.eq {a₀ a : Arena} (h : a₀.DistinctNames a) {f g : FuncId}
    (hf : .func f ∈ a.since a₀) (hg : .func g ∈ a.since a₀)
    (heq : (a.func f).scopedName = (a.func g).scopedName) : f = g := by
  have hname {f : FuncId} (hf : .func f ∈ a.since a₀) :
      ((a.funcs.toList.drop a₀.funcs.size).map Func.scopedName)[f.index - a₀.funcs.size]? =
        some (a.func f).scopedName := by
    have hlt : f.index < a.funcs.size := hf.2
    rw [List.getElem?_map, List.getElem?_drop, Nat.add_sub_cancel' (Nat.le_of_not_lt hf.1)]
    simp [Arena.func, hlt]
  have hindex : f.index - a₀.funcs.size = g.index - a₀.funcs.size := by
    refine (List.getElem?_inj ?_ h).1 ((hname hf).trans (heq ▸ (hname hg).symm))
    exact (List.getElem?_eq_some_iff.1 (hname hf)).1
  have hle : a₀.funcs.size ≤ f.index := Nat.le_of_not_lt hf.1
  have hle' : a₀.funcs.size ≤ g.index := Nat.le_of_not_lt hg.1
  have hsame : f.index = g.index := by omega
  cases f
  exact congrArg FuncId.mk hsame

theorem tells_lowerFile {a a' : Arena} {path : String} {labels : Labels} {stmts : List Stmt}
    {s : Script} (h : lowerFile a path labels stmts = (.ok s, a')) (hnames : a.DistinctNames a') :
    s.Tells a a' := by
  obtain ⟨b, rfl, rfl, hb⟩ := Lower.settled_lowerFile h
  -- a function of the same name is listed, so it is the function itself
  have hlisted {f : FuncId} (hf : .func f ∈ b.arena.since a) : f ∈ b.script.ordered := by
    obtain ⟨g, hg, heq⟩ := (hb.lists f hf).resolve_left id
    rwa [← hnames.eq (hb.roots _ (.listed hg)) hf heq]
  refine ⟨fun name f hf => hb.roots _ (.named hf), fun f hf => hb.roots _ (.listed hf),
    hlisted (hb.roots _ .main), fun x hx hinput => ?_, fun op hop hcall => ?_⟩
  · obtain ⟨f, hf, hreads⟩ := hb.inputs x hx hinput
    exact ⟨f, hlisted hf, hreads⟩
  · obtain ⟨f, hf, hmem⟩ := (hb.calls op hop hcall).resolve_left id
    exact ⟨f, hlisted hf, hmem⟩

/-! ### The table and the list -/

section Table

variable {a a' : Arena} {path : String} {labels : Labels} {stmts : List Stmt} {s : Script}
  (h : lowerFile a path labels stmts = (.ok s, a'))
include h

/-- The table of a script and its list have the same names. -/
theorem tabled_lowerFile : s.Tabled a' := by
  obtain ⟨b, rfl, rfl, hb⟩ := Lower.settled_lowerFile h
  exact hb.tabled

/-- The function that a name stands for is listed, if no two functions of the file have the same
name; and every listed function stands under a name. -/
theorem mem_ordered_iff_named (hnames : a.DistinctNames a') (f : FuncId) :
    f ∈ s.ordered ↔ ∃ name, s.functions.get? name = some f := by
  obtain ⟨b, rfl, rfl, hb⟩ := Lower.settled_lowerFile h
  refine hb.tabled.agree_iff.2 (fun g hg => ?_) f
  obtain ⟨g', hg'⟩ := hb.tabled.known g hg
  obtain rfl : g' = g :=
    hnames.eq (hb.roots _ (.named hg')) (hb.roots _ (.listed hg)) (hb.tabled.named _ g' hg')
  exact hg'

end Table

end QueryTaint
