import QueryTaint.Proofs.Flow.Body
import QueryTaint.Proofs.Lower.Tree
import QueryTaint.Proofs.Rename.Value

/-!
# Reads of variables in plain bodies

A plain body is lowered from an empty entry. Lowering its statements keeps the invariant of lowering
and the order of blocks, so that at the end all versions are settled (`body_settles`). The main result
is `env_read_eq_last_store`: on every walk, the operand that a read of a variable took has the value
that was written last to the variable, and no value if nothing was written.
-/

namespace QueryTaint

/-- A block that is there, not dead and empty, and that nothing leads to. -/
structure Arena.Blank (a : Arena) (block : BlockId) : Prop where
  lt : block.index < a.blocks.size
  live : (a.block block).dead = false
  ops : (a.block block).ops = []
  phis : (a.block block).phis = []
  preds : (a.block block).preds = []

namespace Lower

variable {F : Base} {D : Due} {b b' : Builder}

/-! ## The start of a body -/

/-- A body that is lowered from a block on. -/
def Base.at (b : Builder) (entry : BlockId) : Base :=
  ⟨entry, b.arena.blocks.size, b.arena.operands.size, b.reads.size⟩

theorem Inv.of_blank {entry : BlockId} (h : b.arena.Blank entry) (func : FuncId) :
    Inv (.at b entry) {} { b with func, scope := {}, block := entry } := by
  have hblock {block : BlockId} (howns : (Base.at b entry).Owns block) :
      (b.arena.block block).ops = [] ∧ (b.arena.block block).phis = [] := by
    rcases howns with rfl | hle
    · exact ⟨h.ops, h.phis⟩
    · rw [Arena.block_of_le b.arena hle]
      exact ⟨rfl, rfl⟩
  have hlookup (block : BlockId) (name : String) : ({} : Scope).lookup block name = none := by
    unfold Scope.lookup
    rw [show ({} : Scope).versions = ∅ from rfl, Std.TreeMap.getD_emptyc]
    exact Std.TreeMap.getElem?_emptyc
  have hunbound {block : BlockId} {name : String} {x : OperandId} {P : Prop}
      (hx : ({} : Scope).lookup block name = some x) : P := by
    cases (hlookup block name).symm.trans hx
  constructor
  case entry => exact h.lt
  case blocks => exact Nat.le_refl _
  case operands => exact Nat.le_refl _
  case readsSize => exact Nat.le_refl _
  case here => exact ⟨.inl rfl, h.lt⟩
  case building => rfl
  case start => exact h.preds
  case tidy => exact fun x hx => absurd hx.2 (Nat.not_lt.2 hx.1)
  case sound =>
    intro block howns op hop
    rw [(hblock howns).1] at hop
    cases hop
  case asserts =>
    intro block howns i op hop
    rw [(hblock howns).1] at hop
    cases hop
  case phis =>
    intro block howns phi hphi
    rw [(hblock howns).2] at hphi
    cases hphi
  case pending => exact fun p hp => absurd hp (Array.not_mem_empty p)
  case distinct => exact List.nodup_nil
  case results => exact fun p hp => absurd hp (Array.not_mem_empty p)
  case bound => exact fun _ _ _ _ => hunbound
  case current => exact fun _ _ _ _ _ => hunbound
  case written =>
    intro block howns name _ hne
    rw [(hblock howns).1] at hne
    exact absurd rfl hne
  case due => exact nofun
  case reads =>
    intro r hr
    have hr : r ∈ b.reads.toList.drop b.reads.size := hr
    rw [List.drop_eq_nil_of_le (Nat.le_of_eq Array.length_toList)] at hr
    cases hr
  case gotos => exact nofun
  case labels =>
    intro label target ht
    rw [show ({} : Scope).labels.get? label = none from Std.TreeMap.getElem?_emptyc] at ht
    cases ht

/-- The top level of a file is lowered from a blank block. -/
theorem blank_start (a : Arena) (path : String) (labels : Labels) :
    (Builder.start a path labels).arena.Blank
      ((Builder.start a path labels).arena.func (Builder.start a path labels).func).entry := by
  have hlt : a.blocks.size < (Builder.start a path labels).arena.blocks.size :=
    Nat.lt_of_lt_of_eq (Nat.lt_succ_self _) (Array.size_push ..).symm
  have hblock : (Builder.start a path labels).arena.block ⟨a.blocks.size⟩ =
      { func := some ⟨a.funcs.size⟩ } :=
    (getD_push ..).trans (if_pos rfl)
  rw [entry_start]
  exact ⟨hlt, by rw [hblock], by rw [hblock], by rw [hblock], by rw [hblock]⟩

/-! ## Parameters -/

theorem apart_succeeds {value : Lowering OperandId} (hvalue : Keeps F value F.Mine)
    (h : Inv F {} b) :
    Succeeds (apart value) b fun y b' => After F {} b b' ∧ b'.block = b.block ∧
      F.Mine b'.arena y.1 := by
  refine Succeeds.bind (.lift (newBlock_gives h)) ?_
  rintro block b₁ ⟨h₁, hs₁, ht⟩
  refine Succeeds.bind (P := fun x b' => After F {} b b' ∧ b'.block = b.block ∧ F.Mine b'.arena x)
    ?_ fun x b₂ h₂ => .pure h₂
  refine Succeeds.get (Succeeds.bind (.lift (goTo_gives h₁.inv ht.holds)) ?_)
  rintro _ b₂ ⟨h₂, -, -⟩
  refine Succeeds.bind (hvalue h₂.inv) ?_
  rintro x b₃ ⟨h₃, hx⟩
  have h₃ := (h₁.trans h₂).trans h₃
  refine Succeeds.bind (.lift (goTo_gives h₃.inv (hs₁.block ▸ h.here.grows h₃.grows))) ?_
  rintro _ b₄ ⟨h₄, hblock, harena⟩
  exact .pure ⟨h₃.trans h₄, hblock.trans hs₁.block, harena ▸ hx⟩

theorem defaultApart_succeeds {value : Option (Lowering OperandId)}
    (hvalue : ∀ x ∈ value, Keeps F x F.Mine) (h : Inv F {} b) :
    Succeeds (defaultApart value) b fun y b' => After F {} b b' ∧ b'.block = b.block ∧
      ∀ x ∈ y.1, F.Mine b'.arena x := by
  cases value with
  | none => exact .pure ⟨⟨h, .refl _⟩, rfl, nofun⟩
  | some value =>
    refine Succeeds.bind (apart_succeeds (hvalue value rfl) h) ?_
    rintro ⟨x, block⟩ b₁ ⟨h₁, hblock, hx⟩
    exact .pure ⟨h₁, hblock, fun y hy => by cases hy; exact hx⟩

/-- A version is bound in the current block and written by an operation that is there already. -/
theorem Inv.bindWritten (h : Inv F {} b) {name : String} {x : OperandId} {op : OpId}
    (hx : F.Mine b.arena x) (hname : b.arena.nameOf? x = some name)
    (hlt : op.index < b.arena.ops.size) (hwrites : (b.arena.op op).kind.mentioned true = [x])
    (hsuccessors : (b.arena.op op).kind.successors = [])
    (hnoPhi : ∀ vars result, (b.arena.op op).kind ≠ .phi vars result)
    (hnoAssertion : ∀ e s r, (b.arena.op op).kind ≠ .assertion e s r) :
    Inv F {} { b with
      arena := b.arena.append b.block op
      scope := b.scope.bind b.block name x } := by
  have happendable : Appendable F ⟨some x, []⟩
      { b with scope := b.scope.bind b.block name x } b.block op :=
    { holds := h.here
      lt := hlt
      noPhi := hnoPhi
      mine := by rw [hwrites]; exact fun y hy => List.mem_singleton.1 hy ▸ hx
      targets := by rw [hsuccessors]; exact nofun
      here := fun _ => rfl
      writes := fun n _ => by rw [Arena.writtenVersion?, hwrites, List.find?_singleton]; rfl
      asserts := fun e s r hkind => absurd hkind (hnoAssertion e s r) }
  have happend := (h.bindVersion rfl hx hname).append happendable
  rw [hsuccessors] at happend
  exact happend

theorem param_succeeds {p : Param (Lowering OperandId)} (hp : ∀ x ∈ p.default, Keeps F x F.Mine)
    (func : FuncId) (h : Inv F {} b) {entry : BlockId} (hblock : b.block = entry) :
    Succeeds (param func entry p) b fun _ b' => Inv F {} b' ∧ b'.block = entry := by
  refine Succeeds.bind (defaultApart_succeeds hp h) ?_
  rintro ⟨default, defaultBlock⟩ b₁ ⟨h₁, hb₁, hdefault⟩
  refine Succeeds.bind (.lift (newString_gives h₁.inv p.name)) ?_
  rintro n b₂ ⟨h₂, hs₂, hn, hnkind⟩
  refine Succeeds.bind (.lift (newOperand_gives h₂.inv (.variable n none)
    ⟨hn, hn.2, ⟨p.name, hnkind⟩, fun v hv => absurd hv (Option.not_mem_none v)⟩)) ?_
  rintro var b₃ ⟨h₃, hs₃, hvar, hvarkind⟩
  refine Succeeds.bind (.lift (newVersion_gives h₃.inv hvar hvarkind)) ?_
  rintro x b₄ ⟨h₄, hs₄, hx, -, hname, -⟩
  have hn₄ := (hn.grows h₃.grows).grows h₄.grows
  have hg := (h₂.grows.trans h₃.grows).trans h₄.grows
  generalize hkind : OpKind.param n default defaultBlock p.byRef p.variadic (declaredType p.type)
    func x = kind
  have hslots : kind.slots = OpKind.one .name n ++ OpKind.optional .default default ++
      OpKind.one .result x := by
    rw [← hkind]
    rfl
  have hmine : ∀ e ∈ kind.slots, F.Mine b₄.arena e.2 := by
    rw [hslots, List.forall_mem_append, List.forall_mem_append]
    exact ⟨⟨forall_mem_one.2 hn₄, forall_mem_optional.2 fun y hy => (hdefault y hy).grows hg⟩,
      forall_mem_one.2 hx⟩
  refine Succeeds.bind (.lift (detached_gives h₄.inv kind p.span ?_)) ?_
  · intro sort y hy
    obtain ⟨slot, hm, -⟩ := OpKind.mem_mentioned.1 hy
    exact hmine (slot, y) hm
  rintro op b₅ ⟨h₅, hs₅, hlt, hop, -⟩
  have he : Evolves F {} b₄ b₅ := ⟨h₄.inv, h₅.grows, h₅.inv.tidy, hs₅.silent.pending⟩
  have hentry : b₅.block = entry :=
    ((((hs₅.block.trans hs₄.block).trans hs₃.block).trans hs₂.block).trans hb₁).trans hblock
  have htext : b₃.arena.stringOf? n = some p.name := by
    rw [Arena.stringOf?, h₃.grows.scalar hn.2 hnkind]
    rfl
  have hinv := h₅.inv.bindWritten (hx.grows h₅.grows)
    ((he.nameOf?_eq hx).trans (hname.trans htext)) hlt
    (by rw [hop, ← hkind]; cases default <;> rfl) (by rw [hop, ← hkind]; rfl)
    (by simp [hop, ← hkind]) (by simp [hop, ← hkind])
  have hfunc := (hinv.changeBlocks ((b₅.arena.append b₅.block op).modifyFunc func
    fun f => { f with params := f.params ++ [op] }) rfl rfl (.of_blocks rfl)).1
  subst hentry
  exact ⟨(), _, rfl, hfunc, rfl⟩

/-! ## The end of a body -/

variable {entry : BlockId} {start : Builder} {R : Reserve} {strict : Prop}

theorem Quest.Fit.of_standing (hs : Standing ⟨start.arena, entry, strict⟩ R b)
    (hinv : Inv (.at start entry) {} b) {name : String} (hplain : IsPlainName name) :
    Quest.Fit ⟨.at start entry, b, name⟩ where
  inv := hinv
  plain := hplain
  closed := hs.ground.closed
  ranked := hs.ground.ranked
  placed p hp := (hs.pending p hp).holds.2

/-- All versions of plain variables are settled. -/
def Settles (F : Base) (b : Builder) : Prop :=
  ∃ before, ∀ name, IsPlainName name → Renamed ⟨F, before, name⟩ b

theorem completePhis_settles (hs : Standing ⟨start.arena, entry, strict⟩ R b)
    (hlive : R.deaths entry = some false) (hinv : Inv (.at start entry) {} b) :
    Gives (do
      let pending := (← get).scope.pending
      changeScope fun s => { s with complete := true, pending := #[] }
      completePhis pending.toList) b fun _ b' => Settles (.at start entry) b' := by
  refine ⟨b, fun name hplain => ?_⟩
  have hfit := Quest.Fit.of_standing hs hinv hplain
  obtain ⟨hresolved, hreads⟩ := Quest.completePhis_resolves hfit
    (fun p hp => Array.mem_toList_iff.1 hp) hinv.distinct hfit.start fun _ _ => rfl
  exact ⟨hfit, (hs.deaths entry false hlive).2, hresolved, hreads⟩

theorem finishBody_settles (hs : Ready ⟨start.arena, entry, strict⟩ R b)
    (hlive : R.deaths entry = some false) (hinv : Inv (.at start entry) {} b) :
    Gives finishBody b fun _ b' => Settles (.at start entry) b' := by
  refine Gives.get (Gives.look ?_)
  split
  · refine Gives.bind ((emit_leaves hs rfl .none).and (emitReads_gives hinv (.returns none) nofun rfl
      nofun nofun .none)) ?_
    rintro _ b₁ ⟨hs₁, h₁, -⟩
    exact completePhis_settles hs₁ hlive h₁.inv
  · exact completePhis_settles hs.standing hlive hinv

/-! ## Bodies -/

theorem Succeeds.and_results {α : Type} {x : Lowering α} {S : Site} {P P' : α → Builder → Prop}
    (h : Succeeds x b P) (h' : Results S x b P') :
    Succeeds x b fun y b' => P y b' ∧ P' y b' := by
  obtain ⟨y, b', hrun, hy⟩ := h
  exact ⟨y, b', hrun, hy, h'.ok y b' hrun⟩

theorem Blank.startable (h : b.arena.Blank entry) : Startable False b.arena entry where
  shaped := False.elim
  lt := h.lt
  preds := h.preds
  goes := by
    rw [h.ops]
    exact nofun
  leaf := False.elim

/-- A body is lowered from its entry on, without failing, and all versions are settled. -/
theorem body_settles {func : FuncId} (hentry : (b.arena.func func).entry = entry)
    (hblank : b.arena.Blank entry) {params : List (Param (Lowering OperandId))}
    (hparams : ∀ p ∈ params, ∀ x ∈ p.default,
      Keeps (.at b entry) x (Base.at b entry).Mine ∧ Moves x)
    {steps : List (Lowering Unit)} (hsteps : ∀ x ∈ steps, Runs (.at b entry) x ∧ Moves x) :
    Succeeds (body func [] params steps) b fun _ b' => ∃ b'', Settles (.at b entry) b'' ∧
      b'.arena = b''.arena ∧ b'.reads = b''.reads := by
  subst hentry
  refine Succeeds.look (Succeeds.get (Succeeds.get (Succeeds.get ?_)))
  generalize (b.arena.func func).entry = entry at hblank hparams hsteps ⊢
  let I (b₁ : Builder) : Prop := (Inv (.at b entry) {} b₁ ∧ b₁.block = entry) ∧
    Ready ⟨b.arena, entry, False⟩ (Reserve.know {} entry false) b₁ ∧ b₁.block = entry
  have hready := (Ready.start (Blank.startable hblank) func).know hblank.lt
  rw [hblank.live] at hready
  refine Succeeds.bind (P := fun _ => I) ⟨(), _, rfl, ⟨.of_blank hblank func, rfl⟩,
    hready, rfl⟩ fun _ b₁ h₁ => ?_
  refine Succeeds.bind (Succeeds.forM h₁ nofun) fun _ b₂ h₂ => ?_
  refine Succeeds.bind (Succeeds.forM h₂ fun p hp b₃ h₃ => ?_) fun _ b₃ h₃ => ?_
  · exact (param_succeeds (fun x hx => (hparams p hp x hx).1) func h₃.1.1 h₃.1.2).and_results
      (param_results (fun x hx => (hparams p hp x hx).2) func h₃.2.1 h₃.2.2)
  refine Succeeds.bind ((inOrder_runs (fun x hx => (hsteps x hx).1) h₃.1.1).and_results
    (inOrder_moves (fun x hx => (hsteps x hx).2) h₃.2.1)) ?_
  rintro _ b₄ ⟨h₄, hs₄⟩
  refine Succeeds.bind (.lift (finishBody_settles hs₄ (if_pos rfl) h₄.inv)) fun _ b₅ h₅ => ?_
  exact ⟨(), _, rfl, b₅, h₅, rfl, rfl⟩

/-- Whether the default values of parameters are plain. -/
def plainParams (l : List (Param Expr)) : Bool := l.all fun p => plainOption p.default

theorem params_keep {l : List (Param Expr)} (h : plainParams l = true) :
    ∀ p ∈ params l, ∀ x ∈ p.default, Keeps F x F.Mine := by
  induction l with
  | nil => exact nofun
  | cons p rest ih =>
    obtain ⟨hp, hrest⟩ := Bool.and_eq_true_iff.1 h
    exact List.forall_mem_cons.2 ⟨option_keeps p.default hp, ih hrest⟩

/-- Lowering a plain body from an empty entry succeeds, and on every walk through it each read of a
plain variable takes an operand with the value that was written last to the variable on the walk
before the read, and without a value if there was none. -/
theorem env_read_eq_last_store (b : Builder) (func : FuncId)
    (hblank : b.arena.Blank (b.arena.func func).entry) (parameters : List (Param Expr))
    (hparams : plainParams parameters = true) (statements : List Stmt)
    (hstmts : plainStmts statements = true) :
    ∃ b', (body func [] (params parameters) (stmts statements)).run.run b = (.ok (), b') ∧
      ∀ {D : Type} (E : Effects D) (undefined : D), E.Copies b'.arena undefined →
      ∀ block rest, b'.arena.Walk (b.arena.func func).entry (block :: rest) →
      ∀ r ∈ b'.reads.toList.drop b.reads.size, r.block = block → IsPlainName r.name →
        (b'.arena.memoryAt E block rest r.index).env r.operand =
          (b'.arena.storesBefore E r.name block rest r.index).getLastD undefined := by
  obtain ⟨⟨⟩, b', hrun, b'', ⟨before, hrenamed⟩, harena, hreads⟩ :=
    body_settles rfl hblank (fun p hp x hx => ⟨params_keep hparams p hp x hx,
      params_move parameters p hp x hx⟩) fun x hx => ⟨stmts_run statements hstmts x hx,
      stmts_move statements x hx⟩
  refine ⟨b', hrun, fun E undefined hE block rest hw r hr hblock hplain => ?_⟩
  have h := hrenamed r.name hplain
  rw [harena] at hE hw ⊢
  rw [hreads, h.reads] at hr
  obtain ⟨-, hindex, hcurrent⟩ := h.fit.inv.reads r hr hplain
  subst hblock
  exact h.env_current hE (h.trail_of_walk hw) hindex hcurrent

/-- A variable is written, and again in a loop as long as it is true, and then printed. -/
def rewriting : List Stmt :=
  let var : Expr := .mk (.variable "x") .none
  let write (text : String) : Stmt :=
    .mk (.expr (.mk (.assign var (.mk (.literal (.string text)) .none)) .none)) .none
  [write "", .mk (.whileLoop var [write "a"]) .none, .mk (.echo [var]) .none]

/-- The operands of the strings of `rewriting` have themselves as values, and operations pass the
first value on that they read. -/
def passing : Effects (Option OperandId) where
  start x := if x = ⟨0⟩ ∨ x = ⟨10⟩ then some x else none
  value _ _ values _ := values.headD none

/-- What is printed behind the loop was written in the loop, on a walk that goes through it once. -/
theorem env_read_eq_last_store_rewriting :
    ∃ b', (body ⟨0⟩ [] (params []) (stmts rewriting)).run.run (.start {} "" ⟨"", 0, 0⟩) =
        (.ok (), b') ∧
      (b'.arena.memoryAt passing ⟨3⟩ [⟨1⟩, ⟨2⟩, ⟨1⟩, ⟨0⟩] 0).env ⟨20⟩ = some ⟨10⟩ := by
  obtain ⟨b', hrun, h⟩ := env_read_eq_last_store (.start {} "" ⟨"", 0, 0⟩) ⟨0⟩
    (blank_start {} "" ⟨"", 0, 0⟩) [] rfl rewriting rfl
  obtain rfl := congrArg Prod.snd hrun
  refine ⟨_, hrun, (h passing none ⟨fun x hx => ?_, fun _ _ _ _ _ _ _ _ => rfl⟩ ⟨3⟩
    [⟨1⟩, ⟨2⟩, ⟨1⟩, ⟨0⟩] ?_ ⟨⟨3⟩, 0, "x", ⟨20⟩⟩ ?_ rfl ?_).trans ?_⟩
  · refine if_neg ?_
    rintro (rfl | rfl) <;> revert hx <;> decide +kernel
  · refine .step (.step (.step (.step .start ?_) ?_) ?_) ?_ <;> decide +kernel
  · decide +kernel
  · unfold IsPlainName
    decide +kernel
  · decide +kernel

end Lower

end QueryTaint
