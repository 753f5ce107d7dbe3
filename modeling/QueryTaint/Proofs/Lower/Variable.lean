import QueryTaint.Proofs.Lower.Step

/-!
# Reading and writing variables

While a body is lowered, reading a variable takes the version that is current (`readVariable_gives`)
and writing it binds a version that the next operation has to write (`writeVariable_gives`). What a
condition asserts is read and written in this way at the start of its branches.
-/

namespace QueryTaint.Lower

variable {F : Base} {D D' : Due} {b b' : Builder}

/-- A step that places no operations. -/
structure Silent (b b' : Builder) : Prop where
  block : b'.block = b.block
  ops : ∀ block, (b'.arena.block block).ops = (b.arena.block block).ops
  pending : ∀ p ∈ b.scope.pending, p ∈ b'.scope.pending

theorem Silent.trans {b₁ b₂ : Builder} (h : Silent b b₁) (h' : Silent b₁ b₂) : Silent b b₂ :=
  ⟨h'.block.trans h.block, fun block => (h'.ops block).trans (h.ops block),
    fun p hp => h'.pending p (h.pending p hp)⟩

theorem Still.silent (h : Still b b') : Silent b b' :=
  ⟨h.block, h.ops, by rw [h.scope]; exact fun _ hp => hp⟩

/-- What is current at the end of the current block. -/
abbrev Now (b : Builder) (name : String) (x : OperandId) : Prop :=
  Current b b.block (b.arena.block b.block).ops.length name x

/-- What is current stays so when nothing is placed. -/
theorem Inv.now_of_silent (h : Inv F D b) (h' : After F D' b b') (hs : Silent b b') {name : String}
    {x : OperandId} (hx : Now b name x) : Now b' name x := by
  have he : Evolves F D b b' := ⟨h, h'.grows, h'.inv.tidy, hs.pending⟩
  unfold Now
  rw [hs.block, hs.ops]
  exact he.current h.here.1 (Nat.le_refl _) hx

/-! ## Reading -/

theorem newPhi_gives (h : Inv F D b) (name : String) :
    Gives (newPhi name) b fun y b' => After F D b b' ∧ Still b b' ∧ F.Mine b'.arena y.1 ∧
      (b'.arena.operand y.1).kind.isTemporary = true ∧ b'.arena.nameOf? y.1 = some name ∧
      y.2.index < b'.arena.ops.size ∧ (b'.arena.op y.2).kind = .phi [] y.1 ∧
      b.arena.ops.size ≤ y.2.index ∧ b.arena.operands.size ≤ y.1.index := by
  refine Gives.bind (newVariable_gives h name) ?_
  rintro var b₁ ⟨h₁, hs₁, hvar, n, hkind, hn⟩
  refine Gives.bind (newVersion_gives h₁.inv hvar hkind) ?_
  rintro r b₂ ⟨h₂, hs₂, hr, hrkind, hname, hnew⟩
  refine Gives.bind (detached_gives h₂.inv (.phi [] r) .none ?_) ?_
  · intro sort x hx
    obtain ⟨slot, hm, -⟩ := OpKind.mem_mentioned.1 hx
    cases List.mem_singleton.1 hm
    exact hr
  rintro phi b₃ ⟨h₃, hs₃, hlt, hphi, hge⟩
  have he : Evolves F D b₂ b₃ := ⟨h₂.inv, h₃.grows, h₃.inv.tidy, hs₃.silent.pending⟩
  refine Gives.pure ⟨(h₁.trans h₂).trans h₃, (hs₁.trans hs₂).trans hs₃, hr.grows h₃.grows, ?_, ?_,
    hlt, hphi, Nat.le_trans (h₁.trans h₂).grows.ops hge, Nat.le_trans h₁.grows.operands hnew⟩
  · refine he.isTemporary hr ?_
    rw [hrkind]
    rfl
  · rw [he.nameOf?_eq hr, hname, hn]

theorem readInput_gives (h : Inv F D b) (tag : String) (block : BlockId) :
    Gives (readInput tag block) b fun x b' => After F D b b' ∧ Still b b' ∧ F.Mine b'.arena x := by
  refine Gives.bind (changeFunc_gives h _) ?_
  rintro _ b₁ ⟨h₁, hs₁⟩
  obtain ⟨hinv₂, hg₂⟩ := h₁.inv.changeBlocks
    (b₁.arena.modifyBlock block fun block => { block with readsInput := true }) rfl rfl
    (.of_modify _ _ fun _ => ⟨rfl, rfl, rfl, rfl⟩)
  refine Gives.bind (P := fun _ b₂ => After F D b b₂ ∧ Still b b₂) ?_ ?_
  · refine ⟨h₁.trans ⟨hinv₂, hg₂⟩, hs₁.trans ⟨rfl, rfl, fun other => ?_⟩⟩
    exact Arena.block_modifyBlock_keep _ Block.ops _ _ fun _ => rfl
  rintro _ b₂ ⟨h₂, hs₂⟩
  refine Gives.bind (newOperand_gives h₂.inv (.symbolic tag) trivial) ?_
  rintro x b₃ ⟨h₃, hs₃, hx, hkind⟩
  obtain ⟨hinv₄, hg₄⟩ := h₃.inv.changeOperand x (f := fun o => { o with tainted := true })
    (fun _ => rfl) fun hx hg => (h₃.inv.tidy x hx).grows hg
      (Arena.operand_modifyOperand_keep _ Operand.kind _ _ fun _ => rfl)
      (Arena.operand_modifyOperand_keep _ Operand.defs _ _ fun _ => rfl)
      (Arena.operand_modifyOperand_keep _ Operand.assertions _ _ fun _ => rfl)
  exact ⟨(h₂.trans h₃).trans ⟨hinv₄, hg₄⟩, (hs₂.trans hs₃).trans ⟨rfl, rfl, fun _ => rfl⟩,
    hx.grows hg₄⟩

/-- A version that was taken for a variable in the current block. -/
structure Took (F : Base) (b b' : Builder) (name : String) (x : OperandId) : Prop where
  after : After F {} b b'
  silent : Silent b b'
  mine : F.Mine b'.arena x
  now : IsPlainName name → Now b' name x

theorem readName_gives (h : Inv F {} b) (name : String) :
    Gives (readName name b.block) b fun x b' => Took F b b' name x := by
  refine Gives.look ?_
  rw [Nat.succ_mul_succ, readWithin]
  refine Gives.get ?_
  cases hx : b.scope.lookup b.block name with
  | some x =>
    refine ⟨⟨h, .refl _⟩, ⟨rfl, fun _ => rfl, fun _ hp => hp⟩, h.bound _ h.here.1 name x hx, ?_⟩
    intro hplain
    rcases h.current _ h.here.1 name hplain x hx with ⟨-, hdue, -⟩ | hcurrent
    · cases hdue
    · exact hcurrent
  | none =>
    cases htag : inputTag? name with
    | some tag =>
      refine (readInput_gives h tag b.block).mono ?_
      rintro x b' ⟨h', hs, hmine⟩
      refine ⟨h', hs.silent, hmine, fun hplain => ?_⟩
      rw [hplain.1] at htag
      cases htag
    | none =>
      refine Gives.get ?_
      rw [h.building]
      refine Gives.bind (newPhi_gives h name) ?_
      rintro ⟨r, phi⟩ b₁ ⟨h₁, hs₁, hr, htemp, hname, hlt, hphi, hge, hnew⟩
      have hnone : b₁.scope.lookup b₁.block name = none := by rw [hs₁.scope, hs₁.block, hx]
      have hother : ∀ p ∈ b₁.scope.pending, p.phi ≠ phi ∧ (b₁.arena.op p.phi).kind ≠ .phi [] r := by
        intro p hp
        rw [hs₁.scope] at hp
        obtain ⟨-, hold, -, r', hkind, hmine, -⟩ := h.pending p hp
        rw [h₁.grows.kind p.phi hold, hkind]
        refine ⟨fun heq => ?_, fun heq => ?_⟩
        · exact Nat.lt_irrefl _ (Nat.lt_of_lt_of_le (heq ▸ hold) hge)
        · cases heq
          exact Nat.lt_irrefl _ (Nat.lt_of_lt_of_le hmine.2 hnew)
      have hinv := h₁.inv.bindPhi rfl ⟨hnone, hlt, hphi, hr, htemp, hname, hother⟩
      have hblock : b.block = b₁.block := hs₁.block.symm
      rw [hblock]
      refine ⟨h₁.trans ⟨hinv, .refl _⟩, ⟨hs₁.block, hs₁.ops, fun p hp => ?_⟩, hr, fun hplain => ?_⟩
      · exact Array.mem_push.2 (.inl (hs₁.silent.pending p hp))
      · rcases hinv.current b₁.block h₁.inv.here.1 name hplain r
          ((Scope.lookup_bind ..).trans (if_pos ⟨rfl, rfl⟩)) with ⟨-, hdue, -⟩ | hcurrent
        · cases hdue
        · exact hcurrent

theorem readHere_gives (h : Inv F {} b) (name : String) :
    Gives (readHere name) b fun x b' => Took F b b' name x := by
  refine Gives.get (Gives.bind (readName_gives h name) ?_)
  rintro x b₁ ⟨h₁, hs₁, hx, hnow⟩
  have hpush := h₁.inv.pushRead hnow
  rw [← hs₁.block]
  exact ⟨h₁.trans ⟨hpush, .refl _⟩, ⟨hs₁.block, hs₁.ops, hs₁.pending⟩, hx, hnow⟩

/-- An operand that was read: the result is current if the operand stands for a variable. -/
structure ReadOf (F : Base) (b : Builder) (id x : OperandId) (b' : Builder) : Prop where
  after : After F {} b b'
  silent : Silent b b'
  mine : F.Mine b'.arena x
  now : ∀ name, IsPlainName name → b.arena.nameOf? id = some name → Now b' name x

theorem ReadOf.self (h : Inv F {} b) {id x : OperandId} (hx : F.Mine b.arena x)
    (hname : ∀ name, IsPlainName name → b.arena.nameOf? id ≠ some name) : ReadOf F b id x b :=
  ⟨⟨h, .refl _⟩, ⟨rfl, fun _ => rfl, fun _ hp => hp⟩, hx,
    fun name hplain hn => absurd hn (hname name hplain)⟩

/-- A variable operand is read by its name. -/
theorem readVariable_variable (h : Inv F {} b) {var n : OperandId} {value : Option OperandId}
    (hvar : F.Mine b.arena var) (hkind : (b.arena.operand var).kind = .variable n value) :
    Gives (readVariable var) b (ReadOf F b var) := by
  obtain ⟨text, htext, -⟩ := h.stringOf?_variable hvar hkind
  rw [readVariable]
  refine Gives.get ?_
  simp only [hkind, htext]
  refine (readHere_gives h text).mono ?_
  rintro x b' ⟨h', hs, hx, hnow⟩
  refine ⟨h', hs, hx, fun name hplain hn => ?_⟩
  rw [(h.tidy var hvar).nameOf?_eq, Base.shortName?, hkind] at hn
  cases htext.symm.trans hn
  exact hnow hplain

theorem run_get_bind {β : Type} {f : Builder → Build β} : (get >>= f).run b = (f b).run b := rfl

/-- An operand that is neither a variable nor a version of one stands for itself. -/
theorem readVariable_other {id : OperandId}
    (hvariable : ∀ name value, (b.arena.operand id).kind ≠ .variable name value)
    (hversion : ∀ owner, (b.arena.operand id).kind ≠ .temporary (some owner)) :
    (readVariable id).run b = (id, b) := by
  rw [readVariable, run_get_bind]
  cases hkind : (b.arena.operand id).kind with
  | «variable» name value => exact absurd hkind (hvariable name value)
  | temporary owner? =>
    cases owner? with
    | none => rfl
    | some owner => exact absurd hkind (hversion owner)
  | scalar _ | object _ | symbolic _ | bound _ _ _ _ => rfl

/-- A version is read as its variable, but for a property that was not written. -/
theorem readVariable_version {id owner : OperandId}
    (hkind : (b.arena.operand id).kind = .temporary (some owner)) (hlt : owner.index < id.index) :
    (readVariable id).run b = (readVariable owner).run b ∨
      (readVariable id).run b = (id, b) ∧
        ∃ name, b.arena.nameOf? owner = some name ∧ isFieldKey name = true := by
  rw [readVariable, run_get_bind, hkind]
  dsimp only
  rw [dif_pos hlt]
  cases hname : b.arena.nameOf? owner with
  | none => exact .inl rfl
  | some name =>
    by_cases hkey : (isFieldKey name && !b.scope.wasWritten name) = true
    · rw [if_pos hkey]
      exact .inr ⟨rfl, name, rfl, (Bool.and_eq_true_iff.1 hkey).1⟩
    · rw [if_neg hkey]
      exact .inl rfl

/-- Reading an operand of the body takes the version that is current of the variable behind it. -/
theorem readVariable_gives (h : Inv F {} b) {id : OperandId} (hid : F.Mine b.arena id) :
    Gives (readVariable id) b (ReadOf F b id) := by
  have hshort := (h.tidy id hid).nameOf?_eq
  have hshaped := (h.tidy id hid).shaped
  unfold Base.shortName? at hshort
  have hself {x : OperandId} (hx : F.Mine b.arena x)
      (hvariable : ∀ name value, (b.arena.operand x).kind ≠ .variable name value)
      (hversion : ∀ owner, (b.arena.operand x).kind ≠ .temporary (some owner))
      (hplain : ∀ name, IsPlainName name → b.arena.nameOf? id ≠ some name) :
      ReadOf F b id ((readVariable x).run b).1 ((readVariable x).run b).2 := by
    rw [readVariable_other hvariable hversion]
    exact ReadOf.self h hx hplain
  cases hkind : (b.arena.operand id).kind with
  | «variable» n value => exact readVariable_variable h hid hkind
  | temporary owner? =>
    rw [hkind] at hshort hshaped
    cases owner? with
    | none =>
      refine hself hid (by simp [hkind]) (by simp [hkind]) fun name _ hn => ?_
      cases hshort.symm.trans hn
    | some owner =>
      dsimp only at hshort
      obtain ⟨howner, hlt, hown⟩ := hshaped
      have hname : b.arena.nameOf? owner = b.arena.nameOf? id := by
        rw [(h.tidy owner howner).nameOf?_eq, Base.shortName?, hshort]
        obtain ⟨n, value, hown⟩ | ⟨cls, hown⟩ := hown <;> rw [hown]
      rw [Gives]
      obtain hrun | ⟨hrun, name, hn, hkey⟩ := readVariable_version hkind hlt <;> rw [hrun]
      · obtain ⟨n, value, hown⟩ | ⟨cls, hown⟩ := hown
        · obtain ⟨h', hs, hx, hnow⟩ := readVariable_variable h howner hown
          rw [hname] at hnow
          exact ⟨h', hs, hx, hnow⟩
        · refine hself howner (by simp [hown]) (by simp [hown]) fun name _ hn => ?_
          rw [hshort, hown] at hn
          cases hn
      · refine ReadOf.self h hid fun name' hplain hn' => ?_
        rw [← hname, hn] at hn'
        cases hn'
        rw [hplain.2.2] at hkey
        cases hkey
  | bound n value byRef scope =>
    rw [hkind] at hshort hshaped
    refine hself hid (by simp [hkind]) (by simp [hkind]) fun name hplain hn => ?_
    dsimp only at hshort
    rw [hshort, Arena.stringOf?, hshaped.2.1] at hn
    cases hn
    exact hplain.2.1 rfl
  | scalar _ | object _ | symbolic _ =>
    rw [hkind] at hshort
    refine hself hid (by simp [hkind]) (by simp [hkind]) fun name _ hn => ?_
    cases hshort.symm.trans hn

/-! ## Writing -/

theorem rootOf_version (h : Inv F D b) {id owner : OperandId} (hid : F.Mine b.arena id)
    (hkind : (b.arena.operand id).kind = .temporary (some owner)) :
    rootOf b.arena id = owner := by
  have hshaped := (h.tidy id hid).shaped
  rw [hkind] at hshaped
  obtain ⟨-, hlt, hown⟩ := hshaped
  rw [rootOf, hkind]
  dsimp only
  rw [dif_pos hlt, rootOf]
  obtain ⟨n, value, hown⟩ | ⟨cls, hown⟩ := hown <;> rw [hown]

theorem rootOf_other {a : Arena} {id : OperandId}
    (hversion : ∀ owner, (a.operand id).kind ≠ .temporary (some owner)) : rootOf a id = id := by
  rw [rootOf]
  split
  · exact absurd ‹_› (hversion _)
  · rfl

/-- What the next operation has to write for a target: the target is a version that is due, or no
version of a variable. -/
def Takes (b : Builder) (D : Due) (x : OperandId) : Prop :=
  D = ⟨some x, []⟩ ∨ D = {} ∧ ∀ name, IsPlainName name → b.arena.nameOf? x ≠ some name

/-- A target that was made for an operand. -/
structure WriteOf (F : Base) (b : Builder) (id x : OperandId) (b' : Builder) (D : Due) : Prop where
  after : After F D b b'
  silent : Silent b b'
  mine : F.Mine b'.arena x
  takes : Takes b' D x
  name : b'.arena.nameOf? x = b.arena.nameOf? id

/-- A version of a variable is bound where it is written. -/
theorem writeVersion_gives (h : Inv F {} b) {block : BlockId} (hblock : b.block = block)
    {var n : OperandId} {value : Option OperandId} {text : String} (hvar : F.Mine b.arena var)
    (hkind : (b.arena.operand var).kind = .variable n value)
    (htext : b.arena.stringOf? n = some text) :
    Gives (do
      let version ← newTemporary (some var)
      bindIn block text version
      return version) b fun x b' => ∃ D, After F D b b' ∧ Silent b b' ∧ F.Mine b'.arena x ∧
        Takes b' D x ∧ b'.arena.nameOf? x = some text := by
  refine Gives.bind (newVersion_gives h hvar hkind) ?_
  rintro x b₁ ⟨h₁, hs₁, hx, -, hname, -⟩
  rw [htext] at hname
  have hinv := h₁.inv.bindVersion rfl hx hname
  rw [← hblock, ← hs₁.block]
  exact ⟨⟨some x, []⟩, h₁.trans ⟨hinv, .refl _⟩, ⟨hs₁.block, hs₁.ops, hs₁.silent.pending⟩, hx,
    .inl rfl, hname⟩

/-- An operand that stands for no variable is written itself. -/
theorem WriteOf.self (h : Inv F {} b) {id x : OperandId} (hx : F.Mine b.arena x)
    (hplain : ∀ name, IsPlainName name → b.arena.nameOf? x ≠ some name)
    (hname : b.arena.nameOf? x = b.arena.nameOf? id) : ∃ D, WriteOf F b id x b D :=
  ⟨{}, ⟨h, .refl _⟩, ⟨rfl, fun _ => rfl, fun _ hp => hp⟩, hx, .inr ⟨rfl, hplain⟩, hname⟩

/-- Writing an operand of the body binds a version of the variable behind it. -/
theorem writeVariable_gives (h : Inv F {} b) {id : OperandId} (hid : F.Mine b.arena id) :
    Gives (writeVariable id) b fun x b' => ∃ D, WriteOf F b id x b' D := by
  have hshort := (h.tidy id hid).nameOf?_eq
  have hshaped := (h.tidy id hid).shaped
  unfold Base.shortName? at hshort
  have hroot : (∀ owner, (b.arena.operand id).kind ≠ .temporary (some owner)) →
      rootOf b.arena id = id := rootOf_other
  unfold writeVariable
  refine Gives.get ?_
  dsimp only
  cases hkind : (b.arena.operand id).kind with
  | «variable» n value =>
    rw [hkind] at hshort
    obtain ⟨text, htext, -⟩ := h.stringOf?_variable hid hkind
    simp only [hroot (by simp [hkind]), hkind, htext, ↓reduceIte]
    refine (writeVersion_gives h rfl hid hkind htext).mono ?_
    rintro x b' ⟨D, h', hs, hx, htakes, hname⟩
    exact ⟨D, h', hs, hx, htakes, hname.trans (htext.symm.trans hshort.symm)⟩
  | temporary owner? =>
    rw [hkind] at hshort hshaped
    cases owner? with
    | none =>
      simp only [hroot (by simp [hkind]), hkind]
      refine Gives.pure (WriteOf.self h hid (fun name _ hn => ?_) rfl)
      cases hshort.symm.trans hn
    | some owner =>
      rw [rootOf_version h hid hkind]
      dsimp only at hshort
      obtain ⟨howner, hlt, ⟨n, value, hown⟩ | ⟨cls, hown⟩⟩ := hshaped <;> rw [hown] at hshort
      · obtain ⟨text, htext, hstay⟩ := h.stringOf?_variable howner hown
        have howned := (h.tidy owner howner).shaped
        rw [hown] at howned
        have hne : owner ≠ id := fun heq => Nat.ne_of_lt hlt (congrArg OperandId.index heq)
        simp only [hown, htext, hne, ↓reduceIte]
        refine Gives.bind (newOperand_gives h (.variable n none)
          ⟨howned.1, howned.1.2, howned.2.2.1, fun v hv => absurd hv (Option.not_mem_none v)⟩) ?_
        rintro var b₁ ⟨h₁, hs₁, hvar, hvarkind⟩
        refine (writeVersion_gives h₁.inv hs₁.block hvar hvarkind (hstay h₁.grows)).mono ?_
        rintro x b' ⟨D, h', hs, hx, htakes, hname⟩
        exact ⟨D, h₁.trans h', hs₁.silent.trans hs, hx, htakes,
          hname.trans (htext.symm.trans hshort.symm)⟩
      · rw [hown]
        have hnone : b.arena.nameOf? owner = none := by
          rw [(h.tidy owner howner).nameOf?_eq, Base.shortName?, hown]
        refine WriteOf.self h howner (fun name _ hn => ?_) (hnone.trans hshort.symm)
        cases hnone.symm.trans hn
  | bound n value byRef scope =>
    simp only [hroot (by simp [hkind]), hkind]
    rw [hkind] at hshort hshaped
    dsimp only at hshort
    refine Gives.pure (WriteOf.self h hid (fun name hplain hn => ?_) rfl)
    rw [hshort, Arena.stringOf?, hshaped.2.1] at hn
    cases hn
    exact hplain.2.1 rfl
  | scalar _ | object _ | symbolic _ =>
    rw [hkind] at hshort
    simp only [hroot (by simp [hkind]), hkind]
    refine Gives.pure (WriteOf.self h hid (fun name _ hn => ?_) rfl)
    cases hshort.symm.trans hn

theorem Takes.find? {x : OperandId} (h : Takes b D x) {name : String} (hplain : IsPlainName name) :
    ([x].find? fun x => b.arena.nameOf? x = some name) =
      D.version.filter fun x => b.arena.nameOf? x = some name := by
  rw [List.find?_singleton]
  rcases h with rfl | ⟨rfl, hx⟩
  · rw [Option.filter_some]
  · rw [if_neg fun hn => hx name hplain (of_decide_eq_true hn)]
    rfl

theorem Takes.grows (h : Inv F D b) {x : OperandId} (hx : F.Mine b.arena x) (ht : Takes b D x)
    (h' : After F D' b b') : Takes b' D x := by
  have hname := (h.tidy x hx).nameOf?_grows (h'.inv.tidy x (hx.grows h'.grows)) hx.2 h'.grows h.tidy
  refine ht.imp id (And.imp id fun hplain name hp => ?_)
  rw [hname]
  exact hplain name hp

theorem Takes.links {x : OperandId} (h : Takes b D x) : D.links = [] := by
  rcases h with rfl | ⟨rfl, -⟩ <;> rfl

/-- A target is assigned. -/
theorem emitAssign_gives (h : Inv F D b) {target value : OperandId} (htakes : Takes b D target)
    (htarget : F.Mine b.arena target) (hvalue : F.Mine b.arena value) {make : OperandId → OpKind}
    (hmake : make = (.assign target value ·) ∨ make = (.assignRef target value ·)) (span : Span) :
    Gives (emitValue span make) b fun r b' => After F {} b b' ∧ b'.block = b.block ∧
      F.Mine b'.arena r := by
  refine Gives.bind (newTemporary_gives h) ?_
  rintro r b₁ ⟨h₁, hs₁, hr, hname⟩
  have htakes := htakes.grows h htarget h₁
  have hslots : (make r).slots =
      [(⟨.var, none⟩, target), (⟨.expr, none⟩, value), (⟨.result, none⟩, r)] := by
    rcases hmake with rfl | rfl <;> rfl
  have hmentioned : (make r).mentioned true = [target, r] := by
    rcases hmake with rfl | rfl <;> rfl
  have hemits : Emits F D b₁ (make r) := by
    refine ⟨?_, ?_, ?_, ?_, ?_⟩
    · rw [hslots]
      simp only [List.forall_mem_cons, List.not_mem_nil, false_implies, implies_true, and_true]
      exact ⟨htarget.grows h₁.grows, hvalue.grows h₁.grows, hr⟩
    · rcases hmake with rfl | rfl <;> exact nofun
    · rcases hmake with rfl | rfl <;> exact nofun
    · intro name hplain
      rw [hmentioned, ← htakes.find? hplain, List.find?_cons, List.find?_singleton,
        List.find?_singleton, hname]
      cases decide (b₁.arena.nameOf? target = some name) <;> rfl
    · rcases hmake with rfl | rfl <;> exact nofun
  refine Gives.bind (emit_gives h₁.inv hemits span) ?_
  rintro _ b₂ ⟨h₂, hblock⟩
  have hlinks : D.links ++ linksOf b₁.block (make r) = [] := by
    rw [htakes.links]
    rcases hmake with rfl | rfl <;> rfl
  rw [hlinks] at h₂
  exact ⟨h₁.trans h₂, hblock.trans hs₁.block, hr.grows h₂.grows⟩

/-! ## Assertions -/

mutual

/-- Types are named by constants, which stand for themselves. -/
theorem readAssertion_constant {s : Assertion}
    (h : ∀ x ∈ s.operands, ∃ c, (b.arena.operand x).kind = .scalar c) :
    (readAssertion s).run b = (s, b) := by
  cases s with
  | type value negated =>
    obtain ⟨c, hc⟩ := h value (List.mem_singleton.2 rfl)
    rw [readAssertion, StateT.run_bind,
      readVariable_other (by rw [hc]; exact nofun) (by rw [hc]; exact nofun)]
    rfl
  | composite children mode negated =>
    rw [readAssertion, StateT.run_bind, readAssertions_constant h]
    rfl

theorem readAssertions_constant {l : List Assertion}
    (h : ∀ x ∈ Assertion.operandsAll l, ∃ c, (b.arena.operand x).kind = .scalar c) :
    (readAssertions l).run b = (l, b) := by
  cases l with
  | nil => rfl
  | cons s rest =>
    rw [Assertion.operandsAll] at h
    rw [readAssertions, StateT.run_bind,
      readAssertion_constant fun x hx => h x (List.mem_append_left _ hx)]
    change ((readAssertions rest >>= fun l => pure (s :: l)) : Build _).run b = _
    rw [StateT.run_bind, readAssertions_constant fun x hx => h x (List.mem_append_right _ hx)]
    rfl

end

theorem assertIn_gives (h : Inv F {} b) {block : BlockId} (hblock : F.Holds b.arena block)
    (negated : Bool) {s : VarAssertion} (hs : F.Assertable b.arena s) :
    Gives (assertIn block negated s) b fun _ b' => After F {} b b' := by
  refine Gives.look ?_
  split
  case isFalse => exact ⟨h, .refl _⟩
  refine Gives.bind (goTo_gives h hblock) ?_
  rintro _ b₁ ⟨h₁, -, harena⟩
  have hs₁ := hs.grows h₁.grows
  refine Gives.bind (readVariable_gives h₁.inv hs₁.1) ?_
  rintro read b₂ ⟨h₂, hsilent₂, hread, hnow⟩
  have hs₂ := hs₁.grows h₂.grows
  refine Gives.bind (writeVariable_gives h₂.inv hs₂.1) ?_
  rintro write b₃ ⟨D, h₃, hsilent₃, hwrite, htakes, hname⟩
  have hs₃ := hs₂.grows h₃.grows
  refine Gives.bind (P := fun _ b' => b₃ = b') ?_ ?_
  · rw [Gives, readAssertion_constant fun x hx => (hs₃.2 x hx).2]
  rintro t _ rfl
  have he : Evolves F {} b₁ b₂ := ⟨h₁.inv, h₂.grows, h₂.inv.tidy, hsilent₂.pending⟩
  have hemits : ∀ t, Emits F D b₃ (.assertion read t write) := by
    refine fun t => ⟨?_, nofun, nofun, fun name hplain => htakes.find? hplain, ?_⟩
    · intro e he
      rcases List.mem_cons.1 he with rfl | he
      · exact hread.grows h₃.grows
      · rw [List.mem_singleton.1 he]
        exact hwrite
    · intro e s' r heq name hplain hr
      cases heq
      rw [hname, he.nameOf?_eq hs₁.1] at hr
      exact h₂.inv.now_of_silent h₃ hsilent₃ (hnow name hplain hr)
  have hlinks : ∀ t, D.links ++ linksOf b₃.block (.assertion read t write) = [] := by
    intro t
    rw [htakes.links]
    rfl
  refine Gives.bind (emit_gives h₃.inv (hemits _) .none) ?_
  rintro _ b₄ ⟨h₄, -⟩
  rw [hlinks] at h₄
  exact ((h₁.trans h₂).trans h₃).trans h₄

theorem assertBranches_gives (h : Inv F {} b) {cond : OperandId} {ifBlock elseBlock : BlockId}
    (hcond : F.Mine b.arena cond) (hif : F.Holds b.arena ifBlock)
    (helse : F.Holds b.arena elseBlock) :
    Gives (assertBranches cond ifBlock elseBlock) b fun _ b' =>
      After F {} b b' ∧ b'.block = b.block := by
  refine Gives.get (Gives.look ?_)
  refine Gives.bind (Gives.forM (I := After F {} b) ⟨h, .refl _⟩ ?_) ?_
  · intro s hs b₁ h₁
    have hassertable : F.Assertable b.arena s := (h.tidy cond hcond).asserted s hs
    refine Gives.bind (assertIn_gives h₁.inv (hif.grows h₁.grows) false
      (hassertable.grows h₁.grows)) ?_
    intro _ b₂ h₂
    have h₂ := h₁.trans h₂
    refine (assertIn_gives h₂.inv (helse.grows h₂.grows) true
      (hassertable.grows h₂.grows)).mono ?_
    exact fun _ b₃ h₃ => h₂.trans h₃
  · intro _ b₁ h₁
    refine (goTo_gives h₁.inv (h.here.grows h₁.grows)).mono ?_
    rintro _ b₂ ⟨h₂, hblock, -⟩
    exact ⟨h₁.trans h₂, hblock⟩

/-- A condition leads to two blocks, and what it asserts stands at their start. -/
theorem branchOff_succeeds {β : Type} {Q : β → Builder → Prop} (h : Inv F {} b) {cond : OperandId}
    {ifBlock elseBlock : BlockId} (hcond : F.Mine b.arena cond) (hif : F.Target b.arena ifBlock)
    (helse : F.Target b.arena elseBlock) (span : Span) {next : Lowering β}
    (hnext : ∀ b', After F {} b b' → Succeeds next b' Q) :
    Succeeds (do
      jumpIf cond ifBlock elseBlock span
      assertBranches cond ifBlock elseBlock
      next) b Q := by
  refine Succeeds.bind (.lift (jumpIf_gives h hcond hif helse span)) ?_
  rintro _ b₁ ⟨h₁, -⟩
  refine Succeeds.bind (.lift (assertBranches_gives h₁.inv (hcond.grows h₁.grows)
    (hif.grows h₁.grows).holds (helse.grows h₁.grows).holds)) ?_
  rintro _ b₂ ⟨h₂, -⟩
  exact hnext b₂ (h₁.trans h₂)

end QueryTaint.Lower
