import QueryTaint.Lower.Value
import QueryTaint.Proofs.Lower.Invariant
import QueryTaint.Proofs.Origin.Build

/-!
# Reading and asserting keep to the file's entries

A read finds a version that the scope holds, or makes an input, for which the function is marked
before (`readInput_builds`), or makes a φ. So the current version of a known operand is known
(`readVariable_builds`). What a condition asserts is said of known operands, and a jump leads to a
block that a label or a waiting jump of the scope names. So each basic step keeps to the entries of
the file (`origin`).
-/

namespace QueryTaint.Lower

variable {a₀ : Arena} {D : Owed} {b : Builder} {G : Set Entry}

/-! ## Versions of variables -/

theorem newPhi_builds (name : String) :
    Builds a₀ G (newPhi name) fun made => {.operand made.1, .op made.2} :=
  .bind (newVariable_builds name) fun _ => .bind (newTemporary_builds (by simp)) fun _ =>
    .bind (detached_builds (by simp) rfl .none) fun _ => .pure (by simp [Set.insert_subset_iff])

theorem bindIn_builds (block : BlockId) (name : String) {value : OperandId}
    (hvalue : .operand value ∈ G) : Builds a₀ G (bindIn block name value) fun _ => ∅ :=
  changeScope_builds fun s e he => by
    cases he with
    | version he =>
      rw [Scope.lookup_bind] at he
      split at he
      · exact .inr (Option.some.inj he ▸ hvalue)
      · exact .inl (.version he)
    | label he => exact .inl (.label he)
    | place he => exact .inl (.place he)
    | phi he => exact .inl (.phi he)
    | goto he => exact .inl (.goto he)
    | condition he => exact .inl (.condition he)

theorem wait_builds {p : PendingPhi} (hblock : .block p.block ∈ G) (hphi : .op p.phi ∈ G) :
    Builds a₀ G (changeScope fun s => { s with pending := s.pending.push p }) fun _ => ∅ :=
  changeScope_builds fun s e he => by
    cases he with
    | version he => exact .inl (.version he)
    | label he => exact .inl (.label he)
    | place he =>
      rcases Array.mem_push.1 he with he | rfl
      · exact .inl (.place he)
      · exact .inr hblock
    | phi he =>
      rcases Array.mem_push.1 he with he | rfl
      · exact .inl (.phi he)
      · exact .inr hphi
    | goto he => exact .inl (.goto he)
    | condition he => exact .inl (.condition he)

/-- An input is made after the current function is marked. -/
theorem newInput_gives (hb : Settled a₀ D b) (hreads : (b.arena.func b.func).readsInput = true)
    (tag : String) :
    Gives (newOperand (.symbolic tag)) b fun x b' => Done a₀ D b {.operand x} b' := by
  have hlinks : ∀ x ∈ (OperandKind.symbolic tag).links, .operand x ∈ b.arena.since a₀ := nofun
  have hin : .operand ⟨b.arena.operands.size⟩ ∈ (b.arena.newOperand (.symbolic tag)).2.entries := by
    simp [Arena.newOperand]
  obtain ⟨hsettled, hlater⟩ := hb.change (hb.adjoins.newOperand hlinks)
    (.newOperand b.arena (.symbolic tag)) subset_rfl subset_rfl
    (fun _ _ => .inr ⟨b.func, hb.roots _ .func, hreads⟩)
    (fun _ hge hlt => absurd hlt (Nat.not_lt.2 hge)) fun _ hcall => .inl hcall
  refine ⟨hsettled, hlater, ?_⟩
  rintro _ rfl
  exact ⟨hb.adjoins.notMem_operand, hin⟩

theorem readInput_builds (tag : String) {block : BlockId} (hblock : .block block ∈ G) :
    Builds a₀ G (readInput tag block) fun x => {.operand x} := by
  intro D b hb hG
  have hmarked : ((b.arena.modifyFunc b.func fun f => { f with readsInput := true }).func
      b.func).readsInput = true := by
    rw [Arena.func_modifyFunc, if_pos ⟨rfl, (hb.roots _ .func).2⟩]
  refine Gives.bind (P := fun _ b₁ => Done a₀ D b ∅ b₁ ∧
    (b₁.arena.func b₁.func).readsInput = true) ⟨changeFunc_builds (G := G)
      (f := fun f => { f with readsInput := true }) (fun _ => ⟨rfl, fun _ => rfl, List.Subset.refl _⟩)
      (fun _ _ hr => ⟨hr.entry, hr.params, hr.callable⟩) hb hG, hmarked⟩ ?_
  rintro _ b₁ ⟨h₁, hreads₁⟩
  have hG₁ := hG.trans h₁.later.since
  refine Gives.bind (P := fun _ b₂ => Done a₀ D b₁ ∅ b₂ ∧
    (b₂.arena.func b₂.func).readsInput = true) ⟨modifyBlock_builds hblock
      (f := fun b => { b with readsInput := true }) (fun _ _ hr => ⟨hr.ops, hr.phis, hr.preds⟩)
      h₁.settled hG₁, hreads₁⟩ ?_
  rintro _ b₂ ⟨h₂, hreads₂⟩
  refine Gives.bind (newInput_gives h₂.settled hreads₂ tag) fun x b₃ h₃ => ?_
  have htaint : Builds a₀ {.operand x} (do
      change (·.modifyOperand x fun o => { o with tainted := true })
      return x) fun x => {.operand x} :=
    .bind (change_builds (fun _ ha hx => ha.modifyOperand (hx rfl) fun ho =>
      ⟨ho.links, ho.defs, ho.usages, ho.assertions⟩) fun a => .modifyOperand a x fun _ h => h)
      fun _ => .pure (by simp)
  exact (htaint h₃.settled h₃.known).mono fun _ _ h₄ => ((h₁.trans h₂).trans h₃).trans h₄

theorem addPhiOperand_builds {phi : OpId} {x : OperandId} (hphi : .op phi ∈ G)
    (hx : .operand x ∈ G) : Builds a₀ G (change (·.addPhiOperand phi x)) fun _ => ∅ :=
  change_builds (fun _ ha hG => ha.addPhiOperand (hG hphi) (hG hx)) fun a => .addPhiOperand a phi x

theorem addIncoming_builds {phi : OpId} {read : BlockId → Build OperandId} {preds : List BlockId}
    (hphi : .op phi ∈ G)
    (hread : ∀ pred ∈ preds, Builds a₀ G (read pred) fun x => {.operand x}) :
    Builds a₀ G (addIncoming phi read preds) fun _ => ∅ := by
  induction preds with
  | nil => exact .pure (Set.empty_subset _)
  | cons pred rest ih =>
    refine .bind (hread pred List.mem_cons_self) fun x =>
      .bind (addPhiOperand_builds (by simp [hphi]) (by simp)) fun _ => ?_
    exact (ih fun pred hpred => hread pred (List.mem_cons_of_mem _ hpred)).mono
      (fun e he => by simp [he]) fun _ => subset_rfl

theorem readWithin_builds (name : String) (steps : Nat) {block : BlockId}
    (hblock : .block block ∈ G) :
    Builds a₀ G (readWithin name steps block) fun x => {.operand x} := by
  induction steps generalizing block G with
  | zero => exact .bind (newPhi_builds name) fun _ => .pure (by simp)
  | succ steps ih =>
    rw [readWithin]
    refine .get fun b => ?_
    split
    · rename_i value hvalue
      refine .pure ?_
      rintro _ rfl
      exact .inl (.root (.scope (.version hvalue)))
    · split
      · exact readInput_builds _ (by simp [hblock])
      · refine .get fun b₁ => ?_
        split
        · refine .look fun b₂ => .look fun b₃ => ?_
          dsimp only
          split
          · rename_i hone
            have hhead : (b₂.arena.block block).preds.headD block ∈
                (b₂.arena.block block).preds := by
              cases hcase : (b₂.arena.block block).preds with
              | nil => simp [hcase] at hone
              | cons pred rest => exact List.mem_cons_self
            refine .bind (ih (.inr (.inl (Builder.known_pred (.given ?_) hhead)))) fun _ =>
              .bind (bindIn_builds _ _ (by simp)) fun _ => .pure (by simp)
            simp [hblock]
          · refine .bind (newPhi_builds name) fun made =>
              .bind (attachPhi_builds (by simp [hblock]) (by simp)) fun _ =>
                .bind (bindIn_builds _ _ (by simp)) fun _ =>
                  .bind (addIncoming_builds (by simp) fun pred hpred => ih ?_) fun _ =>
                    .pure (by simp)
            refine .inr (.inr (.inr (.inl (Builder.known_pred (.given ?_)
              (List.mem_filter.1 hpred).1))))
            simp [hblock]
        · exact .bind (newPhi_builds name) fun made =>
            .bind (wait_builds (by simp [hblock]) (by simp)) fun _ =>
              .bind (bindIn_builds _ _ (by simp)) fun _ => .pure (by simp)

theorem readName_builds (name : String) {block : BlockId} (hblock : .block block ∈ G) :
    Builds a₀ G (readName name block) fun x => {.operand x} :=
  .look fun _ => readWithin_builds name _ (by simp [hblock])

theorem readHere_builds (name : String) :
    Builds a₀ G (readHere name) fun x => {.operand x} :=
  .get fun _ => .bind (readName_builds name (by simp)) fun _ =>
    .bind (modify_builds (fun _ => rfl) (fun _ => rfl) (fun _ => rfl) fun _ _ he =>
      .inl (he.keep rfl rfl rfl rfl rfl rfl rfl)) fun _ => .pure (by simp)

theorem completePhis_builds {pending : List PendingPhi}
    (h : ∀ p ∈ pending, .block p.block ∈ G ∧ .op p.phi ∈ G) :
    Builds a₀ G (completePhis pending) fun _ => ∅ := by
  induction pending with
  | nil => exact .pure (Set.empty_subset _)
  | cons p rest ih =>
    obtain ⟨hblock, hphi⟩ := h p List.mem_cons_self
    refine .look fun b => .bind (addIncoming_builds (by simp [hphi]) fun pred hpred =>
      readName_builds p.name (.inl (Builder.known_pred (.given hblock) (List.mem_filter.1 hpred).1)))
      fun _ => .bind (attachPhi_builds (by simp [hblock]) (by simp [hphi])) fun _ => ?_
    exact (ih fun p hp => h p (List.mem_cons_of_mem _ hp)).mono (fun e he => by simp [he])
      fun _ => subset_rfl

/-- The current version of an operand is known if the operand is; the operand of an assertion need
not be. -/
theorem readVariable_finds (id : OperandId) :
    Builds a₀ G (readVariable id) fun x => {e | e = .operand x ∧ .operand id ∈ G} := by
  induction id using WellFounded.induction (measure OperandId.index).wf generalizing G with
  | _ id ih =>
    rw [readVariable]
    refine .get fun b => ?_
    have hself : Builds a₀ (b.known G ∪ G) (pure id) fun x =>
        {e | e = .operand x ∧ .operand id ∈ G} := .pure fun e he => he.1 ▸ .inr he.2
    split
    · rename_i name value hkind
      split
      · exact (readHere_builds _).mono subset_rfl fun x e he => he.1
      · split
        · rename_i hlt
          exact .bind (ih name hlt) fun _ => .pure fun e he => .inr (he.1 ▸ .inr he.2)
        · exact hself
    · rename_i owner hkind
      have howner : Builds a₀ (b.known G ∪ G)
          (if _h : owner.index < id.index then readVariable owner else pure id)
          fun x => {e | e = .operand x ∧ .operand id ∈ G} := by
        split
        · rename_i hlt
          refine (ih owner hlt).mono subset_rfl ?_
          exact fun x e he => ⟨he.1, .inl (Builder.known_link (.given he.2)
            (by simp [hkind, OperandKind.links]))⟩
        · exact hself
      dsimp only
      split
      · split
        · exact hself
        · exact howner
      · exact howner
    · exact hself

theorem readVariable_builds {id : OperandId} (hid : .operand id ∈ G) :
    Builds a₀ G (readVariable id) fun x => {.operand x} :=
  (readVariable_finds id).mono subset_rfl fun _ _ he => ⟨he, hid⟩

theorem rootOf_known (id : OperandId) (hid : .operand id ∈ b.known G) :
    .operand (rootOf b.arena id) ∈ b.known G := by
  induction id using WellFounded.induction (measure OperandId.index).wf with
  | _ id ih =>
    rw [rootOf]
    split
    · rename_i owner hkind
      split
      · rename_i hlt
        exact ih owner hlt (Builder.known_link hid (by simp [hkind, OperandKind.links]))
      · exact hid
    · exact hid

theorem writeVariable_builds {id : OperandId} (hid : .operand id ∈ G) :
    Builds a₀ G (writeVariable id) fun x => {.operand x} := by
  refine .get fun b => ?_
  have hroot := rootOf_known (b := b) id (.given hid)
  dsimp only
  split
  · rename_i name value hkind
    split
    · rename_i text _
      have hname : .operand name ∈ b.known G :=
        Builder.known_link hroot (by simp [hkind, OperandKind.links])
      have hversion (var : OperandId) : Builds a₀ ({.operand var} ∪ (b.known G ∪ G)) (do
          let version ← newTemporary (some var)
          bindIn b.block text version
          return version) fun x => {.operand x} :=
        .bind (newTemporary_builds (by simp)) fun _ =>
          .bind (bindIn_builds _ _ (by simp)) fun _ => .pure (by simp)
      split
      · exact .bind (.pure (by simp [hroot])) hversion
      · exact .bind (newOperand_builds (by simp [OperandKind.links, hname]) rfl) hversion
    · exact .bind (readVariable_finds _) fun _ => .pure (by simp [hroot])
  · exact .pure (by simp [hroot])

mutual

theorem readAssertion_builds : ∀ s : Assertion, Builds a₀ G (readAssertion s) fun _ => ∅
  | .type value negated => by
    rw [readAssertion]
    exact .bind (readVariable_finds value) fun _ => .pure (Set.empty_subset _)
  | .composite children mode negated => by
    rw [readAssertion]
    exact .bind (readAssertions_builds children) fun _ => .pure (Set.empty_subset _)

theorem readAssertions_builds : ∀ l : List Assertion, Builds a₀ G (readAssertions l) fun _ => ∅
  | [] => by
    rw [readAssertions]
    exact .pure (Set.empty_subset _)
  | s :: rest => by
    rw [readAssertions]
    exact .bind (readAssertion_builds s) fun _ => .bind ((readAssertions_builds rest).mono
      Set.subset_union_right fun _ => subset_rfl) fun _ => .pure (Set.empty_subset _)

end

/-! ## Assertions -/

theorem assertIn_builds {block : BlockId} (hblock : .block block ∈ G) (negated : Bool)
    {asserted : VarAssertion} (hvar : .operand asserted.var ∈ G) :
    Builds a₀ G (assertIn block negated asserted) fun _ => ∅ := by
  refine .look fun b => ?_
  split
  · exact .bind (goTo_builds (by simp [hblock])) fun _ =>
      .bind (readVariable_builds (by simp [hvar])) fun _ =>
      .bind (writeVariable_builds (by simp [hvar])) fun _ =>
      .bind (readAssertion_builds _) fun _ =>
      .bind (emit_builds (by simp) rfl .none) fun _ => .pure (Set.empty_subset _)
  · exact .pure (Set.empty_subset _)

theorem assertBranches_builds {cond : OperandId} {ifBlock elseBlock : BlockId}
    (hcond : .operand cond ∈ G) (hif : .block ifBlock ∈ G) (helse : .block elseBlock ∈ G) :
    Builds a₀ G (assertBranches cond ifBlock elseBlock) fun _ => ∅ := by
  refine .get fun b => .look fun b₁ => .bind (.forM fun asserted hasserted => ?_) fun _ =>
    goTo_builds (by simp)
  have hvar : .operand asserted.var ∈ b₁.known (b.known G ∪ G) :=
    Builder.known_asserted (.given (by simp [hcond])) hasserted
  exact .bind (assertIn_builds (by simp [hif]) false (by simp [hvar])) fun _ =>
    assertIn_builds (by simp [helse]) true (by simp [hvar])

/-! ## Values of variables -/

theorem valueWithin_known (steps : Nat) {id : OperandId} (hid : .operand id ∈ b.known G) :
    .operand (b.arena.valueWithin steps id) ∈ b.known G :=
  Arena.valueWithin_mem (fun _ hx _ hy => Builder.known_link hx hy) steps hid

theorem setValue_builds {var value : OperandId} (hvar : .operand var ∈ G)
    (hvalue : .operand value ∈ G) : Builds a₀ G (change (·.setValue var value)) fun _ => ∅ := by
  refine change_builds (fun a ha hG => ?_) fun a => .modifyOperand a _ fun o h => ?_
  · have hvar := hG hvar
    have hlinks : (a.operand var).Within (a.since a₀) := ha.closed _ hvar.1 hvar.2
    refine ha.modifyOperand ?_ fun ho => ?_
    · split
      · rename_i owner hkind
        exact hlinks.links owner (by simp [hkind, OperandKind.links])
      · exact hvar
    · split
      · rename_i name old hkind
        refine ⟨?_, ho.defs, ho.usages, ho.assertions⟩
        simpa [OperandKind.links, hG hvalue] using
          ho.links name (by simp [hkind, OperandKind.links])
      · rename_i name old byRef scope hkind
        refine ⟨?_, ho.defs, ho.usages, ho.assertions⟩
        simpa [OperandKind.links, hG hvalue] using
          ho.links name (by simp [hkind, OperandKind.links])
      · exact ho
  · split at h
    · cases h
    · cases h
    · exact h

/-- A constant that is assigned becomes the known value of the target. -/
theorem settle_lowers (whole : Bool) {value target result : OperandId} (hvalue : .operand value ∈ G)
    (htarget : .operand target ∈ G) (hresult : .operand result ∈ G) : Lowers a₀ G (do
      let resolved ← look (·.valueOf value)
      let kind ← look fun a => (a.operand resolved).kind
      if whole && kind.isConstantLike then
        change (·.setValue target resolved)
        return if kind.scalar?.isSome then resolved else result
      else return result) fun x => {.operand x} := by
  refine .look fun b => .look fun _ => ?_
  have hresolved : .operand (b.arena.valueOf value) ∈ b.known G := valueWithin_known _ (.given hvalue)
  split
  · refine .bind (.lift (setValue_builds (by simp [htarget]) (.inr (.inl hresolved)))) fun _ =>
      .pure ?_
    rintro _ rfl
    split
    · exact .inr (.inr (.inl hresolved))
    · simp [hresult]
  · exact .pure (by simp [hresult])

/-! ## What conditions assert -/

theorem var_mem_joinAssertion {var : OperandId} {s : Assertion} {l : List VarAssertion}
    {asserted : VarAssertion} (h : asserted ∈ Operand.joinAssertion var s l) :
    asserted.var = var ∨ asserted ∈ l := by
  induction l with
  | nil =>
    rw [Operand.joinAssertion, List.mem_singleton] at h
    exact .inl (congrArg VarAssertion.var h)
  | cons known rest ih =>
    rw [Operand.joinAssertion] at h
    split at h
    · rcases List.mem_cons.1 h with rfl | h
      · split
        · exact .inr List.mem_cons_self
        · exact .inl rfl
      · exact .inr (List.mem_cons_of_mem _ h)
    · rcases List.mem_cons.1 h with rfl | h
      · exact .inr List.mem_cons_self
      · exact (ih h).imp_right (List.mem_cons_of_mem _)

theorem addAssertion_builds {cond var : OperandId} (hcond : .operand cond ∈ G)
    (hvar : .operand var ∈ G) (assertion : Assertion) :
    Builds a₀ G (addAssertion cond var assertion) fun _ => ∅ :=
  change_builds (fun a ha hG => ha.modifyOperand (hG hcond) fun ho =>
    ⟨ho.links, ho.defs, ho.usages, fun s hs => by
      rcases var_mem_joinAssertion hs with heq | hs
      · exact heq ▸ hG hvar
      · exact ho.assertions s hs⟩) fun a => .modifyOperand a cond fun _ h => h

theorem copyAssertions_builds (edit : Assertion → Assertion) {source cond : OperandId}
    (hsource : .operand source ∈ G) (hcond : .operand cond ∈ G) :
    Builds a₀ G (copyAssertions edit source cond) fun _ => ∅ :=
  .look fun _ => .forM fun _ hasserted => addAssertion_builds (.inr hcond)
    (.inl (Builder.known_asserted (.given hsource) hasserted)) _

theorem typeSubject?_known {id subject : OperandId} (hid : .operand id ∈ b.known G)
    (h : typeSubject? b.arena id = some subject) : .operand subject ∈ b.known G := by
  obtain ⟨op, hop, h⟩ := Option.bind_eq_some_iff.1 h
  have hop : .op op ∈ b.known G := Builder.known_def hid (List.mem_of_mem_head? hop)
  split at h
  · rename_i name args result hkind
    obtain ⟨text, -, h⟩ := Option.bind_eq_some_iff.1 h
    split at h
    · obtain ⟨hhead, -⟩ := Option.filter_eq_some_iff.1 h
      exact Builder.known_slot hop (by simp [hkind, List.mem_of_mem_head? hhead])
    · cases h
  · cases h

theorem typeEquation?_known {left right subject : OperandId} {type : String}
    (hleft : .operand left ∈ b.known G) (hright : .operand right ∈ b.known G)
    (h : typeEquation? b.arena left right = some (subject, type)) :
    .operand subject ∈ b.known G := by
  have hside {x y : OperandId} (hx : .operand x ∈ b.known G)
      (h : (do return (← typeSubject? b.arena x, ← b.arena.stringOf? y)) = some (subject, type)) :
      .operand subject ∈ b.known G := by
    obtain ⟨found, hfound, h⟩ := Option.bind_eq_some_iff.1 h
    obtain ⟨text, -, h⟩ := Option.bind_eq_some_iff.1 h
    obtain ⟨rfl, -⟩ := Prod.mk.inj (Option.some.inj h)
    exact typeSubject?_known hx hfound
  rcases Option.or_eq_some_iff.1 h with h | ⟨-, h⟩
  · exact hside hleft h
  · exact hside hright h

theorem assertType_builds (negated : Bool) {left right result : OperandId}
    (hleft : .operand left ∈ G) (hright : .operand right ∈ G) (hresult : .operand result ∈ G) :
    Builds a₀ G (assertType negated left right result) fun _ => ∅ := by
  refine .look fun b => ?_
  split
  · rename_i subject type hequation
    exact .bind (newString_builds _) fun _ => addAssertion_builds (by simp [hresult])
      (.inr (.inl (typeEquation?_known (.given hleft) (.given hright) hequation))) _
  · exact .pure (Set.empty_subset _)

/-! ## Constants -/

theorem define_builds (name : String) {value : OperandId} (hvalue : .operand value ∈ G) :
    Builds a₀ G (define name value) fun _ => ∅ := by
  refine modify_builds (fun b => ?_) (fun b => ?_) (fun b => ?_) fun b e he => ?_
  · split <;> rfl
  · split <;> rfl
  · split <;> rfl
  · split at he
    · cases he with
      | func => exact .inl .func
      | block => exact .inl .block
      | scope he => exact .inl (.scope he)
      | const he =>
        rw [Std.TreeMap.get?_eq_getElem?, Std.TreeMap.getElem?_insert] at he
        split at he
        · exact .inr (Option.some.inj he ▸ hvalue)
        · exact .inl (.const he)
      | main => exact .inl .main
      | named he => exact .inl (.named he)
      | listed he => exact .inl (.listed he)
    · exact .inl he

/-! ## Labels -/

theorem goto_lowers (label : String) (span : Span) :
    Lowers a₀ G (goto label span) fun _ => ∅ := by
  refine .get fun b => ?_
  split
  · rename_i target htarget
    exact .bind (.lift (jump_builds (.inl (.root (.scope (.label htarget)))) span)) fun _ =>
      .lift goDead_builds
  · refine .get fun b₁ => .bind (.lift (changeScope_builds fun s e he => ?_)) fun _ =>
      .lift goDead_builds
    cases he with
    | version he => exact .inl (.version he)
    | label he => exact .inl (.label he)
    | place he => exact .inl (.place he)
    | phi he => exact .inl (.phi he)
    | goto he =>
      rcases List.mem_append.1 he with he | he
      · exact .inl (.goto he)
      · rw [List.mem_singleton.1 he]
        exact .inr (.inl (.root .block))
    | condition he => exact .inl (.condition he)

/-- A jump that waited for a label is made. -/
theorem lateJump_builds {source block : BlockId} (hsource : .block source ∈ G)
    (hblock : .block block ∈ G) (span : Span) :
    Builds a₀ G (do
      let op ← detached (.jump block) span
      change fun a => (a.append source op).link source block) fun _ => ∅ := by
  refine .bind (detached_builds (by simp [hblock]) rfl span) fun op =>
    change_builds (fun a ha hG => ?_) fun a => (Arena.Mild.append a _ _).trans (.link _ _ _)
  have hsource := hG (.inr hsource)
  have hblock := hG (.inr hblock)
  exact (ha.append hsource (hG (.inl rfl))).link (by simpa [Arena.append] using hsource)
    (by simpa [Arena.append] using hblock)

theorem label_builds (name : String) (span : Span) : Builds a₀ G (label name span) fun _ => ∅ := by
  refine .get fun b => ?_
  split
  · exact .pure (Set.empty_subset _)
  · refine .bind newBlock_builds fun block => .bind (jump_builds (by simp) span) fun _ =>
      .bind (guardBlock_builds (by simp)) fun _ => .get fun b₁ => ?_
    have hgotos (g : String × BlockId) (hg : g ∈ b₁.scope.gotos) : b₁.Root (.block g.2) :=
      .scope (.goto hg)
    rw [List.partition_eq_filter_filter]
    dsimp only
    refine .bind (.forM fun g hg => lateJump_builds
      (.inl (.root (hgotos g (List.mem_filter.1 hg).1))) (by simp) span)
      fun _ => .bind (changeScope_builds fun s e he => ?_) fun _ => goTo_builds (by simp)
    cases he with
    | version he => exact .inl (.version he)
    | label he =>
      rw [Std.TreeMap.get?_eq_getElem?, Std.TreeMap.getElem?_insert] at he
      split at he
      · rw [← Option.some.inj he]
        exact .inr (by simp)
      · exact .inl (.label he)
    | place he => exact .inl (.place he)
    | phi he => exact .inl (.phi he)
    | goto he => exact .inr (.inr (.inl (.root (hgotos _ (List.mem_filter.1 he).1))))
    | condition he => exact .inl (.condition he)

/-! ## The basic steps -/

/-- A φ joins values in a new block. -/
theorem join_lowers {x : BlockId → Lowering (List OperandId)} (span : Span)
    (hx : ∀ last, Lowers a₀ ({.block last} ∪ G) (x last) Entry.operands) : Lowers a₀ G (do
      let last ← newBlock
      let values ← x last
      let result ← newTemporary none
      let phi ← detached (.phi values result) span
      change (·.attachPhi last phi)
      return result) fun x => {.operand x} :=
  .bind (.lift newBlock_builds) fun last => .bind (hx last) fun _ => .bind (.lift newResult_builds)
    fun _ => .bind (.lift (detached_builds (by simp +contextual [or_imp]) rfl span)) fun _ =>
    .bind (.lift (attachPhi_builds (by simp) (by simp))) fun _ => .pure (by simp)

theorem Builder.held_subset_known : b.held ⊆ b.known G := by
  rintro _ (_ | hconst)
  · exact .root .block
  · exact .root (.const hconst)

/-- Lowering keeps to the entries of the file. -/
def origin (a₀ : Arena) : Logic where
  Lowers := Lowers a₀
  unit := .pure
  seq := .bind
  weaken h := h.mono
  builder := fun {G} => by
    have hget : Lowers a₀ G (get >>= pure : Lowering Builder) Builder.held :=
      .get fun b => .pure fun _ he => .inl (b.held_subset_known he)
    exact hget
  fail := .throw
  aside h := Lowers.lift (modify_builds (fun b => (h b).arena) (fun b => (h b).functions)
    (fun b => (h b).ordered) fun b _ he => .inl (he.keep (h b).func (h b).block (h b).scope
      (h b).consts (h b).main (h b).functions (h b).ordered))
  define name h := Lowers.lift (define_builds name h)
  operand hlinks hinput _ := Lowers.lift (newOperand_builds hlinks hinput)
  version hlinks hinput _ := .bind (Lowers.lift (newOperand_builds hlinks hinput)) fun _ =>
    Lowers.lift (newTemporary_builds (by simp))
  noteFunc := fun {G} =>
    have hnote : Builds a₀ G (changeFunc fun f => { f with readsInput := true }) fun _ => ∅ :=
      changeFunc_builds (fun _ => ⟨rfl, fun _ => rfl, List.Subset.refl _⟩)
        fun _ _ hr => ⟨hr.entry, hr.params, hr.callable⟩
    Lowers.lift hnote
  mark hblock hf := Lowers.lift (modifyBlock_builds hblock fun _ r hr =>
    ⟨hf.ops r ▸ hr.ops, hf.phis r ▸ hr.phis, hf.preds r ▸ hr.preds⟩)
  newBlock := @fun _ => @Lowers.lift _ _ _ _ _ newBlock_builds
  goTo h := Lowers.lift (goTo_builds h)
  link hs ht := Lowers.lift (link_builds hs ht)
  addGuard hblock hcond := Lowers.lift (addGuard_builds hblock hcond)
  guardBlock h := Lowers.lift (guardBlock_builds h)
  under := under_lowers
  place span hkind hcall _ := (Lowers.lift (emit_builds hkind hcall span)).mono subset_rfl
    fun _ => Set.empty_subset _
  result span hkind hcall _ := Lowers.lift (emitValue_builds hkind hcall span)
  answer span hkind _ := Lowers.lift (emitCall_builds hkind span)
  condition span hkind hcall _ := .bind (Lowers.lift newResult_builds) fun r =>
    .bind (Lowers.lift (detached_builds (hkind r) (hcall r) span)) fun _ => .pure (by simp)
  join := join_lowers
  read h := Lowers.lift (readVariable_builds h)
  write h := Lowers.lift (writeVariable_builds h)
  settle whole hvalue := settle_lowers whole hvalue
  addAssertion assertion hcond hvar := Lowers.lift (addAssertion_builds hcond hvar assertion)
  copyAssertions edit hsource hcond := Lowers.lift (copyAssertions_builds edit hsource hcond)
  assertType negated hleft hright hresult :=
    Lowers.lift (assertType_builds negated hleft hright hresult)
  assertBranches hcond hif helse := Lowers.lift (assertBranches_builds hcond hif helse)
  goto := goto_lowers
  label name span := Lowers.lift (label_builds name span)

end QueryTaint.Lower
