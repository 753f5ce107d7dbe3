import QueryTaint.Proofs.Relabel.Embed
import QueryTaint.Taint.Provenance

/-!
# Roles do not depend on numbers

What an operation does to tainted data, and which operands it takes data from, is read off its form,
the texts of its operands and the operations that wrote them. So an operation has the same role in an
arena that holds it under a new number (`Arena.Embeds.classify`), and data flows through the same
operands (`Arena.Embeds.flow`).
-/

namespace QueryTaint

namespace Assertion

variable {ρ : Relabel} {rigid rigid' : OperandId → Bool}

mutual

theorem excludes_relabel (h : ∀ x, rigid' (ρ.operand x) = rigid x) (outer : Bool) : ∀ s : Assertion,
    (s.relabel ρ).excludes rigid' outer = s.excludes rigid outer
  | type value negated => by rw [relabel, excludes, excludes, h]
  | composite children mode negated => by
    have hsome := excludesSome_relabel h (outer != negated) children
    have hevery := excludesEvery_relabel h (outer != negated) children
    have hempty : (relabelAll ρ children).isEmpty = children.isEmpty := by
      rw [relabelAll_eq_map, List.isEmpty_map]
    unfold relabel excludes
    dsimp only
    rw [hsome, hevery, hempty]

theorem excludesSome_relabel (h : ∀ x, rigid' (ρ.operand x) = rigid x) (outer : Bool) :
    ∀ l : List Assertion,
    excludesSome rigid' outer (relabelAll ρ l) = excludesSome rigid outer l
  | [] => rfl
  | s :: l => by
    rw [relabelAll, excludesSome, excludesSome, excludes_relabel h outer s,
      excludesSome_relabel h outer l]

theorem excludesEvery_relabel (h : ∀ x, rigid' (ρ.operand x) = rigid x) (outer : Bool) :
    ∀ l : List Assertion,
    excludesEvery rigid' outer (relabelAll ρ l) = excludesEvery rigid outer l
  | [] => rfl
  | s :: l => by
    rw [relabelAll, excludesEvery, excludesEvery, excludes_relabel h outer s,
      excludesEvery_relabel h outer l]

end

end Assertion

@[simp] theorem OpKind.isInert_relabel (ρ : Relabel) (kind : OpKind) :
    (kind.relabel ρ).isInert = kind.isInert := by
  cases kind <;> rfl

namespace Arena.Embeds

variable {g : Graft} {a b : Arena}

/-! ## What operands hold -/

theorem literalString? (h : a.Embeds g b) (x : OperandId) :
    b.literalString? (g.operand x) = a.literalString? x := by
  rw [Arena.literalString?, Arena.literalString?, h.literalOf?]

theorem calleeName? (h : a.Embeds g b) (x : OperandId) :
    b.calleeName? (g.operand x) = a.calleeName? x := by
  rw [Arena.calleeName?, Arena.calleeName?, h.literalString?]

theorem isNamedIn (h : a.Embeds g b) (names : List String) (x : OperandId) :
    b.isNamedIn names (g.operand x) = a.isNamedIn names x := by
  rw [Arena.isNamedIn, Arena.isNamedIn, h.calleeName?]

theorem definition? (h : a.Embeds g b) (x : OperandId) :
    b.definition? (g.operand x) = (a.definition? x).map (OpKind.relabel g.toRelabel) := by
  rw [Arena.definition?, Arena.definition?, h.operand, Operand.relabel, List.head?_map,
    Option.map_map, Option.map_map]
  refine congrArg (Option.map · _) (funext fun op => ?_)
  exact congrArg Op.kind (h.op op)

theorem isConstantIn (h : a.Embeds g b) (names : List String) (x : OperandId) :
    b.isConstantIn names (g.operand x) = a.isConstantIn names x := by
  unfold Arena.isConstantIn
  rw [h.definition?]
  cases a.definition? x with
  | none => rfl
  | some kind =>
    cases kind with
    | constFetch name result => exact h.isNamedIn names name
    | _ => rfl

theorem isNumericFilter (h : a.Embeds g b) (filter : Option OperandId) :
    b.isNumericFilter (filter.map g.operand) = a.isNumericFilter filter := by
  cases filter with
  | none => rfl
  | some filter =>
    unfold Arena.isNumericFilter
    simp only [Option.map_some, h.isConstantIn, h.definition?]
    cases a.definition? filter with
    | none => rfl
    | some kind =>
      cases kind with
      | array keys values byRef result =>
        simp only [Option.map_some, OpKind.relabel, List.any_map, Function.comp_def, h.isConstantIn]
      | _ => rfl

theorem isRigidType (h : a.Embeds g b) (x : OperandId) :
    b.isRigidType (g.operand x) = a.isRigidType x := by
  rw [Arena.isRigidType, Arena.isRigidType, h.stringOf?]

theorem excludesStrings (h : a.Embeds g b) (s : Assertion) :
    b.excludesStrings (s.relabel g.toRelabel) = a.excludesStrings s :=
  Assertion.excludes_relabel h.isRigidType false s

/-! ## Roles -/

section Roles

open Taxonomy

theorem sourceCall (h : a.Embeds g b) (name : OperandId) (args : List OperandId) :
    sourceCall b (g.operand name) (args.map g.operand) = sourceCall a name args := by
  unfold Taxonomy.sourceCall
  rw [h.calleeName?, List.getElem?_map, List.getElem?_map, h.isNumericFilter, h.isNumericFilter]

theorem routeCall (h : a.Embeds g b) (cls name : OperandId) :
    routeCall b (g.operand cls) (g.operand name) = routeCall a cls name := by
  unfold Taxonomy.routeCall
  rw [h.calleeName?, h.isNamedIn]

theorem decidedSource? (h : a.Embeds g b) (laravel : Bool) (kind : OpKind) :
    decidedSource? laravel b (kind.relabel g.toRelabel) = decidedSource? laravel a kind := by
  cases kind <;>
    simp only [OpKind.relabel, Taxonomy.decidedSource?, h.isSymbolic, h.sourceCall, h.routeCall]

theorem isSource (h : a.Embeds g b) (laravel : Bool) (kind : OpKind) :
    isSource laravel b (kind.relabel g.toRelabel) = isSource laravel a kind := by
  unfold Taxonomy.isSource
  rw [h.decidedSource?, OpKind.result?_relabel, OpKind.isInert_relabel, OpKind.reads_relabel,
    List.any_map, Option.isSome_map]
  simp only [Function.comp_def, h.isSymbolic]

theorem sanitizerCall (h : a.Embeds g b) (callee : String) (args : List OperandId) :
    sanitizerCall b callee (args.map g.operand) = sanitizerCall a callee args := by
  have hfirst : ((args.map g.operand).head?.bind b.literalString?) =
      args.head?.bind a.literalString? := by
    rw [List.head?_map, Option.bind_map]
    exact congrArg (Option.bind _) (funext h.literalString?)
  unfold Taxonomy.sanitizerCall
  rw [hfirst, List.getElem?_map]
  cases args[1]? with
  | none => rfl
  | some second => simp only [Option.map_some, Option.bind_some, h.literalOf?, h.isConstantIn]

theorem isSanitizer (h : a.Embeds g b) (kind : OpKind) :
    isSanitizer b (kind.relabel g.toRelabel) = isSanitizer a kind := by
  cases kind <;>
    simp only [OpKind.relabel, Taxonomy.isSanitizer, h.calleeName?, h.sanitizerCall, h.isNamedIn,
      h.excludesStrings]

theorem sinkArgs? (h : a.Embeds g b) (kind : OpKind) :
    sinkArgs? b (kind.relabel g.toRelabel) = sinkArgs? a kind := by
  cases kind <;> simp only [OpKind.relabel, Taxonomy.sinkArgs?, h.calleeName?]

/-- An operation has the role that it has under its old number. -/
theorem classify (h : a.Embeds g b) (laravel : Bool) (kind : OpKind) :
    classify laravel b (kind.relabel g.toRelabel) = classify laravel a kind := by
  unfold Taxonomy.classify
  rw [h.isSource, h.isSanitizer, h.sinkArgs?, OpKind.isInert_relabel]

theorem readsInput (h : a.Embeds g b) (laravel : Bool) (func : FuncId) :
    readsInput laravel b (g.func func) = readsInput laravel a func := by
  obtain ⟨entry, hfunc⟩ := h.exists_func func
  unfold Taxonomy.readsInput
  rw [hfunc]
  dsimp only [Func.relabel]
  rw [List.any_map]
  refine congrArg (_ || ·) (congrArg (List.any _) (funext fun call => ?_))
  rw [Function.comp_apply, h.op]
  exact h.isSource laravel _

end Roles

/-! ## Flow -/

theorem arrayKey? (h : a.Embeds g b) (x : OperandId) :
    b.arrayKey? (g.operand x) = a.arrayKey? x := by
  rw [Arena.arrayKey?, Arena.arrayKey?, h.literalOf?]

theorem itemAt (h : a.Embeds g b) (wanted : ArrayKey) (index : Int) (found : Option OperandId)
    (items : List (OperandId × OperandId)) :
    b.itemAt wanted index (found.map g.operand) (items.map (Prod.map g.operand g.operand)) =
      (a.itemAt wanted index found items).map (Option.map g.operand) := by
  induction items generalizing index found with
  | nil => rfl
  | cons item items ih =>
    obtain ⟨key, value⟩ := item
    have hrest (known : Option ArrayKey) :
        (known.bind fun k => b.itemAt wanted (k.next index)
          (if k = wanted then some (g.operand value) else found.map g.operand)
          (items.map (Prod.map g.operand g.operand))) =
        (known.bind fun k => a.itemAt wanted (k.next index)
          (if k = wanted then some value else found) items).map (Option.map g.operand) := by
      cases known with
      | none => rfl
      | some k =>
        rw [Option.bind_some, Option.bind_some, ← ih]
        split <;> rfl
    rw [List.map_cons, Prod.map, Arena.itemAt, Arena.itemAt, h.operand, h.arrayKey?, Operand.relabel]
    cases (a.operand key).kind with
    | scalar value => cases value <;> exact hrest _
    | _ => exact hrest _

theorem literalElement? (h : a.Embeds g b) (array dim : OperandId) :
    b.literalElement? (g.operand array) (g.operand dim) =
      (a.literalElement? array dim).map (Option.map g.operand) := by
  unfold Arena.literalElement?
  rw [h.definition?, h.arrayKey?]
  cases a.definition? array with
  | none => rfl
  | some kind =>
    cases kind with
    | array keys values byRef result =>
      simp only [Option.map_some, OpKind.relabel]
      cases a.arrayKey? dim with
      | none => rfl
      | some wanted =>
        have hitem := h.itemAt wanted 0 none (keys.zip values)
        rw [← List.zip_map] at hitem
        exact hitem
    | _ => rfl

/-- Data flows through the operands that it flows through under the old numbers. -/
theorem flow (h : a.Embeds g b) (kind : OpKind) :
    b.flow (kind.relabel g.toRelabel) =
      ((a.flow kind).1.map g.operand, (a.flow kind).2.map g.operand) := by
  have hslots (kind : OpKind) : ((kind.relabel g.toRelabel).reads,
      ((kind.relabel g.toRelabel).slots.filter fun e => (kind.relabel g.toRelabel).writes e.1).map
        (·.2)) = (kind.reads.map g.operand,
          ((kind.slots.filter fun e => kind.writes e.1).map (·.2)).map g.operand) := by
    rw [OpKind.reads_relabel, OpKind.slots_relabel, List.filter_map, List.map_map, List.map_map]
    simp only [Function.comp_def, OpKind.writes_relabel]
  cases kind with
  | element var dim result =>
    unfold Arena.flow
    dsimp only [OpKind.relabel]
    cases dim with
    | none => rfl
    | some dim =>
      rw [Option.map_some, Option.bind_some, Option.bind_some, h.literalElement?]
      cases a.literalElement? var dim with
      | none => rfl
      | some item => cases item <;> rfl
  | functionCall name args result =>
    cases args with
    | nil => exact hslots (.functionCall name [] result)
    | cons query args =>
      cases args with
      | nil => exact hslots (.functionCall name [query] result)
      | cons target rest =>
        simp only [OpKind.relabel, List.map_cons, Arena.flow, h.calleeName?]
        split <;> rfl
  | assign | assignRef | unset => rfl
  | _ => exact hslots _

end Arena.Embeds

end QueryTaint
