import QueryTaint.Proofs.Taint.Graph
import QueryTaint.Walk.Explore

/-!
# What taint flows through

What an event of a walk leaves tainted. An operation taints what it writes if it is a source, or if it
passes data on and reads something tainted; else it makes that harmless (`Provenance.taints_step`). So
after an assignment the variable is tainted just if the assigned value is
(`Provenance.taints_step_assign`). An assignment to an element is one to the array, whatever this held
before.

The element of an array literal takes taint from the last item that is stored under its key, and from
the whole array if a key is not known (`Provenance.taints_step_element`). A parameter takes taint from
the argument at its position (`Provenance.taints_bindParams`). Further arguments taint nothing, also
where the last parameter is variadic.

A walk without a source has no findings: as long as no source has run, no operand is tainted, and
what is not tainted makes no sink (`Provenance.Clean`). So each finding on walks is one of a walk
that runs a source (`TaintOutcome.source_of_mem_ofWalk`).
-/

namespace QueryTaint

/-! ## Elements of array literals -/

namespace Arena

variable {a : Arena}

/-- The key that an item is stored under: the next integer if it has no key, or one that is null. -/
def itemKey? (a : Arena) (index : Int) (key : OperandId) : Option ArrayKey :=
  match (a.operand key).kind with
  | .scalar .null => some (.int index)
  | _ => a.arrayKey? key

/-- The items of an array literal by the keys that they are stored under, none if some key is not
known. -/
def keyed (a : Arena) (index : Int) : List (OperandId × OperandId) →
    Option (List (ArrayKey × OperandId))
  | [] => some []
  | (key, value) :: rest => do
    let key ← a.itemKey? index key
    return (key, value) :: (← a.keyed (key.next index) rest)

/-- The last item under a key. -/
def lastUnder (wanted : ArrayKey) (entries : List (ArrayKey × OperandId)) : Option OperandId :=
  (entries.filter (·.1 = wanted)).getLast?.map (·.2)

theorem lastUnder_cons (wanted key : ArrayKey) (value : OperandId)
    (entries : List (ArrayKey × OperandId)) : lastUnder wanted ((key, value) :: entries) =
      (lastUnder wanted entries).or (if key = wanted then some value else none) := by
  unfold lastUnder
  by_cases hkey : key = wanted
  · rw [List.filter_cons_of_pos (by simpa using hkey), List.getLast?_cons, if_pos hkey]
    cases (entries.filter (·.1 = wanted)).getLast? <;> rfl
  · rw [List.filter_cons_of_neg (by simpa using hkey), if_neg hkey, Option.or_none]

theorem itemAt_eq (a : Arena) (wanted : ArrayKey) (index : Int) (found : Option OperandId)
    (items : List (OperandId × OperandId)) : a.itemAt wanted index found items =
      (a.keyed index items).map fun entries => (lastUnder wanted entries).or found := by
  induction items generalizing index found with
  | nil => rfl
  | cons item rest ih =>
    obtain ⟨key, value⟩ := item
    have hitem : a.itemAt wanted index found ((key, value) :: rest) =
        (a.itemKey? index key).bind fun key =>
          a.itemAt wanted (key.next index) (if key = wanted then some value else found) rest := by
      rw [itemAt, itemKey?]
      cases (a.operand key).kind with
      | scalar s => cases s <;> rfl
      | _ => rfl
    rw [hitem, keyed]
    cases a.itemKey? index key with
    | none => rfl
    | some key =>
      simp only [Option.bind_eq_bind, Option.bind_some, ih]
      cases a.keyed (key.next index) rest with
      | none => rfl
      | some entries =>
        refine congrArg some ?_
        dsimp only
        rw [lastUnder_cons, Option.or_assoc]
        split <;> rfl

/-- What an index selects in an array literal: the last item that is stored under it, if the index and
all keys are known. -/
theorem literalElement?_of_array {array dim : OperandId} {keys values : List OperandId} {byRef result}
    (h : a.definition? array = some (.array keys values byRef result)) :
    a.literalElement? array dim = (a.arrayKey? dim).bind fun wanted =>
      (a.keyed 0 (keys.zip values)).map (lastUnder wanted) := by
  rw [literalElement?, h]
  simp [itemAt_eq]

end Arena

namespace Provenance

variable {p : Provenance} {laravel : Bool} {a : Arena} {x : OperandId}

/-! ## Tainted operands -/

/-- An operand is tainted. -/
def Taints (p : Provenance) (x : OperandId) : Prop := p.tainted.get? x ≠ none

theorem producersOf_eq_nil {ids : List OperandId} :
    p.producersOf ids = [] ↔ ∀ x ∈ ids, ¬p.Taints x := by
  rw [List.eq_nil_iff_forall_not_mem]
  constructor
  · intro h x hx htaints
    obtain ⟨n, hn⟩ := Option.ne_none_iff_exists'.1 htaints
    exact h n (mem_producersOf.2 ⟨x, hx, hn⟩)
  · intro h n hn
    obtain ⟨x, hx, htaints⟩ := mem_producersOf.1 hn
    exact h x hx (by rw [Taints, htaints]; simp)

theorem taints_clearAll {ids : List OperandId} :
    (p.clearAll ids).Taints x ↔ x ∉ ids ∧ p.Taints x := by
  rw [Taints, tainted_clearAll]
  split <;> simp_all [Taints]

theorem taints_taintAll {ids : List OperandId} :
    (p.taintAll ids).Taints x ↔ x ∈ ids ∨ p.Taints x := by
  rw [Taints, tainted_taintAll]
  split <;> simp_all [Taints]

/-! ## Operations -/

/-- What an operation writes is tainted after it if it is a source, or if it passes on data that is
tainted. Everything else is as it was. -/
theorem taints_step (p : Provenance) (laravel : Bool) (a : Arena) (op : OpId) (x : OperandId) :
    (p.step laravel a op).Taints x ↔
      if x ∈ (a.flow (a.op op).kind).2 then
        Taxonomy.classify laravel a (a.op op).kind = .source ∨
          Taxonomy.classify laravel a (a.op op).kind = .propagate ∧
            ∃ y ∈ (a.flow (a.op op).kind).1, p.Taints y
      else p.Taints x := by
  unfold step
  dsimp only
  cases Taxonomy.classify laravel a (a.op op).kind with
  | source =>
    rw [taints_taintAll]
    change _ ∨ p.Taints x ↔ _
    split <;> simp [*]
  | sanitizer | inert =>
    rw [taints_clearAll]
    split <;> simp [*]
  | sink selected =>
    -- a node for the sink taints nothing
    have hsame (q : Provenance) (hq : q.Taints x ↔ p.Taints x) :
        (q.clearAll (a.flow (a.op op).kind).2).Taints x ↔
          if x ∈ (a.flow (a.op op).kind).2 then False else p.Taints x := by
      rw [taints_clearAll, hq]
      split <;> simp [*]
    simp only [reduceCtorEq, false_and, or_self]
    refine hsame _ ?_
    split <;> exact Iff.rfl
  | propagate =>
    simp only [reduceCtorEq, true_and, false_or]
    split
    · rename_i hnil
      have hnone := producersOf_eq_nil.1 (List.isEmpty_iff.1 hnil)
      rw [taints_clearAll]
      split <;> simp_all
    · rename_i hne
      have hsome : ∃ y ∈ (a.flow (a.op op).kind).1, p.Taints y := by
        simpa [List.isEmpty_iff, producersOf_eq_nil] using hne
      rw [taints_taintAll]
      change _ ∨ p.Taints x ↔ _
      split <;> simp [*]

theorem isSource_assign (laravel : Bool) (a : Arena) (var expr result : OperandId) :
    Taxonomy.isSource laravel a (.assign var expr result) = a.isSymbolic expr := by
  cases h : a.isSymbolic expr <;>
    simp [Taxonomy.isSource, Taxonomy.decidedSource?, OpKind.reads, OpKind.slots, OpKind.one,
      OpKind.writes, h]

theorem isSource_element (laravel : Bool) (a : Arena) (var : OperandId) (dim : Option OperandId)
    (result : OperandId) : Taxonomy.isSource laravel a (.element var dim result) =
      (var :: dim.toList).any a.isSymbolic := by
  cases dim <;> cases h : a.isSymbolic var <;>
    simp [Taxonomy.isSource, Taxonomy.decidedSource?, OpKind.isInert, OpKind.isTerminator,
      OpKind.result?, OpKind.operand?, OpKind.reads, OpKind.slots, OpKind.one, OpKind.optional,
      OpKind.writes, h]

/-- An operation that has no role of its own and is no source passes data on. -/
theorem classify_of_passes {kind : OpKind} (hsanitizer : Taxonomy.isSanitizer a kind = false)
    (hsink : Taxonomy.sinkArgs? a kind = none) (hinert : kind.isInert = false) :
    Taxonomy.classify laravel a kind =
      if Taxonomy.isSource laravel a kind then .source else .propagate := by
  simp [Taxonomy.classify, hsanitizer, hsink, hinert]

/-- After an assignment the variable is tainted just if the value that is assigned is tainted or an
input, whatever it held before. -/
theorem taints_step_assign {op : OpId} {var expr result : OperandId}
    (h : (a.op op).kind = .assign var expr result) :
    (p.step laravel a op).Taints var ↔ a.isSymbolic expr = true ∨ p.Taints expr := by
  rw [taints_step, h, classify_of_passes rfl rfl rfl, isSource_assign]
  cases a.isSymbolic expr <;> simp [Arena.flow]

/-- An element of an array is tainted just if the array or the index is an input, the item that the
index selects is tainted, or the array is where no item can be made out. -/
theorem taints_step_element {op : OpId} {var result : OperandId} {dim : Option OperandId}
    (h : (a.op op).kind = .element var dim result) :
    (p.step laravel a op).Taints result ↔ (var :: dim.toList).any a.isSymbolic = true ∨
      match dim.bind (a.literalElement? var) with
      | some item => ∃ y ∈ item, p.Taints y
      | none => p.Taints var := by
  rw [taints_step, h, classify_of_passes rfl rfl rfl, isSource_element]
  cases (var :: dim.toList).any a.isSymbolic <;>
    cases hitem : dim.bind (a.literalElement? var) <;> simp [Arena.flow, hitem]

/-! ## Parameters -/

theorem taints_bind (p : Provenance) (via : Option OpId) (target : OperandId)
    (source : Option OperandId) (x : OperandId) : (p.bind via target source).Taints x ↔
      if x = target then ∃ y ∈ source, p.Taints y else p.Taints x := by
  have htaints {y : OperandId} {n : Nat} (hy : p.tainted.get? y = some n) : p.Taints y := by
    rw [Taints, hy]
    exact Option.some_ne_none n
  unfold bind
  split
  · rename_i producer op hproducer
    obtain ⟨y, rfl, hy⟩ := Option.bind_eq_some_iff.1 hproducer
    rw [taints_taintAll, List.mem_singleton]
    change _ ∨ p.Taints x ↔ _
    split
    · exact iff_of_true (.inl ‹_›) ⟨y, rfl, htaints hy⟩
    · simp [*]
  · rename_i producer hproducer
    obtain ⟨y, rfl, hy⟩ := Option.bind_eq_some_iff.1 hproducer
    have hinsert : (p.tainted.insert target producer).get? x =
        if x = target then some producer else p.tainted.get? x := by
      rw [Std.TreeMap.get?_eq_getElem?, Std.TreeMap.getElem?_insert]
      exact if_congr (Std.compare_eq_iff_eq.trans eq_comm) rfl rfl
    rw [Taints, hinsert]
    split
    · exact iff_of_true (Option.some_ne_none producer) ⟨y, rfl, htaints hy⟩
    · exact Iff.rfl
  · rename_i hnone
    rw [taints_clearAll, List.mem_singleton]
    split
    · refine iff_of_false (by simp [*]) ?_
      rintro ⟨y, rfl, hy⟩
      exact hy hnone
    · simp [*]

theorem ofWalk_bind (laravel : Bool) (a : Arena) (w : Walk) (via : Option OpId) (target : OperandId)
    (source : Option OperandId) :
    ofWalk laravel a (w.bind via target source) = (ofWalk laravel a w).bind via target source :=
  Array.foldl_push ..

/-- The parameters of a function with what flows into them. -/
def passed (t : Terrain) : List OperandId → List OpId → List (OperandId × OperandId)
  | _, [] => []
  | args, param :: rest =>
    match (t.arena.op param).kind with
    | .param _ default _ _ _ _ _ result =>
      (result, (args.head?.or default).getD t.null) :: passed t args.tail rest
    | _ => passed t args.tail rest

theorem mem_passed {t : Terrain} {args : List OperandId} {params : List OpId} {i : Nat} {op : OpId}
    (hop : params[i]? = some op) {name default defaultBlock byRef variadic type func result}
    (hkind : (t.arena.op op).kind =
      .param name default defaultBlock byRef variadic type func result) :
    (result, (args[i]?.or default).getD t.null) ∈ passed t args params := by
  induction params generalizing args i with
  | nil => cases hop
  | cons param rest ih =>
    rw [passed]
    cases i with
    | zero =>
      cases hop
      rw [hkind, List.head?_eq_getElem?]
      exact List.mem_cons_self
    | succ i =>
      have hrest : (result, (args.tail[i]?.or default).getD t.null) ∈ passed t args.tail rest := ih hop
      rw [List.getElem?_tail] at hrest
      split
      · exact List.mem_cons_of_mem _ hrest
      · exact hrest

theorem taints_bindParams_of_notMem (t : Terrain) (laravel : Bool) {w : Walk} {args : List OperandId}
    {params : List OpId} (hx : ∀ e ∈ passed t args params, e.1 ≠ x) :
    (ofWalk laravel t.arena (Explorer.bindParams t args w params)).Taints x ↔
      (ofWalk laravel t.arena w).Taints x := by
  induction params generalizing w args with
  | nil => exact Iff.rfl
  | cons param rest ih =>
    rw [passed] at hx
    rw [Explorer.bindParams]
    cases hkind : (t.arena.op param).kind with
    | param =>
      simp only [hkind] at hx ⊢
      obtain ⟨hfirst, hrest⟩ := List.forall_mem_cons.1 hx
      rw [ih hrest, ofWalk_bind, taints_bind, if_neg (Ne.symm hfirst)]
    | _ =>
      simp only [hkind] at hx ⊢
      exact ih hx

/-- Parameters are bound one after the other. If no parameter flows into a later one, each is tainted
just if what flows into it was tainted before. -/
theorem taints_bindParams_of_mem (t : Terrain) (laravel : Bool) {w : Walk} {args : List OperandId}
    {params : List OpId}
    (h : (passed t args params).Pairwise fun e e' => e'.1 ≠ e.1 ∧ e'.2 ≠ e.1)
    {e : OperandId × OperandId} (he : e ∈ passed t args params) :
    (ofWalk laravel t.arena (Explorer.bindParams t args w params)).Taints e.1 ↔
      (ofWalk laravel t.arena w).Taints e.2 := by
  induction params generalizing w args with
  | nil => cases he
  | cons param rest ih =>
    rw [passed] at h he
    rw [Explorer.bindParams]
    cases hkind : (t.arena.op param).kind with
    | param =>
      simp only [hkind] at h he ⊢
      obtain ⟨hfirst, hrest⟩ := List.pairwise_cons.1 h
      rcases List.mem_cons.1 he with rfl | he
      · rw [taints_bindParams_of_notMem t laravel fun e he => (hfirst e he).1, ofWalk_bind,
          taints_bind, if_pos rfl]
        simp
      · rw [ih hrest he, ofWalk_bind, taints_bind, if_neg (hfirst e he).2]
    | _ =>
      simp only [hkind] at h he ⊢
      exact ih h he

/-- A parameter is tainted just if the argument at its position is, or its default where there is no
such argument. This holds of a variadic parameter too. -/
theorem taints_bindParams (t : Terrain) (laravel : Bool) {w : Walk} {args : List OperandId}
    {params : List OpId}
    (h : (passed t args params).Pairwise fun e e' => e'.1 ≠ e.1 ∧ e'.2 ≠ e.1) {i : Nat} {op : OpId}
    (hop : params[i]? = some op) {name default defaultBlock byRef variadic type func result}
    (hkind : (t.arena.op op).kind =
      .param name default defaultBlock byRef variadic type func result) :
    (ofWalk laravel t.arena (Explorer.bindParams t args w params)).Taints result ↔
      (ofWalk laravel t.arena w).Taints ((args[i]?.or default).getD t.null) :=
  taints_bindParams_of_mem t laravel h (mem_passed hop hkind)

end Provenance

/-! ## Walks without a source -/

namespace Provenance

variable {p : Provenance} {laravel : Bool} {a : Arena}

/-- Nothing is tainted and nothing tainted reached a sink. -/
structure Clean (p : Provenance) : Prop where
  tainted : ∀ id, p.tainted.get? id = none
  sinks : p.sinks = #[]

namespace Clean

theorem empty : Clean {} := ⟨fun _ => Std.TreeMap.getElem?_emptyc, rfl⟩

theorem producersOf (h : p.Clean) (ids : List OperandId) : p.producersOf ids = [] :=
  producersOf_eq_nil.2 fun id _ htaints => htaints (h.tainted id)

theorem clearAll (h : p.Clean) (ids : List OperandId) : (p.clearAll ids).Clean := by
  refine ⟨fun id => ?_, h.sinks⟩
  rw [tainted_clearAll, h.tainted id, ite_self]

/-- Only a source taints what nothing tainted flows into. -/
theorem step (h : p.Clean) {op : OpId}
    (hop : Taxonomy.isSource laravel a (a.op op).kind = false) : (p.step laravel a op).Clean := by
  unfold Provenance.step
  dsimp only
  split
  · rename_i hrole
    unfold Taxonomy.classify at hrole
    rw [hop] at hrole
    simp only [Bool.false_eq_true, if_false] at hrole
    split at hrole
    · cases hrole
    · split at hrole
      · cases hrole
      · split at hrole <;> cases hrole
  · exact h.clearAll _
  · exact h.clearAll _
  · rw [h.producersOf]
    exact h.clearAll _
  · rw [h.producersOf]
    exact h.clearAll _

theorem bind (h : p.Clean) (via : Option OpId) (target : OperandId) (source : Option OperandId) :
    (p.bind via target source).Clean := by
  have hnone : (source.bind fun id => p.tainted.get? id) = none :=
    Option.bind_eq_none_iff.2 fun id _ => h.tainted id
  unfold Provenance.bind
  rw [hnone]
  exact h.clearAll _

end Clean

theorem clean_ofWalk {w : Walk}
    (h : ∀ op, Event.op op ∈ w.events → Taxonomy.isSource laravel a (a.op op).kind = false) :
    (ofWalk laravel a w).Clean := by
  rw [ofWalk, ← Array.foldl_toList]
  have hrun : ∀ (events : List Event) (p : Provenance), p.Clean →
      (∀ op, Event.op op ∈ events → Taxonomy.isSource laravel a (a.op op).kind = false) →
      (events.foldl (event laravel a) p).Clean := by
    intro events
    induction events with
    | nil => exact fun _ hp _ => hp
    | cons e events ih =>
      intro p hp hevents
      refine ih _ ?_ fun op hop => hevents op (List.mem_cons_of_mem _ hop)
      cases e with
      | op op => exact hp.step (hevents op List.mem_cons_self)
      | bind via target source => exact hp.bind via target source
  exact hrun _ _ .empty fun op hop => h op (Array.mem_toList_iff.1 hop)

end Provenance

namespace TaintOutcome

variable {laravel : Bool} {a : Arena} {f : Finding}

/-- A walk with a finding runs a source. -/
theorem source_of_mem_ofWalk {w : Walk} (h : f ∈ ofWalk laravel a w) :
    ∃ op, Event.op op ∈ w.events ∧ Taxonomy.isSource laravel a (a.op op).kind = true := by
  refine Classical.byContradiction fun hnone => ?_
  have hclean : (Provenance.ofWalk laravel a w).Clean :=
    Provenance.clean_ofWalk fun op hop => Bool.eq_false_iff.2 fun hsource => hnone ⟨op, hop, hsource⟩
  rw [ofWalk, Provenance.traces, hclean.sinks] at h
  cases h

/-- The findings on a walk depend on what happened on it only. -/
theorem ofWalk_congr {v w : Walk} (h : v.events = w.events) :
    ofWalk laravel a v = ofWalk laravel a w := by
  rw [ofWalk, ofWalk, Provenance.ofWalk, Provenance.ofWalk, h]

/-! ## Findings on several walks -/

theorem mem_findings_add {o : TaintOutcome} {g : Finding} :
    f ∈ (o.add g).findings ↔ f ∈ o.findings ∨ f = g := by
  unfold add
  split
  · rename_i hknown
    refine ⟨.inl, fun h => ?_⟩
    rcases h with h | rfl
    · exact h
    · exact Array.contains_iff_mem.1 hknown
  · exact Array.mem_push

theorem mem_findings_foldl_add {gs : List Finding} {o : TaintOutcome} :
    f ∈ (gs.foldl add o).findings ↔ f ∈ o.findings ∨ f ∈ gs := by
  induction gs generalizing o with
  | nil => simp
  | cons g gs ih => rw [List.foldl_cons, ih, mem_findings_add, List.mem_cons, or_assoc]

/-- The findings on walks are those on each of them. -/
theorem mem_findings_ofWalks {walks : List Walk} :
    f ∈ (ofWalks laravel a walks).findings ↔ ∃ w ∈ walks, f ∈ ofWalk laravel a w := by
  have hadd (o : TaintOutcome) : f ∈ (walks.foldl (addWalk laravel a) o).findings ↔
      f ∈ o.findings ∨ ∃ w ∈ walks, f ∈ ofWalk laravel a w := by
    induction walks generalizing o with
    | nil => simp
    | cons w walks ih =>
      rw [List.foldl_cons, ih, addWalk, mem_findings_foldl_add, or_assoc]
      simp
  rw [ofWalks, hadd]
  simp

end TaintOutcome

end QueryTaint
