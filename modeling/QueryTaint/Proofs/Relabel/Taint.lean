import QueryTaint.Proofs.Relabel.Role
import QueryTaint.Proofs.Relabel.Walk
import QueryTaint.Proofs.Relabel.Weave
import QueryTaint.Proofs.Taint.Flow
import QueryTaint.Proofs.Taint.Trace

/-!
# Findings with new numbers

A walk and its twin are replayed into the same graph up to the numbers of operations
(`Provenance.Twin`), so they have the same findings up to these (`TaintOutcome.ofWalk_twin`). Where the
walks of two arenas are mixed, each finding is listed at most once per side as it is for the side alone,
because operations of different sides have different numbers (`TaintOutcome.Merged`).
-/

namespace QueryTaint

/-- The node with new numbers. -/
def TaintNode.relabel (ρ : Relabel) (n : TaintNode) : TaintNode := { n with op := ρ.op n.op }

/-- The finding with new numbers. -/
def Finding.relabel (ρ : Relabel) (f : Finding) : Finding where
  source := ρ.op f.source
  sink := ρ.op f.sink
  trace := f.trace.map ρ.op

theorem Finding.relabel_injective (ρ : Relabel) : (Finding.relabel ρ).Injective := by
  rintro ⟨source, sink, trace⟩ ⟨source', sink', trace'⟩ h
  obtain ⟨hsource, hsink, htrace⟩ := Finding.mk.inj h
  obtain rfl : source = source' := ρ.op_injective hsource
  obtain rfl : sink = sink' := ρ.op_injective hsink
  obtain rfl : trace = trace' := List.map_injective_iff.2 ρ.op_injective htrace
  rfl

theorem Finding.ofTrace?_map (ρ : Relabel) (trace : List OpId) :
    ofTrace? (trace.map ρ.op) = (ofTrace? trace).map (Finding.relabel ρ) := by
  rw [ofTrace?, ofTrace?, List.head?_map, List.getLast?_map]
  cases trace.head? <;> cases trace.getLast? <;> rfl

/-! ## The graph -/

namespace Provenance

/-- Graphs that differ in the numbers of entries only. -/
structure Twin (ρ : Relabel) (p p' : Provenance) : Prop where
  nodes : p'.nodes = p.nodes.map (TaintNode.relabel ρ)
  tainted : Carries ρ.operand id p.tainted p'.tainted
  sinks : p'.sinks = p.sinks

namespace Twin

variable {ρ : Relabel} {p p' : Provenance}

theorem empty : Twin ρ {} {} := ⟨by simp, .empty, rfl⟩

theorem size_nodes (h : p.Twin ρ p') : p'.nodes.size = p.nodes.size := by
  rw [h.nodes, Array.size_map]

theorem producersOf (h : p.Twin ρ p') (ids : List OperandId) :
    p'.producersOf (ids.map ρ.operand) = p.producersOf ids := by
  rw [Provenance.producersOf, Provenance.producersOf, List.filterMap_map]
  refine congrArg (List.foldl addNew []) (List.filterMap_congr fun id _ => ?_)
  rw [Function.comp_apply, h.tainted id, Option.map_id_fun]
  rfl

theorem addNode (h : p.Twin ρ p') (node : TaintNode) :
    (p.addNode node).Twin ρ (p'.addNode (node.relabel ρ)) :=
  { h with nodes := by rw [Provenance.addNode, Provenance.addNode, Array.map_push, h.nodes] }

theorem taintAll (h : p.Twin ρ p') (ids : List OperandId) :
    (p.taintAll ids).Twin ρ (p'.taintAll (ids.map ρ.operand)) := by
  refine { h with tainted := ?_ }
  rw [Provenance.taintAll, Provenance.taintAll, h.size_nodes, List.foldl_map]
  dsimp only
  have htainted := h.tainted
  generalize p.tainted = tainted at htainted ⊢
  generalize p'.tainted = tainted' at htainted ⊢
  induction ids generalizing tainted tainted' with
  | nil => exact htainted
  | cons id ids ih => exact ih _ _ (htainted.insert ρ.operand_injective id _)

theorem clearAll (h : p.Twin ρ p') (ids : List OperandId) :
    (p.clearAll ids).Twin ρ (p'.clearAll (ids.map ρ.operand)) := by
  refine { h with tainted := ?_ }
  rw [Provenance.clearAll, Provenance.clearAll, List.foldl_map]
  dsimp only
  have htainted := h.tainted
  generalize p.tainted = tainted at htainted ⊢
  generalize p'.tainted = tainted' at htainted ⊢
  induction ids generalizing tainted tainted' with
  | nil => exact htainted
  | cons id ids ih => exact ih _ _ (htainted.erase ρ.operand_injective id)

theorem bind (h : p.Twin ρ p') (via : Option OpId) (target : OperandId)
    (source : Option OperandId) :
    (p.bind via target source).Twin ρ
      (p'.bind (via.map ρ.op) (ρ.operand target) (source.map ρ.operand)) := by
  have hproducer : ((source.map ρ.operand).bind fun id => p'.tainted.get? id) =
      source.bind fun id => p.tainted.get? id := by
    cases source with
    | none => rfl
    | some id => exact (h.tainted id).trans (by rw [Option.map_id_fun]; rfl)
  unfold Provenance.bind
  rw [hproducer]
  cases source.bind fun id => p.tainted.get? id with
  | none => exact h.clearAll [target]
  | some producer =>
    cases via with
    | none => exact { h with tainted := h.tainted.insert ρ.operand_injective target producer }
    | some op => exact (h.addNode ⟨op, .flow, [producer]⟩).taintAll [target]

variable {g : Graft} {a b : Arena} {laravel : Bool}

theorem sinkInputs_relabel (ρ : Relabel) (kind : OpKind) (selected : SinkArgs) :
    sinkInputs (kind.relabel ρ) selected = (sinkInputs kind selected).map ρ.operand := by
  unfold sinkInputs
  rw [OpKind.operandList_relabel, List.zipIdx_map, List.filter_map, List.map_map, List.map_map]
  rfl

theorem step (ha : a.Embeds g b) (h : p.Twin g.toRelabel p') (op : OpId) :
    (p.step laravel a op).Twin g.toRelabel (p'.step laravel b (g.op op)) := by
  unfold Provenance.step
  rw [ha.op]
  dsimp only [Op.relabel]
  rw [ha.flow, ha.classify]
  dsimp only
  cases Taxonomy.classify laravel a (a.op op).kind with
  | source => exact (h.addNode ⟨op, .source, []⟩).taintAll _
  | sanitizer | inert => exact h.clearAll _
  | propagate =>
    dsimp only
    rw [h.producersOf]
    split
    · exact h.clearAll _
    · exact (h.addNode ⟨op, .flow, _⟩).taintAll _
  | sink selected =>
    dsimp only
    rw [sinkInputs_relabel, h.producersOf]
    split
    · exact h.clearAll _
    · apply clearAll
      rw [h.size_nodes, h.sinks]
      exact { h.addNode ⟨op, .sink, _⟩ with sinks := rfl }

theorem event (ha : a.Embeds g b) (h : p.Twin g.toRelabel p') (e : Event) :
    (p.event laravel a e).Twin g.toRelabel (p'.event laravel b (e.relabel g.toRelabel)) := by
  cases e with
  | op id => exact h.step ha id
  | bind via target source => exact h.bind via target source

theorem foldl (ha : a.Embeds g b) (h : p.Twin g.toRelabel p') (events : List Event) :
    (events.foldl (Provenance.event laravel a) p).Twin g.toRelabel
      ((events.map (Event.relabel g.toRelabel)).foldl (Provenance.event laravel b) p') := by
  induction events generalizing p p' with
  | nil => exact h
  | cons e events ih => exact ih (h.event ha e)

theorem ofWalk (ha : a.Embeds g b) {σ : Nat → Nat} {w w' : Walk} (hw : w.Twin g.toRelabel σ w') :
    (Provenance.ofWalk laravel a w).Twin g.toRelabel (Provenance.ofWalk laravel b w') := by
  rw [Provenance.ofWalk, Provenance.ofWalk, hw.events, ← Array.foldl_toList, ← Array.foldl_toList,
    Array.toList_map]
  exact empty.foldl ha w.events.toList

end Twin

end Provenance

/-! ## Traces -/

/-- Traces that differ in the numbers of operations only. -/
structure Traces.Twin (ρ : Relabel) (t t' : Traces) : Prop where
  found : t'.found = t.found.map (List.map ρ.op)
  emitted : t'.emitted = t.emitted

theorem contains_map_of_injective {α β : Type} [BEq α] [LawfulBEq α] [BEq β] [LawfulBEq β] {f : α → β}
    (hf : f.Injective) (xs : Array α) (x : α) : (xs.map f).contains (f x) = xs.contains x := by
  rw [Bool.eq_iff_iff, Array.contains_iff_mem, Array.contains_iff_mem, Array.mem_map]
  refine ⟨?_, fun hx => ⟨x, hx, rfl⟩⟩
  rintro ⟨y, hy, heq⟩
  exact hf heq ▸ hy

namespace Provenance

variable {ρ : Relabel} {p p' : Provenance} {laravel : Bool} {a : Arena}

/-- Following a node back lists the same traces up to numbers. -/
theorem Grounded.follow_twin (hp : Grounded laravel a p) (h : p.Twin ρ p') (limit : Nat) {i : Nat}
    (hi : i < p.nodes.size) (trail : List OpId) {t t' : Traces} (ht : t.Twin ρ t') :
    (p.follow limit trail i t).Twin ρ (p'.follow limit (trail.map ρ.op) i t') := by
  induction i using Nat.strongRecOn generalizing trail t t' with
  | ind i ih =>
    have hnode : p.nodes[i]? = some p.nodes[i] := Array.getElem?_eq_getElem hi
    have hget : p.nodes.getD i default = p.nodes[i] := by simp [Array.getD, hi]
    have hget' : p'.nodes.getD i default = p.nodes[i].relabel ρ := by
      simp [Array.getD, h.nodes, hi]
    have holder : ∀ j ∈ p.nodes[i].producers, j < i := hp.older i _ hnode
    have hproducers (trail : List OpId) (producers : List Nat) (hlt : ∀ j ∈ producers, j < i)
        {t t' : Traces} (ht : t.Twin ρ t') :
        Traces.Twin ρ
          (producers.foldl (fun t j => if _h : j < i then p.follow limit trail j t else t) t)
          (producers.foldl
            (fun t j => if _h : j < i then p'.follow limit (trail.map ρ.op) j t else t) t') := by
      induction producers generalizing t t' with
      | nil => exact ht
      | cons j producers ihp =>
        have hj : j < i := hlt j List.mem_cons_self
        rw [List.foldl_cons, List.foldl_cons, dif_pos hj, dif_pos hj]
        exact ihp (fun k hk => hlt k (List.mem_cons_of_mem _ hk))
          (ih j hj (Nat.lt_trans hj hi) trail ht)
    rw [follow, follow, ht.emitted, hget, hget']
    generalize p.nodes[i] = node at holder ⊢
    by_cases hle : limit ≤ t.emitted
    · rw [if_pos hle, if_pos hle]
      exact ht
    · rw [if_neg hle, if_neg hle]
      dsimp only [TaintNode.relabel]
      rw [← List.map_cons]
      by_cases hempty : node.producers.isEmpty = true
      · rw [if_pos hempty, if_pos hempty, ht.found,
          contains_map_of_injective (List.map_injective_iff.2 ρ.op_injective)]
        split
        · exact ⟨by rw [Array.map_push], rfl⟩
        · exact ht
      · rw [if_neg hempty, if_neg hempty]
        exact hproducers _ _ holder ht

/-- The traces of a graph and of its twin. -/
theorem Grounded.traces_twin (hp : Grounded laravel a p) (h : p.Twin ρ p') (limit : Nat) :
    p'.traces limit = (p.traces limit).map (List.map ρ.op) := by
  have hsinks (sinks : List Nat) (hlt : ∀ i ∈ sinks, i < p.nodes.size) {t t' : Traces}
      (ht : t.Twin ρ t') : Traces.Twin ρ
        (sinks.foldl (fun t i => p.follow (max 1 limit) [] i { t with emitted := 0 }) t)
        (sinks.foldl (fun t i => p'.follow (max 1 limit) [] i { t with emitted := 0 }) t') := by
    induction sinks generalizing t t' with
    | nil => exact ht
    | cons i sinks ih =>
      exact ih (fun j hj => hlt j (List.mem_cons_of_mem _ hj))
        (hp.follow_twin h (max 1 limit) (hlt i List.mem_cons_self) [] ⟨ht.found, rfl⟩)
  rw [traces, traces, h.sinks, ← Array.foldl_toList, ← Array.foldl_toList, ← Array.toList_map]
  refine congrArg Array.toList (hsinks p.sinks.toList (fun i hi => ?_) ⟨by simp, rfl⟩).found
  exact hp.sink_lt (Array.mem_toList_iff.1 hi)

end Provenance

/-! ## Findings -/

namespace TaintOutcome

variable {laravel : Bool}

/-- A walk and its twin have the same findings up to numbers. -/
theorem ofWalk_twin {g : Graft} {a b : Arena} (ha : a.Embeds g b) {σ : Nat → Nat} {w w' : Walk}
    (hw : w.Twin g.toRelabel σ w') :
    ofWalk laravel b w' = (ofWalk laravel a w).map (Finding.relabel g.toRelabel) := by
  have hgrounded := Provenance.grounded_ofWalk laravel a w
  rw [ofWalk, ofWalk, hgrounded.traces_twin (.ofWalk ha hw), List.filterMap_map, List.map_filterMap]
  exact List.filterMap_congr fun trace _ => Finding.ofTrace?_map _ trace

/-- The source of a finding is an operation that was made. -/
theorem source_mem_entries {a : Arena} {w : Walk} {f : Finding} (hf : f ∈ ofWalk laravel a w) :
    .op f.source ∈ a.entries := by
  obtain ⟨trace, htrace, hfinding⟩ := List.mem_filterMap.1 hf
  have hgrounded := Provenance.grounded_ofWalk laravel a w
  obtain ⟨sink, -, way, hway, rfl⟩ := hgrounded.way_of_mem_traces htrace
  obtain ⟨s, node, hs, hrole, hfirst⟩ := hway.head?_traceOf
  rw [Finding.ofTrace?, hfirst, hway.getLast?_traceOf] at hfinding
  obtain rfl := Option.some.inj hfinding
  have hsource := hgrounded.source node (Array.mem_of_getElem? hs) hrole
  -- what was never made is no source
  by_contra hout
  rw [Arena.op_of_le a (Nat.le_of_not_lt hout)] at hsource
  cases hsource

/-! ## Two sides -/

variable {g : Bool → Graft} {a : Bool → Arena} {b : Arena}

/-- Operations of different sides have different numbers. -/
def OpsApart (g : Bool → Graft) (a : Bool → Arena) : Prop :=
  ∀ (t u : Bool) (x y : OpId), t ≠ u → .op y ∈ (a u).entries → (g t).op x ≠ (g u).op y

/-- The findings of two sides are those of both: what is found, with the side that finds it. -/
structure Merged (g : Bool → Graft) (found : List (Bool × Finding)) (o : Bool → TaintOutcome)
    (o' : TaintOutcome) : Prop where
  own (side : Bool) : (o side).findings.toList = ofSide found side
  both : o'.findings.toList = found.map fun f => f.2.relabel (g f.1).toRelabel

namespace Merged

variable {found : List (Bool × Finding)} {o : Bool → TaintOutcome} {o' : TaintOutcome} {side : Bool}

/-- Only the findings count. -/
theorem congr (h : Merged g found o o') (side : Bool) (x x' : TaintOutcome)
    (hx : x.findings = (o side).findings) (hx' : x'.findings = o'.findings) :
    Merged g found (Function.update o side x) x' where
  own t := by
    by_cases ht : t = side
    · subst ht
      rw [Function.update_self, hx]
      exact h.own t
    · rw [Function.update_of_ne ht]
      exact h.own t
  both := by rw [hx', h.both]

/-- A finding is known on its side if it is known at all. -/
theorem contains_iff (h : Merged g found o o') (hapart : OpsApart g a) {f : Finding}
    (hf : .op f.source ∈ (a side).entries) :
    o'.findings.contains (f.relabel (g side).toRelabel) = (o side).findings.contains f := by
  rw [Bool.eq_iff_iff, Array.contains_iff_mem, Array.contains_iff_mem, ← Array.mem_toList_iff,
    ← Array.mem_toList_iff, h.both, h.own, mem_ofSide, List.mem_map]
  constructor
  · rintro ⟨⟨t, f'⟩, hmem, heq⟩
    by_cases ht : t = side
    · subst ht
      exact Finding.relabel_injective _ heq ▸ hmem
    · exact absurd (congrArg Finding.source heq) (hapart t side _ _ ht hf)
  · intro hmem
    exact ⟨(side, f), hmem, rfl⟩

theorem add (h : Merged g found o o') (hapart : OpsApart g a) {f : Finding}
    (hf : .op f.source ∈ (a side).entries) :
    ∃ found', Merged g found' (Function.update o side ((o side).add f))
      (o'.add (f.relabel (g side).toRelabel)) := by
  have hcontains := h.contains_iff hapart hf
  by_cases hknown : (o side).findings.contains f = true
  · refine ⟨found, h.congr side _ _ ?_ ?_⟩
    · rw [TaintOutcome.add, if_pos hknown]
    · rw [TaintOutcome.add, if_pos (hcontains.trans hknown)]
  · refine ⟨found ++ [(side, f)], fun t => ?_, ?_⟩
    · rw [ofSide_append, ofSide_cons]
      by_cases ht : side = t
      · subst ht
        rw [Function.update_self, if_pos rfl, TaintOutcome.add, if_neg hknown, Array.toList_push, h.own]
        rfl
      · rw [Function.update_of_ne (Ne.symm ht), if_neg ht, h.own]
        exact (List.append_nil _).symm
    · rw [TaintOutcome.add, hcontains, if_neg hknown, Array.toList_push, h.both, List.map_append]
      rfl

theorem addAll (h : Merged g found o o') (hapart : OpsApart g a) {fs : List Finding}
    (hfs : ∀ f ∈ fs, .op f.source ∈ (a side).entries) :
    ∃ found', Merged g found' (Function.update o side (fs.foldl TaintOutcome.add (o side)))
      ((fs.map (Finding.relabel (g side).toRelabel)).foldl TaintOutcome.add o') := by
  induction fs generalizing found o o' with
  | nil =>
    refine ⟨found, ?_⟩
    rw [List.foldl_nil, Function.update_eq_self]
    exact h
  | cons f fs ih =>
    obtain ⟨found₁, h₁⟩ := h.add hapart (hfs f List.mem_cons_self)
    obtain ⟨found', h'⟩ := ih h₁ fun f hf => hfs f (List.mem_cons_of_mem _ hf)
    rw [Function.update_self, Function.update_idem] at h'
    exact ⟨found', h'⟩

variable {σ : Bool → Nat → Nat}

theorem addWalk (laravel : Bool) (h : Merged g found o o') (hapart : OpsApart g a)
    (ha : (a side).Embeds (g side) b) {w w' : Walk} (hw : w.Twin (g side).toRelabel (σ side) w') :
    ∃ found', Merged g found'
      (Function.update o side ((o side).addWalk laravel (a side) w)) (o'.addWalk laravel b w') := by
  let stats (o : TaintOutcome) : TaintStats := { o.stats with
    walks := o.stats.walks + 1
    tainted := o.stats.tainted + if (ofWalk laravel (a side) w).isEmpty then 0 else 1 }
  have hcounted := h.congr side { o side with stats := stats (o side) } { o' with stats := stats o' }
    rfl rfl
  have hmade : ∀ f ∈ ofWalk laravel (a side) w, .op f.source ∈ (a side).entries :=
    fun f hf => source_mem_entries hf
  obtain ⟨found', h'⟩ := hcounted.addAll hapart hmade
  rw [Function.update_self, Function.update_idem] at h'
  refine ⟨found', ?_⟩
  rw [TaintOutcome.addWalk, TaintOutcome.addWalk, ofWalk_twin ha hw, List.isEmpty_map]
  exact h'

theorem addWalks (laravel : Bool) (h : Merged g found o o') (hapart : OpsApart g a)
    (ha : ∀ t, (a t).Embeds (g t) b) {walks : List (Bool × Walk)} {walks' : List Walk}
    (hwalks : List.Forall₂ (fun w w' => w.2.Twin (g w.1).toRelabel (σ w.1) w') walks walks') :
    ∃ found', Merged g found'
      (fun t => (ofSide walks t).foldl (TaintOutcome.addWalk laravel (a t)) (o t))
      (walks'.foldl (TaintOutcome.addWalk laravel b) o') := by
  induction hwalks generalizing found o o' with
  | nil => exact ⟨found, h⟩
  | @cons e w' walks _ hw _ ih =>
    obtain ⟨side, w⟩ := e
    obtain ⟨found₁, h₁⟩ := h.addWalk laravel hapart (ha side) hw
    obtain ⟨found', h'⟩ := ih h₁
    refine ⟨found', ?_⟩
    have hturns : (fun t => (ofSide ((side, w) :: walks) t).foldl (TaintOutcome.addWalk laravel (a t))
        (o t)) = fun t => (ofSide walks t).foldl (TaintOutcome.addWalk laravel (a t))
          (Function.update o side ((o side).addWalk laravel (a side) w) t) := by
      funext t
      rw [ofSide_cons]
      by_cases ht : side = t
      · subst ht
        rw [if_pos rfl, Function.update_self, List.foldl_cons]
      · rw [if_neg ht, Function.update_of_ne (Ne.symm ht)]
    rw [hturns]
    exact h'

end Merged

/-- The walks of two sides have the findings that the walks of each have. -/
theorem ofWalks_twin (laravel : Bool) (hapart : OpsApart g a) (ha : ∀ t, (a t).Embeds (g t) b)
    {σ : Bool → Nat → Nat} {walks : List (Bool × Walk)} {walks' : List Walk}
    (hwalks : List.Forall₂ (fun w w' => w.2.Twin (g w.1).toRelabel (σ w.1) w') walks walks') :
    ∃ found : List (Bool × Finding),
      (∀ t, (ofWalks laravel (a t) (ofSide walks t)).findings.toList = ofSide found t) ∧
        (ofWalks laravel b walks').findings.toList =
          found.map fun f => f.2.relabel (g f.1).toRelabel := by
  have hempty : Merged g [] (fun _ => {}) {} := ⟨fun _ => rfl, rfl⟩
  obtain ⟨found, hfound⟩ := hempty.addWalks laravel hapart ha hwalks
  exact ⟨found, hfound.own, hfound.both⟩

end TaintOutcome

end QueryTaint
