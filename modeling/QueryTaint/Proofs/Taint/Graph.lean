import Mathlib.Data.List.Chain
import Mathlib.Data.List.Nodup
import QueryTaint.Proofs.Arena.Access
import QueryTaint.Taint.Finding

/-!
# The graph of a walk

What holds of every graph that a walk is replayed into (`Provenance.Grounded`): nodes take data from
older nodes only, exactly the sources take it from none, and what is tainted was tainted by a node.
A new node keeps this if it names older nodes (`Grounded.addNode`), and so does every event.

So each node can be followed back to a source (`Grounded.exists_leadsBack`), whatever was made
harmless in between.
-/

namespace QueryTaint

namespace Provenance

variable {p : Provenance} {laravel : Bool} {a : Arena}

/-! ## Access -/

theorem mem_edges {i j : Nat} :
    (i, j) ∈ p.edges ↔ ∃ node, p.nodes[i]? = some node ∧ j ∈ node.producers := by
  simp only [edges, List.mem_flatMap, List.mem_map, Prod.exists, List.mem_zipIdx_iff_getElem?,
    Array.getElem?_toList, Prod.mk.injEq]
  constructor
  · rintro ⟨node, i', hnode, j', hj, rfl, rfl⟩
    exact ⟨node, hnode, hj⟩
  · rintro ⟨node, hnode, hj⟩
    exact ⟨node, i, hnode, j, hj, rfl, rfl⟩

theorem tainted_clearAll (p : Provenance) (ids : List OperandId) (x : OperandId) :
    (p.clearAll ids).tainted.get? x = if x ∈ ids then none else p.tainted.get? x := by
  unfold clearAll
  dsimp only
  generalize p.tainted = tainted
  induction ids generalizing tainted with
  | nil => rfl
  | cons id ids ih =>
    rw [List.foldl_cons, ih, Std.TreeMap.get?_eq_getElem?, Std.TreeMap.getElem?_erase]
    by_cases hx : x ∈ ids
    · rw [if_pos hx, if_pos (List.mem_cons_of_mem _ hx)]
    · rw [if_neg hx]
      refine if_congr (Std.compare_eq_iff_eq.trans ?_) rfl rfl
      simp [hx, eq_comm]

theorem tainted_taintAll (p : Provenance) (ids : List OperandId) (x : OperandId) :
    (p.taintAll ids).tainted.get? x =
      if x ∈ ids then some (p.nodes.size - 1) else p.tainted.get? x := by
  unfold taintAll
  dsimp only
  generalize p.tainted = tainted
  induction ids generalizing tainted with
  | nil => rfl
  | cons id ids ih =>
    rw [List.foldl_cons, ih, Std.TreeMap.get?_eq_getElem?, Std.TreeMap.getElem?_insert]
    by_cases hx : x ∈ ids
    · rw [if_pos hx, if_pos (List.mem_cons_of_mem _ hx)]
    · rw [if_neg hx]
      refine if_congr (Std.compare_eq_iff_eq.trans ?_) rfl rfl
      simp [hx, eq_comm]

theorem nodup_producersOf (p : Provenance) (ids : List OperandId) : (p.producersOf ids).Nodup := by
  unfold producersOf
  generalize ids.filterMap (fun id => p.tainted.get? id) = found
  have hrun : ∀ known : List Nat, known.Nodup → (found.foldl addNew known).Nodup := by
    induction found with
    | nil => exact fun known h => h
    | cons n found ih => exact fun known h => ih _ (nodup_addNew h n)
  exact hrun [] List.nodup_nil

theorem mem_producersOf {ids : List OperandId} {n : Nat} :
    n ∈ p.producersOf ids ↔ ∃ x ∈ ids, p.tainted.get? x = some n := by
  rw [← List.mem_filterMap, producersOf]
  generalize ids.filterMap (fun id => p.tainted.get? id) = found
  have hrun : ∀ known : List Nat, n ∈ found.foldl addNew known ↔ n ∈ known ∨ n ∈ found := by
    induction found with
    | nil => simp
    | cons m found ih =>
      intro known
      rw [List.foldl_cons, ih, mem_addNew, List.mem_cons, or_assoc]
  simp [hrun]

/-! ## Invariants -/

/-- What holds of the graph of a walk. -/
structure Grounded (laravel : Bool) (a : Arena) (p : Provenance) : Prop where
  /-- Nodes take data from older nodes. -/
  older : ∀ (i : Nat) (node : TaintNode), p.nodes[i]? = some node → ∀ j ∈ node.producers, j < i
  once : ∀ node ∈ p.nodes, node.producers.Nodup
  /-- Sources take data from no node, and all other nodes do. -/
  rooted : ∀ node ∈ p.nodes, node.producers = [] ↔ node.role = .source
  source : ∀ node ∈ p.nodes, node.role = .source →
    Taxonomy.classify laravel a (a.op node.op).kind = .source
  sink : ∀ node ∈ p.nodes, node.role = .sink →
    ∃ selected, Taxonomy.classify laravel a (a.op node.op).kind = .sink selected
  tainted : ∀ x n, p.tainted.get? x = some n → n < p.nodes.size
  /-- The sinks are the nodes with that role, in the order in which they were made. -/
  sinks : ∀ i, i ∈ p.sinks ↔ ∃ node, p.nodes[i]? = some node ∧ node.role = .sink
  ordered : p.sinks.toList.Pairwise (· < ·)

/-- What a new node must be like. -/
structure Fits (laravel : Bool) (a : Arena) (p : Provenance) (node : TaintNode) : Prop where
  older : ∀ j ∈ node.producers, j < p.nodes.size
  once : node.producers.Nodup
  rooted : node.producers = [] ↔ node.role = .source
  source : node.role = .source → Taxonomy.classify laravel a (a.op node.op).kind = .source
  sink : node.role = .sink →
    ∃ selected, Taxonomy.classify laravel a (a.op node.op).kind = .sink selected

namespace Grounded

theorem empty : Grounded laravel a {} where
  older i node h := by simp at h
  once node h := by simp at h
  rooted node h := by simp at h
  source node h := by simp at h
  sink node h := by simp at h
  tainted x n h := by rw [Std.TreeMap.get?_eq_getElem?, Std.TreeMap.getElem?_emptyc] at h; cases h
  sinks i := by simp
  ordered := .nil

theorem clearAll (h : Grounded laravel a p) (ids : List OperandId) :
    Grounded laravel a (p.clearAll ids) :=
  { h with
    tainted := fun x n hx => by
      rw [tainted_clearAll] at hx
      split at hx
      · cases hx
      · exact h.tainted x n hx }

/-- The newest node taints operands. -/
theorem taintAll (h : Grounded laravel a p) (hne : p.nodes.size ≠ 0) (ids : List OperandId) :
    Grounded laravel a (p.taintAll ids) :=
  { h with
    tainted := fun x n hx => by
      change n < p.nodes.size
      rw [tainted_taintAll] at hx
      split at hx
      · cases hx
        omega
      · exact h.tainted x n hx }

theorem size_addNode (p : Provenance) (node : TaintNode) :
    (p.addNode node).nodes.size ≠ 0 := by
  rw [Provenance.addNode, Array.size_push]
  omega

theorem getElem?_addNode {node : TaintNode} {i : Nat} {n : TaintNode} :
    (p.addNode node).nodes[i]? = some n ↔
      p.nodes[i]? = some n ∨ i = p.nodes.size ∧ n = node := by
  rw [Provenance.addNode, Array.getElem?_push]
  split
  · rename_i heq
    subst heq
    simp [eq_comm]
  · rename_i hne
    simp [hne]

/-- A node is added, and listed if it is a sink. -/
theorem addNode (h : Grounded laravel a p) {node : TaintNode} (hnode : Fits laravel a p node)
    {sinks : Array Nat}
    (hsinks : sinks = if node.role = .sink then p.sinks.push p.nodes.size else p.sinks) :
    Grounded laravel a { p.addNode node with sinks } := by
  have hmem (n : TaintNode) (hn : n ∈ (p.addNode node).nodes) : n ∈ p.nodes ∨ n = node :=
    Array.mem_push.1 hn
  constructor
  case older =>
    intro i n hi j hj
    rcases getElem?_addNode.1 hi with hi | ⟨rfl, rfl⟩
    · exact h.older i n hi j hj
    · exact hnode.older j hj
  case once => exact fun n hn => (hmem n hn).elim (h.once n) (· ▸ hnode.once)
  case rooted => exact fun n hn => (hmem n hn).elim (h.rooted n) (· ▸ hnode.rooted)
  case source => exact fun n hn => (hmem n hn).elim (h.source n) (· ▸ hnode.source)
  case sink => exact fun n hn => (hmem n hn).elim (h.sink n) (· ▸ hnode.sink)
  case tainted =>
    intro x n hx
    have hlt := h.tainted x n hx
    change n < (p.nodes.push node).size
    rw [Array.size_push]
    omega
  case sinks =>
    intro i
    have hlisted : i ∈ sinks ↔ i ∈ p.sinks ∨ i = p.nodes.size ∧ node.role = .sink := by
      rw [hsinks]
      split <;> rename_i hrole <;> simp [hrole]
    rw [hlisted, h.sinks]
    simp only [getElem?_addNode]
    constructor
    · rintro (⟨n, hn, hrole⟩ | ⟨rfl, hrole⟩)
      · exact ⟨n, .inl hn, hrole⟩
      · exact ⟨node, .inr ⟨rfl, rfl⟩, hrole⟩
    · rintro ⟨n, hn | ⟨rfl, rfl⟩, hrole⟩
      · exact .inl ⟨n, hn, hrole⟩
      · exact .inr ⟨rfl, hrole⟩
  case ordered =>
    rw [hsinks]
    split
    · rw [Array.toList_push, List.pairwise_append]
      refine ⟨h.ordered, List.pairwise_singleton .., fun i hi j hj => ?_⟩
      rw [List.mem_singleton.1 hj]
      obtain ⟨n, hn, -⟩ := (h.sinks i).1 (Array.mem_toList_iff.1 hi)
      exact (Array.getElem?_eq_some_iff.1 hn).1
    · exact h.ordered

theorem lt_of_mem_producersOf (h : Grounded laravel a p) {ids : List OperandId} {j : Nat}
    (hj : j ∈ p.producersOf ids) : j < p.nodes.size := by
  obtain ⟨x, -, hx⟩ := mem_producersOf.1 hj
  exact h.tainted x j hx

/-- A node may take data from the nodes that tainted some operands. -/
theorem fits_producersOf (h : Grounded laravel a p) {ids : List OperandId} {op : OpId}
    {role : NodeRole} (hne : ¬(p.producersOf ids).isEmpty = true) (hsource : role ≠ .source)
    (hsink : role = .sink → ∃ selected, Taxonomy.classify laravel a (a.op op).kind = .sink selected) :
    Fits laravel a p ⟨op, role, p.producersOf ids⟩ where
  older _ hj := h.lt_of_mem_producersOf hj
  once := nodup_producersOf p ids
  rooted := iff_of_false (fun hnil => hne (List.isEmpty_iff.2 hnil)) hsource
  source hrole := absurd hrole hsource
  sink := hsink

/-- An operation keeps the graph grounded. -/
theorem step (h : Grounded laravel a p) (op : OpId) : Grounded laravel a (p.step laravel a op) := by
  unfold Provenance.step
  dsimp only
  split
  case h_1 hop =>
    have hfits : Fits laravel a p ⟨op, .source, []⟩ :=
      ⟨List.forall_mem_nil _, List.nodup_nil, iff_of_true rfl rfl, fun _ => hop, nofun⟩
    exact (h.addNode hfits rfl).taintAll (size_addNode p _) _
  case h_2 | h_3 => exact h.clearAll _
  case h_4 selected hop =>
    split
    · exact h.clearAll _
    · rename_i hne
      exact (h.addNode (h.fits_producersOf hne (by simp) fun _ => ⟨selected, hop⟩) rfl).clearAll _
  case h_5 =>
    split
    · exact h.clearAll _
    · rename_i hne
      have hfits : Fits laravel a p ⟨op, .flow, p.producersOf (a.flow (a.op op).kind).1⟩ :=
        h.fits_producersOf hne (by simp) nofun
      exact (h.addNode hfits rfl).taintAll (size_addNode p _) _

/-- A value that flows into an operand keeps the graph grounded. -/
theorem bind (h : Grounded laravel a p) (via : Option OpId) (target : OperandId)
    (source : Option OperandId) : Grounded laravel a (p.bind via target source) := by
  unfold Provenance.bind
  split
  case h_1 producer op hproducer =>
    obtain ⟨x, -, hx⟩ := Option.bind_eq_some_iff.1 hproducer
    have hfits : Fits laravel a p ⟨op, .flow, [producer]⟩ :=
      ⟨fun j hj => List.mem_singleton.1 hj ▸ h.tainted x producer hx, List.nodup_singleton _,
        by simp, nofun, nofun⟩
    exact (h.addNode hfits rfl).taintAll (size_addNode p _) _
  case h_2 producer hproducer =>
    obtain ⟨y, -, hy⟩ := Option.bind_eq_some_iff.1 hproducer
    refine { h with tainted := fun x n hx => ?_ }
    rw [Std.TreeMap.get?_eq_getElem?, Std.TreeMap.getElem?_insert] at hx
    split at hx
    · exact Option.some.inj hx ▸ h.tainted y producer hy
    · exact h.tainted x n hx
  case h_3 => exact h.clearAll _

theorem event (h : Grounded laravel a p) (e : Event) : Grounded laravel a (p.event laravel a e) := by
  cases e with
  | op op => exact h.step op
  | bind via target source => exact h.bind via target source

theorem foldl (h : Grounded laravel a p) (events : List Event) :
    Grounded laravel a (events.foldl (Provenance.event laravel a) p) := by
  induction events generalizing p with
  | nil => exact h
  | cons e events ih => exact ih (h.event e)

end Grounded

theorem grounded_ofWalk (laravel : Bool) (a : Arena) (w : Walk) :
    Grounded laravel a (ofWalk laravel a w) := by
  rw [ofWalk, ← Array.foldl_toList]
  exact Grounded.empty.foldl _

/-! ## Ways back -/

/-- A way from a node back to a source, over nodes that data was taken from. -/
inductive LeadsBack (p : Provenance) : Nat → List Nat → Prop
  | source {i : Nat} {node : TaintNode} (hnode : p.nodes[i]? = some node)
      (hrole : node.role = .source) : LeadsBack p i [i]
  | producer {i j : Nat} {node : TaintNode} {way : List Nat} (hnode : p.nodes[i]? = some node)
      (hj : j ∈ node.producers) (hway : LeadsBack p j way) : LeadsBack p i (i :: way)

namespace LeadsBack

variable {i : Nat} {way : List Nat}

theorem head?_eq (h : LeadsBack p i way) : way.head? = some i := by
  cases h <;> rfl

/-- Neighbours on a way are joined by edges. -/
theorem isChain_edges (h : LeadsBack p i way) : way.IsChain fun i j => (i, j) ∈ p.edges := by
  induction h with
  | source => exact .singleton _
  | producer hnode hj hway ih =>
    refine List.isChain_cons.2 ⟨fun j' hj' => ?_, ih⟩
    rw [hway.head?_eq] at hj'
    obtain rfl := Option.some.inj hj'
    exact mem_edges.2 ⟨_, hnode, hj⟩

/-- A way ends at a source. -/
theorem getLast?_eq (h : LeadsBack p i way) :
    ∃ s node, way.getLast? = some s ∧ p.nodes[s]? = some node ∧ node.role = .source := by
  induction h with
  | source hnode hrole => exact ⟨_, _, rfl, hnode, hrole⟩
  | producer hnode hj hway ih =>
    obtain ⟨s, node, hlast, hs, hrole⟩ := ih
    exact ⟨s, node, by rw [List.getLast?_cons, hlast]; rfl, hs, hrole⟩

end LeadsBack

/-- Every node can be followed back to a source. -/
theorem Grounded.exists_leadsBack (h : Grounded laravel a p) {i : Nat} (hi : i < p.nodes.size) :
    ∃ way, LeadsBack p i way := by
  induction i using Nat.strongRecOn with
  | ind i ih =>
    have hnode : p.nodes[i]? = some p.nodes[i] := Array.getElem?_eq_getElem hi
    by_cases hrole : p.nodes[i].role = .source
    · exact ⟨[i], .source hnode hrole⟩
    · have hne : p.nodes[i].producers ≠ [] := fun hnil =>
        hrole ((h.rooted _ (Array.getElem_mem hi)).1 hnil)
      obtain ⟨j, hj⟩ := List.exists_mem_of_ne_nil _ hne
      have hlt := h.older i _ hnode j hj
      obtain ⟨way, hway⟩ := ih j hlt (Nat.lt_trans hlt hi)
      exact ⟨i :: way, .producer hnode hj hway⟩

end Provenance

/-!
## Which event made a node

An event makes one node or none (`Provenance.event_eq`), and what it makes is said by `Makes` in terms
of the graph at that moment. So the nodes of a walk are known from its events
(`Provenance.getElem?_ofWalk`): each was made by one of them, in their order, and took data from what
had tainted its operands by then, in the order of the operands.
-/

namespace Provenance

variable {p : Provenance} {laravel : Bool} {a : Arena}

/-- The graph that some events are replayed into, begun with a graph. -/
def replay (laravel : Bool) (a : Arena) (p : Provenance) (events : List Event) : Provenance :=
  events.foldl (event laravel a) p

theorem ofWalk_eq (laravel : Bool) (a : Arena) (w : Walk) :
    ofWalk laravel a w = replay laravel a {} w.events.toList := by
  rw [ofWalk, ← Array.foldl_toList, replay]

/-- Data is taken from what tainted the operands, in their order, from each node once. -/
theorem producersOf_eq (p : Provenance) (ids : List OperandId) :
    p.producersOf ids = (ids.filterMap fun id => p.tainted.get? id).eraseDups := by
  unfold producersOf
  generalize ids.filterMap (fun id => p.tainted.get? id) = found
  have hrun : ∀ known : List Nat, found.foldl addNew known =
      known ++ (found.filter fun n => !known.contains n).eraseDups := by
    induction found with
    | nil => simp
    | cons n found ih =>
      intro known
      rw [List.foldl_cons, ih, addNew]
      by_cases hn : n ∈ known
      · simp [hn]
      · have hnew : (!known.contains n) = true := by simpa using hn
        rw [if_neg hn, List.filter_cons, if_pos hnew, List.eraseDups_cons, List.append_assoc,
          List.singleton_append, List.filter_filter]
        congr 3
        refine List.filter_congr fun m _ => ?_
        by_cases hm : m = n <;> simp [hm]
  simp [hrun]

/-- What an event makes of a graph: a node for a source, for what takes tainted data, for a sink that
tainted data reaches, and for a tainted value that flows through an operation. -/
inductive Makes (laravel : Bool) (a : Arena) (p : Provenance) : Event → TaintNode → Prop
  | source {op : OpId} (hop : Taxonomy.classify laravel a (a.op op).kind = .source) :
      Makes laravel a p (.op op) ⟨op, .source, []⟩
  | flow {op : OpId} {producers : List Nat}
      (hop : Taxonomy.classify laravel a (a.op op).kind = .propagate)
      (hproducers : producers =
        ((a.flow (a.op op).kind).1.filterMap fun id => p.tainted.get? id).eraseDups)
      (hne : producers ≠ []) : Makes laravel a p (.op op) ⟨op, .flow, producers⟩
  | sink {op : OpId} {selected : SinkArgs} {producers : List Nat}
      (hop : Taxonomy.classify laravel a (a.op op).kind = .sink selected)
      (hproducers : producers =
        ((sinkInputs (a.op op).kind selected).filterMap fun id => p.tainted.get? id).eraseDups)
      (hne : producers ≠ []) : Makes laravel a p (.op op) ⟨op, .sink, producers⟩
  | bind {op : OpId} {target source : OperandId} {n : Nat}
      (hsource : p.tainted.get? source = some n) :
      Makes laravel a p (.bind (some op) target (some source)) ⟨op, .flow, [n]⟩

/-- An event makes one node or none. -/
theorem event_eq (laravel : Bool) (a : Arena) (p : Provenance) (e : Event) :
    ((p.event laravel a e).nodes = p.nodes ∧ ∀ node, ¬Makes laravel a p e node) ∨
      ∃ node, (p.event laravel a e).nodes = p.nodes.push node ∧
        ∀ node', Makes laravel a p e node' ↔ node' = node := by
  have hnone {ids : List OperandId} (h : (p.producersOf ids).isEmpty = true) :
      (ids.filterMap fun id => p.tainted.get? id).eraseDups = [] := by
    rw [← producersOf_eq]
    exact List.isEmpty_iff.1 h
  cases e with
  | op op =>
    simp only [event, step]
    split
    case h_1 hop =>
      refine .inr ⟨_, rfl, fun node' => ⟨fun hmakes => ?_, ?_⟩⟩
      · cases hmakes <;> simp_all
      · rintro rfl
        exact .source hop
    case h_2 hop | h_3 hop =>
      refine .inl ⟨rfl, fun node hmakes => ?_⟩
      cases hmakes <;> simp_all
    case h_4 selected hop =>
      split
      · rename_i hempty
        refine .inl ⟨rfl, fun node hmakes => ?_⟩
        cases hmakes <;> simp_all
      · rename_i hne
        refine .inr ⟨_, rfl, fun node' => ⟨fun hmakes => ?_, ?_⟩⟩
        · cases hmakes <;> simp_all [producersOf_eq]
        · rintro rfl
          exact .sink hop (producersOf_eq p _) fun hnil => hne (List.isEmpty_iff.2 hnil)
    case h_5 hop =>
      split
      · rename_i hempty
        refine .inl ⟨rfl, fun node hmakes => ?_⟩
        cases hmakes <;> simp_all
      · rename_i hne
        refine .inr ⟨_, rfl, fun node' => ⟨fun hmakes => ?_, ?_⟩⟩
        · cases hmakes <;> simp_all [producersOf_eq]
        · rintro rfl
          exact .flow hop (producersOf_eq p _) fun hnil => hne (List.isEmpty_iff.2 hnil)
  | bind via target source =>
    simp only [event, Provenance.bind]
    split
    case h_1 producer op hproducer =>
      obtain ⟨x, rfl, hx⟩ := Option.bind_eq_some_iff.1 hproducer
      refine .inr ⟨_, rfl, fun node' => ⟨fun hmakes => ?_, ?_⟩⟩
      · cases hmakes with
        | bind hx' =>
          obtain rfl := Option.some.inj (hx.symm.trans hx')
          rfl
      · rintro rfl
        exact .bind hx
    case h_2 producer hproducer =>
      exact .inl ⟨rfl, fun node hmakes => nomatch hmakes⟩
    case h_3 hproducer =>
      refine .inl ⟨rfl, fun node hmakes => ?_⟩
      cases hmakes with
      | bind hx =>
        rw [Option.bind_some, hx] at hproducer
        cases hproducer

/-- Node by node, what the events of a replay made. -/
theorem getElem?_replay (laravel : Bool) (a : Arena) (p : Provenance) (events : List Event) {i : Nat}
    {node : TaintNode} :
    (replay laravel a p events).nodes[i]? = some node ↔ p.nodes[i]? = some node ∨
      ∃ before e after, events = before ++ e :: after ∧
        i = (replay laravel a p before).nodes.size ∧
        Makes laravel a (replay laravel a p before) e node := by
  induction events generalizing p with
  | nil => simp [replay]
  | cons e events ih =>
    change (replay laravel a (p.event laravel a e) events).nodes[i]? = some node ↔ _
    have hfirst : (p.event laravel a e).nodes[i]? = some node ↔
        p.nodes[i]? = some node ∨ i = p.nodes.size ∧ Makes laravel a p e node := by
      rcases event_eq laravel a p e with ⟨hnodes, hnone⟩ | ⟨made, hnodes, hmade⟩
      · simp [hnodes, hnone]
      · rw [hnodes, hmade, Array.getElem?_push]
        split
        · rename_i heq
          subst heq
          simp [eq_comm]
        · rename_i hne
          simp [hne]
    rw [ih, hfirst, or_assoc]
    refine or_congr_right ⟨?_, ?_⟩
    · rintro (⟨hi, hmakes⟩ | ⟨before, e', after, rfl, hi, hmakes⟩)
      · exact ⟨[], e, events, rfl, hi, hmakes⟩
      · exact ⟨e :: before, e', after, rfl, hi, hmakes⟩
    · rintro ⟨before, e', after, hevents, hi, hmakes⟩
      cases before with
      | nil =>
        obtain ⟨rfl, rfl⟩ := List.cons.inj hevents
        exact .inl ⟨hi, hmakes⟩
      | cons first before =>
        obtain ⟨rfl, rfl⟩ := List.cons.inj hevents
        exact .inr ⟨before, e', after, rfl, hi, hmakes⟩

/-- The nodes of a walk are those that its events made, in their order. -/
theorem getElem?_ofWalk (laravel : Bool) (a : Arena) (w : Walk) {i : Nat} {node : TaintNode} :
    (ofWalk laravel a w).nodes[i]? = some node ↔
      ∃ before e after, w.events.toList = before ++ e :: after ∧
        i = (replay laravel a {} before).nodes.size ∧
        Makes laravel a (replay laravel a {} before) e node := by
  rw [ofWalk_eq, getElem?_replay]
  simp

end Provenance

end QueryTaint
