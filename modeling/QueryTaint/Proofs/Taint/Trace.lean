import Mathlib.Algebra.GroupWithZero.Nat
import Mathlib.Algebra.Order.BigOperators.Group.List
import Mathlib.Algebra.Order.Group.Nat
import QueryTaint.Proofs.Taint.Graph

/-!
# What is listed for a sink

Following a node back is going through its ways to sources in depth-first order (`waysBack`) and
offering the trace of each to a list that takes it if it is new and the limit allows
(`Provenance.follow_eq`). So the traces of a walk are, sink by sink, the first new ones
(`Provenance.traces_eq`).

The ways are given as lists of nodes. They are exactly those that `LeadsBack` allows, and where two of
them part the earlier one goes on to an earlier producer (`Provenance.Precedes`), which leaves one
order only.

Following is a recursion over producers. A loop that keeps the nodes of the current way on a stack,
each with the number of producers it has gone on to, lists the same (`Provenance.search?_eq`): a turn
of the loop keeps what the stack has yet to list (`finish`), and leaves fewer turns to come.
-/

namespace QueryTaint

namespace Provenance

variable {p : Provenance} {laravel : Bool} {a : Arena}

/-! ## Ways in order -/

/-- The ways from a node back to sources, in depth-first order. -/
def waysBack (p : Provenance) (i : Nat) : List (List Nat) :=
  match p.nodes[i]? with
  | none => []
  | some node =>
    if node.role = .source then [[i]]
    else node.producers.flatMap fun j => if _h : j < i then (p.waysBack j).map (i :: ·) else []
termination_by i

/-- A way comes before another one if it goes on to an earlier producer where they part. -/
def Precedes (p : Provenance) (v w : List Nat) : Prop :=
  ∃ (stem : List Nat) (i j k : Nat) (v' w' : List Nat) (node : TaintNode),
    p.nodes[i]? = some node ∧ [j, k].Sublist node.producers ∧
      v = stem ++ i :: j :: v' ∧ w = stem ++ i :: k :: w'

/-- The operations on a way, the source first. -/
def traceOf (p : Provenance) (way : List Nat) : List OpId :=
  (way.map fun i => (p.nodes.getD i default).op).reverse

/-- What is listed for a sink after some traces: those of its ways that are new, each once, up to a
limit. -/
def newTraces (p : Provenance) (limit : Nat) (found : List (List OpId)) (sink : Nat) :
    List (List OpId) :=
  ((((p.waysBack sink).map p.traceOf).filter fun trace => !found.contains trace).eraseDups).take
    limit

theorem waysBack_source {i : Nat} {node : TaintNode} (hnode : p.nodes[i]? = some node)
    (hrole : node.role = .source) : p.waysBack i = [[i]] := by
  rw [waysBack, hnode]
  exact if_pos hrole

/-- Ways from a node that is no source go on from one of its producers. -/
theorem Grounded.waysBack_producers (h : Grounded laravel a p) {i : Nat} {node : TaintNode}
    (hnode : p.nodes[i]? = some node) (hrole : node.role ≠ .source) :
    p.waysBack i = node.producers.flatMap fun j => (p.waysBack j).map (i :: ·) := by
  rw [waysBack, hnode]
  dsimp only
  rw [if_neg hrole]
  refine List.flatMap_congr fun j hj => ?_
  rw [dif_pos (h.older i node hnode j hj)]

/-- The ways that are gone through are all ways to sources. -/
theorem Grounded.mem_waysBack (h : Grounded laravel a p) {i : Nat} {way : List Nat} :
    way ∈ p.waysBack i ↔ p.LeadsBack i way := by
  induction i using Nat.strongRecOn generalizing way with
  | ind i ih =>
    cases hnode : p.nodes[i]? with
    | none =>
      rw [waysBack, hnode]
      refine iff_of_false List.not_mem_nil fun hway => ?_
      cases hway <;> simp_all
    | some node =>
      by_cases hrole : node.role = .source
      · rw [waysBack_source hnode hrole, List.mem_singleton]
        constructor
        · rintro rfl
          exact .source hnode hrole
        · intro hway
          cases hway with
          | source => rfl
          | producer hnode' hj =>
            obtain rfl := Option.some.inj (hnode.symm.trans hnode')
            rw [(h.rooted node (Array.mem_of_getElem? hnode)).2 hrole] at hj
            cases hj
      · rw [h.waysBack_producers hnode hrole]
        simp only [List.mem_flatMap, List.mem_map]
        constructor
        · rintro ⟨j, hj, rest, hrest, rfl⟩
          exact .producer hnode hj ((ih j (h.older i node hnode j hj)).1 hrest)
        · intro hway
          cases hway with
          | source hnode' hrole' =>
            obtain rfl := Option.some.inj (hnode.symm.trans hnode')
            exact absurd hrole' hrole
          | producer hnode' hj hrest =>
            obtain rfl := Option.some.inj (hnode.symm.trans hnode')
            exact ⟨_, hj, _, (ih _ (h.older i node hnode _ hj)).2 hrest, rfl⟩

theorem Precedes.cons {v w : List Nat} (h : p.Precedes v w) (i : Nat) :
    p.Precedes (i :: v) (i :: w) := by
  obtain ⟨stem, i', j, k, v', w', node, hnode, hjk, rfl, rfl⟩ := h
  exact ⟨i :: stem, i', j, k, v', w', node, hnode, hjk, rfl, rfl⟩

/-- The ways are gone through in depth-first order, over producers in their order. -/
theorem Grounded.pairwise_waysBack (h : Grounded laravel a p) (i : Nat) :
    (p.waysBack i).Pairwise p.Precedes := by
  induction i using Nat.strongRecOn with
  | ind i ih =>
    cases hnode : p.nodes[i]? with
    | none =>
      rw [waysBack, hnode]
      exact .nil
    | some node =>
      by_cases hrole : node.role = .source
      · rw [waysBack_source hnode hrole]
        exact List.pairwise_singleton ..
      · rw [h.waysBack_producers hnode hrole, List.pairwise_flatMap]
        constructor
        · intro j hj
          rw [List.pairwise_map]
          exact (ih j (h.older i node hnode j hj)).imp fun hvw => hvw.cons i
        · rw [List.pairwise_iff_forall_sublist]
          intro j k hjk v hv w hw
          obtain ⟨v', hv', rfl⟩ := List.mem_map.1 hv
          obtain ⟨w', hw', rfl⟩ := List.mem_map.1 hw
          obtain ⟨v'', rfl⟩ := List.head?_eq_some_iff.1 (h.mem_waysBack.1 hv').head?_eq
          obtain ⟨w'', rfl⟩ := List.head?_eq_some_iff.1 (h.mem_waysBack.1 hw').head?_eq
          exact ⟨[], i, j, k, v'', w'', node, hnode, hjk, rfl, rfl⟩

/-- No way comes before itself. -/
theorem Grounded.ne_of_precedes (h : Grounded laravel a p) {v w : List Nat}
    (hvw : p.Precedes v w) : v ≠ w := by
  rintro rfl
  obtain ⟨stem, i, j, k, v', w', node, hnode, hjk, rfl, heq⟩ := hvw
  have hjk' : j = k := by
    have htail := List.append_cancel_left heq
    simp only [List.cons.injEq, true_and] at htail
    exact htail.1
  have honce := (h.once node (Array.mem_of_getElem? hnode)).sublist hjk
  simp [hjk'] at honce

/-! ## Offering traces -/

/-- A trace is listed if the limit allows and it is new. -/
def offer (limit : Nat) (t : Traces) (trace : List OpId) : Traces :=
  if limit ≤ t.emitted then t
  else if t.found.contains trace then t
  else ⟨t.found.push trace, t.emitted + 1⟩

theorem foldl_offer_of_le {limit : Nat} {t : Traces} (h : limit ≤ t.emitted)
    (traces : List (List OpId)) : traces.foldl (offer limit) t = t := by
  induction traces with
  | nil => rfl
  | cons trace traces ih =>
    rw [List.foldl_cons, offer, if_pos h]
    exact ih

/-- Of the traces that are offered one after the other the new ones are listed, each once, up to the
limit. -/
theorem found_foldl_offer (limit : Nat) (traces : List (List OpId)) (t : Traces) :
    (traces.foldl (offer limit) t).found.toList = t.found.toList ++
      ((traces.filter fun trace => !t.found.toList.contains trace).eraseDups).take
        (limit - t.emitted) := by
  induction traces generalizing t with
  | nil => simp
  | cons trace traces ih =>
    rw [List.foldl_cons, offer]
    split
    · rename_i hle
      rw [foldl_offer_of_le hle, Nat.sub_eq_zero_of_le hle, List.take_zero, List.append_nil]
    · rename_i hlt
      split
      · rename_i hknown
        have hknown : (!t.found.toList.contains trace) = false := by simpa using hknown
        rw [ih, List.filter_cons, hknown]
        simp
      · rename_i hnew
        have hnew : (!t.found.toList.contains trace) = true := by simpa using hnew
        have hroom : limit - t.emitted = limit - (t.emitted + 1) + 1 := by omega
        rw [ih, List.filter_cons, if_pos hnew, List.eraseDups_cons, hroom, List.take_succ_cons,
          Array.toList_push, List.append_assoc, List.singleton_append, List.filter_filter]
        congr 4
        refine List.filter_congr fun other _ => ?_
        by_cases heq : other = trace <;> simp [heq]

/-! ## Following a node -/

theorem traceOf_cons (p : Provenance) (i : Nat) (way : List Nat) :
    p.traceOf (i :: way) = p.traceOf way ++ [(p.nodes.getD i default).op] := by
  rw [traceOf, List.map_cons, List.reverse_cons, traceOf]

/-- Following a node offers the traces of its ways, in their order. -/
theorem Grounded.follow_eq (h : Grounded laravel a p) (limit : Nat) {i : Nat}
    (hi : i < p.nodes.size) (trail : List OpId) (t : Traces) :
    p.follow limit trail i t =
      ((p.waysBack i).map fun way => p.traceOf way ++ trail).foldl (offer limit) t := by
  induction i using Nat.strongRecOn generalizing trail t with
  | ind i ih =>
    rw [follow]
    by_cases hle : limit ≤ t.emitted
    · rw [if_pos hle, foldl_offer_of_le hle]
    · rw [if_neg hle]
      have hnode : p.nodes[i]? = some p.nodes[i] := Array.getElem?_eq_getElem hi
      have hget : p.nodes.getD i default = p.nodes[i] := by simp [Array.getD, hi]
      have hrooted := h.rooted _ (Array.getElem_mem hi)
      dsimp only
      rw [hget]
      by_cases hrole : p.nodes[i].role = .source
      · have hempty : p.nodes[i].producers.isEmpty = true := List.isEmpty_iff.2 (hrooted.2 hrole)
        rw [if_pos hempty, waysBack_source hnode hrole, hrole]
        simp only [List.map_cons, List.map_nil, List.foldl_cons, List.foldl_nil, offer, hle,
          traceOf, List.reverse_singleton, hget, List.singleton_append, decide_true, Bool.true_and,
          if_false]
        cases t.found.contains (p.nodes[i].op :: trail) <;> rfl
      · have hempty : ¬p.nodes[i].producers.isEmpty = true := fun hnil =>
          hrole (hrooted.1 (List.isEmpty_iff.1 hnil))
        rw [if_neg hempty, h.waysBack_producers hnode hrole, List.map_flatMap, List.foldl_flatMap]
        refine List.foldl_ext _ _ _ fun t j hj => ?_
        have hj := h.older i _ hnode j hj
        rw [dif_pos hj, ih j hj (Nat.lt_trans hj hi), List.map_map]
        refine congrArg (List.foldl _ t) (List.map_congr_left fun way _ => ?_)
        rw [Function.comp_apply, traceOf_cons, hget, List.append_assoc, List.singleton_append]

/-- Sink by sink, the new traces are listed. -/
theorem Grounded.foldl_follow (h : Grounded laravel a p) (limit : Nat) {sinks : List Nat}
    (hsinks : ∀ i ∈ sinks, i < p.nodes.size) (t : Traces) :
    (sinks.foldl (fun t sink => p.follow limit [] sink { t with emitted := 0 }) t).found.toList =
      sinks.foldl (fun found sink => found ++ p.newTraces limit found sink) t.found.toList := by
  induction sinks generalizing t with
  | nil => rfl
  | cons sink sinks ih =>
    rw [List.foldl_cons, List.foldl_cons, ih fun i hi => hsinks i (List.mem_cons_of_mem _ hi),
      h.follow_eq limit (hsinks sink List.mem_cons_self), found_foldl_offer]
    simp only [List.append_nil, Nat.sub_zero, newTraces]

theorem Grounded.sink_lt (h : Grounded laravel a p) {i : Nat} (hi : i ∈ p.sinks) :
    i < p.nodes.size := by
  obtain ⟨node, hnode, -⟩ := (h.sinks i).1 hi
  exact (Array.getElem?_eq_some_iff.1 hnode).1

theorem Grounded.traces_eq (h : Grounded laravel a p) (limit : Nat) :
    p.traces limit = p.sinks.toList.foldl
      (fun found sink => found ++ p.newTraces (max 1 limit) found sink) [] := by
  rw [traces, ← Array.foldl_toList]
  exact h.foldl_follow (max 1 limit) (fun i hi => h.sink_lt (Array.mem_toList_iff.1 hi)) {}

/-! ## Searching with a stack -/

/-- A node on the stack of a search, and how many of its producers were gone to. -/
structure Visit where
  node : Nat
  next : Nat := 0

/-- A search: the nodes on the way that is being followed, the newest first, and the traces found. -/
structure Search where
  stack : List Visit
  traces : Traces

/-- The operations of the nodes on a stack. -/
def trail (p : Provenance) (stack : List Visit) : List OpId :=
  stack.map fun v => (p.nodes.getD v.node default).op

/-- One turn of a search. It is over when enough traces are listed. A node without producers is left,
and if it is a source the operations on the stack are a trace; any other node is left when all its
producers were gone to. -/
def turn (p : Provenance) (limit : Nat) (s : Search) : Search :=
  match s.stack with
  | [] => s
  | v :: below =>
    if limit ≤ s.traces.emitted then ⟨[], s.traces⟩
    else
      let n := p.nodes.getD v.node default
      if n.producers.isEmpty then
        let trace := p.trail s.stack
        if n.role = .source && !s.traces.found.contains trace then
          ⟨below, s.traces.found.push trace, s.traces.emitted + 1⟩
        else ⟨below, s.traces⟩
      else
        match n.producers[v.next]? with
        | some producer => ⟨⟨producer, 0⟩ :: { v with next := v.next + 1 } :: below, s.traces⟩
        | none => ⟨below, s.traces⟩

/-- What following a node back adds once some of its producers were gone to. -/
def resume (p : Provenance) (limit : Nat) (below : List Visit) (v : Visit) (t : Traces) : Traces :=
  if limit ≤ t.emitted then t
  else
    let n := p.nodes.getD v.node default
    let trail := p.trail (v :: below)
    if n.producers.isEmpty then
      if n.role = .source && !t.found.contains trail then ⟨t.found.push trail, t.emitted + 1⟩ else t
    else (n.producers.drop v.next).foldl (fun t producer => p.follow limit trail producer t) t

/-- What is listed when all nodes on a stack have been followed. -/
def finish (p : Provenance) (limit : Nat) : List Visit → Traces → Traces
  | [], t => t
  | v :: below, t => p.finish limit below (p.resume limit below v t)

/-- How many turns it takes to follow a node. -/
def turns (p : Provenance) (node : Nat) : Nat :=
  1 + ((p.nodes.getD node default).producers.map fun producer =>
    if _h : producer < node then 1 + p.turns producer else 0).sum
termination_by node

/-- How many turns are left for the nodes on a stack. -/
def turnsLeft (p : Provenance) (stack : List Visit) : Nat :=
  (stack.map fun v => 1 + (((p.nodes.getD v.node default).producers.drop v.next).map
    fun producer => 1 + p.turns producer).sum).sum

/-- The traces of all sinks, each looked for in a number of turns; none if they are too few. -/
def search? (p : Provenance) (limit n : Nat) : Option (List (List OpId)) := do
  let t ← p.sinks.toList.foldlM (fun (t : Traces) sink =>
    let s := (p.turn limit)^[n] ⟨[⟨sink, 0⟩], { t with emitted := 0 }⟩
    if s.stack.isEmpty then some s.traces else none) {}
  return t.found.toList

theorem Grounded.older_getD (h : Grounded laravel a p) {i j : Nat}
    (hj : j ∈ (p.nodes.getD i default).producers) : j < i := by
  rw [Array.getD_eq_getD_getElem?] at hj
  cases hnode : p.nodes[i]? with
  | none => rw [hnode] at hj; cases hj
  | some node => exact h.older i node hnode j (by rw [hnode] at hj; exact hj)

theorem follow_of_le {limit : Nat} {t : Traces} (h : limit ≤ t.emitted) (trail : List OpId)
    (node : Nat) : p.follow limit trail node t = t := by
  rw [follow, if_pos h]

theorem resume_of_le {limit : Nat} {t : Traces} (h : limit ≤ t.emitted) (below : List Visit)
    (v : Visit) : p.resume limit below v t = t := if_pos h

theorem finish_of_le {limit : Nat} {t : Traces} (h : limit ≤ t.emitted) (stack : List Visit) :
    p.finish limit stack t = t := by
  induction stack with
  | nil => rfl
  | cons v below ih => rw [finish, resume_of_le h, ih]

theorem foldl_follow_of_le {limit : Nat} {t : Traces} (h : limit ≤ t.emitted) (trail : List OpId)
    (nodes : List Nat) : nodes.foldl (fun t node => p.follow limit trail node t) t = t := by
  induction nodes with
  | nil => rfl
  | cons node nodes ih => rw [List.foldl_cons, follow_of_le h, ih]

/-- A node from which no producer was gone to is still to be followed as a whole. -/
theorem Grounded.resume_zero (h : Grounded laravel a p) (limit node : Nat) (below : List Visit)
    (t : Traces) : p.resume limit below ⟨node, 0⟩ t = p.follow limit (p.trail below) node t := by
  rw [follow, resume]
  refine if_congr Iff.rfl rfl (if_congr Iff.rfl rfl (List.foldl_ext _ _ _ fun t producer hp => ?_))
  rw [dif_pos (h.older_getD hp)]
  rfl

/-- Going on with a node is following the next of its producers and going on with the others. -/
theorem resume_of_producer {limit : Nat} {below : List Visit} {v : Visit} {producer : Nat}
    (hnext : (p.nodes.getD v.node default).producers[v.next]? = some producer) (t : Traces) :
    p.resume limit below v t = p.resume limit below { v with next := v.next + 1 }
      (p.follow limit (p.trail (v :: below)) producer t) := by
  by_cases hle : limit ≤ t.emitted
  · rw [resume_of_le hle, follow_of_le hle, resume_of_le hle]
  · have hne : (p.nodes.getD v.node default).producers.isEmpty ≠ true := fun hnil => by
      rw [List.isEmpty_iff.1 hnil] at hnext
      cases hnext
    obtain ⟨hlt, rfl⟩ := List.getElem?_eq_some_iff.1 hnext
    simp only [resume, if_neg hle, if_neg hne, List.drop_eq_getElem_cons hlt, List.foldl_cons]
    split
    · rename_i hle'
      exact foldl_follow_of_le hle' _ _
    · rfl

/-- A node is left when there is no producer to go to. -/
theorem resume_of_none {limit : Nat} {below : List Visit} {v : Visit}
    (hproducers : (p.nodes.getD v.node default).producers.isEmpty ≠ true)
    (hnext : (p.nodes.getD v.node default).producers[v.next]? = none) (t : Traces) :
    p.resume limit below v t = t := by
  rw [resume]
  dsimp only
  rw [if_neg hproducers, List.drop_of_length_le (List.getElem?_eq_none_iff.1 hnext), List.foldl_nil,
    ite_self]

/-- A turn keeps what will be listed. -/
theorem Grounded.finish_turn (h : Grounded laravel a p) (limit : Nat) (s : Search) :
    p.finish limit (p.turn limit s).stack (p.turn limit s).traces = p.finish limit s.stack s.traces := by
  obtain ⟨_ | ⟨v, below⟩, t⟩ := s
  · rfl
  · rw [turn]
    dsimp only
    by_cases hle : limit ≤ t.emitted
    · rw [if_pos hle]
      exact (finish_of_le hle (v :: below)).symm
    · rw [if_neg hle]
      by_cases hleaf : (p.nodes.getD v.node default).producers.isEmpty = true
      · rw [if_pos hleaf, finish, resume, if_neg hle, if_pos hleaf]
        split <;> rfl
      · rw [if_neg hleaf]
        cases hnext : (p.nodes.getD v.node default).producers[v.next]? with
        | none => rw [finish, resume_of_none hleaf hnext]
        | some producer => rw [finish, finish, h.resume_zero, finish, resume_of_producer hnext]; rfl

theorem turnsLeft_cons (p : Provenance) (v : Visit) (below : List Visit) :
    p.turnsLeft (v :: below) = 1 + (((p.nodes.getD v.node default).producers.drop v.next).map
      fun producer => 1 + p.turns producer).sum + p.turnsLeft below := by
  rw [turnsLeft, List.map_cons, List.sum_cons, turnsLeft]

theorem Grounded.turnsLeft_zero (h : Grounded laravel a p) (node : Nat) (below : List Visit) :
    p.turnsLeft (⟨node, 0⟩ :: below) = p.turns node + p.turnsLeft below := by
  rw [turnsLeft_cons, turns, List.drop_zero]
  congr 3
  refine List.map_congr_left fun producer hp => ?_
  rw [dif_pos (h.older_getD hp)]

/-- A turn is one less that is left. -/
theorem Grounded.turnsLeft_turn (h : Grounded laravel a p) (limit : Nat) (s : Search) :
    p.turnsLeft (p.turn limit s).stack ≤ p.turnsLeft s.stack - 1 := by
  obtain ⟨_ | ⟨v, below⟩, t⟩ := s
  · exact Nat.le_refl 0
  · have hleave : p.turnsLeft below ≤ p.turnsLeft (v :: below) - 1 := by
      rw [turnsLeft_cons]
      omega
    rw [turn]
    dsimp only
    split
    · exact Nat.zero_le _
    split
    · split <;> exact hleave
    cases hnext : (p.nodes.getD v.node default).producers[v.next]? with
    | none => exact hleave
    | some producer =>
      obtain ⟨hlt, rfl⟩ := List.getElem?_eq_some_iff.1 hnext
      rw [h.turnsLeft_zero, turnsLeft_cons, turnsLeft_cons, List.drop_eq_getElem_cons hlt,
        List.map_cons, List.sum_cons]
      dsimp only
      omega

/-- After enough turns a search is over. -/
theorem Grounded.turn_iterate (h : Grounded laravel a p) (limit : Nat) {n : Nat} {s : Search}
    (hn : p.turnsLeft s.stack ≤ n) :
    (p.turn limit)^[n] s = ⟨[], p.finish limit s.stack s.traces⟩ := by
  induction n generalizing s with
  | zero =>
    obtain ⟨_ | ⟨v, below⟩, t⟩ := s
    · rfl
    · rw [turnsLeft_cons] at hn
      omega
  | succ n ih =>
    have hturn := h.turnsLeft_turn limit s
    rw [Function.iterate_succ_apply, ih (by omega), h.finish_turn]

/-- The turns that the sinks need together are enough for each of them. -/
theorem Grounded.foldlM_search (h : Grounded laravel a p) (limit : Nat) {n : Nat} {sinks : List Nat}
    (hn : ∀ sink ∈ sinks, p.turns sink ≤ n) (t : Traces) :
    sinks.foldlM (fun (t : Traces) sink =>
        let s := (p.turn limit)^[n] ⟨[⟨sink, 0⟩], { t with emitted := 0 }⟩
        if s.stack.isEmpty then some s.traces else none) t =
      some (sinks.foldl (fun t sink => p.follow limit [] sink { t with emitted := 0 }) t) := by
  induction sinks generalizing t with
  | nil => rfl
  | cons sink sinks ih =>
    have hsink := h.turn_iterate limit (s := ⟨[⟨sink, 0⟩], { t with emitted := 0 }⟩)
      ((h.turnsLeft_zero sink []).trans_le (hn sink List.mem_cons_self))
    rw [List.foldlM_cons, hsink, List.foldl_cons, ← ih fun i hi => hn i (List.mem_cons_of_mem _ hi)]
    rw [finish, finish, h.resume_zero]
    rfl

/-- Searching with a stack lists the traces that following the sinks does. -/
theorem Grounded.search?_eq (h : Grounded laravel a p) (limit : Nat) :
    ∃ turns, ∀ n, turns ≤ n → p.search? (max 1 limit) n = some (p.traces limit) := by
  refine ⟨(p.sinks.toList.map p.turns).sum, fun n hn => ?_⟩
  have hsinks : ∀ sink ∈ p.sinks.toList, p.turns sink ≤ n := fun sink hsink =>
    (List.le_sum_of_mem (List.mem_map_of_mem hsink)).trans hn
  rw [search?, h.foldlM_search (max 1 limit) hsinks, traces, ← Array.foldl_toList]
  rfl

/-! ## Findings -/

theorem mem_newTraces {limit sink : Nat} {found : List (List OpId)} {trace : List OpId}
    (h : trace ∈ p.newTraces limit found sink) : ∃ way ∈ p.waysBack sink, trace = p.traceOf way := by
  have hmem := List.mem_of_mem_take h
  rw [List.mem_eraseDups] at hmem
  obtain ⟨way, hway, rfl⟩ := List.mem_map.1 (List.mem_filter.1 hmem).1
  exact ⟨way, hway, rfl⟩

/-- A trace is that of a way from a sink. -/
theorem Grounded.way_of_mem_traces (h : Grounded laravel a p) {limit : Nat} {trace : List OpId}
    (htrace : trace ∈ p.traces limit) :
    ∃ sink ∈ p.sinks, ∃ way, p.LeadsBack sink way ∧ trace = p.traceOf way := by
  rw [h.traces_eq] at htrace
  have hrun : ∀ (sinks : List Nat) (found : List (List OpId)),
      trace ∈ sinks.foldl (fun found sink => found ++ p.newTraces (max 1 limit) found sink) found →
        trace ∈ found ∨ ∃ sink ∈ sinks, ∃ way ∈ p.waysBack sink, trace = p.traceOf way := by
    intro sinks
    induction sinks with
    | nil => exact fun found hmem => .inl hmem
    | cons sink sinks ih =>
      intro found hmem
      rcases ih _ hmem with hmem | ⟨s, hs, hway⟩
      · rcases List.mem_append.1 hmem with hmem | hmem
        · exact .inl hmem
        · exact .inr ⟨sink, List.mem_cons_self, mem_newTraces hmem⟩
      · exact .inr ⟨s, List.mem_cons_of_mem _ hs, hway⟩
  rcases hrun _ _ htrace with hnil | ⟨sink, hsink, way, hway, heq⟩
  · cases hnil
  · exact ⟨sink, Array.mem_toList_iff.1 hsink, way, h.mem_waysBack.1 hway, heq⟩

/-- A trace begins with the operation of a source. -/
theorem LeadsBack.head?_traceOf {i : Nat} {way : List Nat} (h : p.LeadsBack i way) :
    ∃ (s : Nat) (node : TaintNode), p.nodes[s]? = some node ∧ node.role = .source ∧
      (p.traceOf way).head? = some node.op := by
  obtain ⟨s, node, hlast, hs, hrole⟩ := h.getLast?_eq
  refine ⟨s, node, hs, hrole, ?_⟩
  rw [traceOf, List.head?_reverse, List.getLast?_map, hlast, Option.map_some,
    Array.getD_eq_getD_getElem?, hs, Option.getD_some]

/-- It ends with the operation of the node that is followed back. -/
theorem LeadsBack.getLast?_traceOf {i : Nat} {way : List Nat} (h : p.LeadsBack i way) :
    (p.traceOf way).getLast? = some (p.nodes.getD i default).op := by
  rw [traceOf, List.getLast?_reverse, List.head?_map, h.head?_eq, Option.map_some]

/-- Every trace makes a finding. -/
theorem Grounded.map_trace (h : Grounded laravel a p) (limit : Nat) :
    ((p.traces limit).filterMap Finding.ofTrace?).map (·.trace) = p.traces limit := by
  rw [List.map_filterMap]
  refine (List.filterMap_congr fun trace htrace => ?_).trans List.filterMap_some
  obtain ⟨sink, -, way, hway, rfl⟩ := h.way_of_mem_traces htrace
  obtain ⟨s, node, -, -, hfirst⟩ := hway.head?_traceOf
  rw [Finding.ofTrace?, hfirst, hway.getLast?_traceOf]
  rfl

/-- Traces are exact. For the graph of every walk and every limit, what is listed is, sink by sink in
the order in which they were made, the traces of the ways back to sources in depth-first order over
producers, those left out that are listed already, up to the limit for each sink. The ways are all
ways that the edges allow, in an order that is determined by that of the producers, and these are in
the order of the operands of the event that made the node. A search with a stack comes to an end for
each sink and lists the same. So each finding begins with an operation
that is a source, ends with one that is a sink, and its operations are those of nodes that edges
join. -/
theorem traces_exact (laravel : Bool) (a : Arena) (w : Walk) (limit : Nat) :
    let p := ofWalk laravel a w
    p.traces limit = p.sinks.toList.foldl
        (fun found sink => found ++ p.newTraces (max 1 limit) found sink) [] ∧
      (p.sinks.toList.Pairwise (· < ·) ∧
        ∀ i, i ∈ p.sinks ↔ ∃ node : TaintNode, p.nodes[i]? = some node ∧ node.role = .sink) ∧
      (∀ (i : Nat) (node : TaintNode), p.nodes[i]? = some node ↔
        ∃ before e after, w.events.toList = before ++ e :: after ∧
          i = (replay laravel a {} before).nodes.size ∧
          Makes laravel a (replay laravel a {} before) e node) ∧
      (∀ i, (∀ way, way ∈ p.waysBack i ↔ p.LeadsBack i way) ∧
        (p.waysBack i).Pairwise p.Precedes ∧ (p.waysBack i).Nodup) ∧
      (∃ turns, ∀ n, turns ≤ n → p.search? (max 1 limit) n = some (p.traces limit)) ∧
      ((p.traces limit).filterMap Finding.ofTrace?).map (·.trace) = p.traces limit ∧
      ∀ f ∈ (p.traces limit).filterMap Finding.ofTrace?,
        Taxonomy.classify laravel a (a.op f.source).kind = .source ∧
        (∃ selected, Taxonomy.classify laravel a (a.op f.sink).kind = .sink selected) ∧
        f.trace.head? = some f.source ∧ f.trace.getLast? = some f.sink ∧
        ∃ sink ∈ p.sinks, ∃ way, p.LeadsBack sink way ∧ f.trace = p.traceOf way ∧
          way.IsChain fun i j => (i, j) ∈ p.edges := by
  intro p
  have h : Grounded laravel a p := grounded_ofWalk laravel a w
  refine ⟨h.traces_eq limit, ⟨h.ordered, h.sinks⟩, fun i node => getElem?_ofWalk laravel a w,
    fun i => ⟨fun way => h.mem_waysBack, h.pairwise_waysBack i,
      (h.pairwise_waysBack i).imp h.ne_of_precedes⟩, h.search?_eq limit, h.map_trace limit, ?_⟩
  intro f hf
  obtain ⟨trace, htrace, hfinding⟩ := List.mem_filterMap.1 hf
  obtain ⟨sink, hsink, way, hway, rfl⟩ := h.way_of_mem_traces htrace
  obtain ⟨s, node, hs, hrole, hfirst⟩ := hway.head?_traceOf
  have hend := hway.getLast?_traceOf
  rw [Finding.ofTrace?, hfirst, hend] at hfinding
  obtain rfl := Option.some.inj hfinding
  obtain ⟨last, hlast, hlastRole⟩ := (h.sinks sink).1 hsink
  refine ⟨h.source node (Array.mem_of_getElem? hs) hrole, ?_, hfirst, hend, sink, hsink, way, hway,
    rfl, hway.isChain_edges⟩
  rw [Array.getD_eq_getD_getElem?, hlast, Option.getD_some]
  exact h.sink last (Array.mem_of_getElem? hlast) hlastRole

/-! ### Two values in one query -/

/-- Two values of the request are joined to one text, which is queried by. -/
def joinedQuery : Arena where
  operands := #[{ kind := .symbolic "$_GET" }, { kind := .string "a" }, { kind := .temporary none },
    { kind := .string "b" }, { kind := .temporary none }, { kind := .temporary none },
    { kind := .string "raw" }, { kind := .temporary none }, { kind := .temporary none }]
  ops := #[{ kind := .element ⟨0⟩ (some ⟨1⟩) ⟨2⟩, span := .none },
    { kind := .element ⟨0⟩ (some ⟨3⟩) ⟨4⟩, span := .none },
    { kind := .binary .concat ⟨2⟩ ⟨4⟩ ⟨5⟩, span := .none },
    { kind := .methodCall ⟨7⟩ ⟨6⟩ [⟨5⟩] false ⟨8⟩, span := .none }]

/-- The walk on which all these operations run. -/
def joinedWalk : Walk :=
  { func := ⟨0⟩, invocation := 0, events := #[.op ⟨0⟩, .op ⟨1⟩, .op ⟨2⟩, .op ⟨3⟩] }

/-- There is a finding for each value, and that for the first one comes first. -/
example : TaintOutcome.ofWalk false joinedQuery joinedWalk =
    [⟨⟨0⟩, ⟨3⟩, [⟨0⟩, ⟨2⟩, ⟨3⟩]⟩, ⟨⟨1⟩, ⟨3⟩, [⟨1⟩, ⟨2⟩, ⟨3⟩]⟩] := by cbv

/-- A search for one trace is over before it comes to the second value. -/
example : (ofWalk false joinedQuery joinedWalk).search? 1 4 = some [[⟨0⟩, ⟨2⟩, ⟨3⟩]] := by cbv

end Provenance

/-!
## Which walks have findings

There are findings on a walk just if tainted data reached a sink on it (`Provenance.Reaches`): each
sink of the graph was made by such an event, and can be followed back to a source, so that it has a
trace whatever was made harmless in between.
-/

namespace Provenance

variable {p : Provenance} {laravel : Bool} {a : Arena}

/-- Tainted data reaches a sink: of the arguments that matter to it one is tainted. -/
def Reaches (laravel : Bool) (a : Arena) (p : Provenance) (op : OpId) : Prop :=
  ∃ selected, Taxonomy.classify laravel a (a.op op).kind = .sink selected ∧
    ∃ x ∈ sinkInputs (a.op op).kind selected, (p.tainted.get? x).isSome

/-- What makes the node of a sink is that tainted data reaches one. -/
theorem exists_makes_sink {e : Event} :
    (∃ node, Makes laravel a p e node ∧ node.role = .sink) ↔
      ∃ op, e = .op op ∧ Reaches laravel a p op := by
  constructor
  · rintro ⟨node, hmakes, hrole⟩
    cases hmakes with
    | source | flow | bind => cases hrole
    | sink hop hproducers hne =>
      rw [hproducers, ← producersOf_eq] at hne
      obtain ⟨n, hn⟩ := List.exists_mem_of_ne_nil _ hne
      obtain ⟨x, hx, htainted⟩ := mem_producersOf.1 hn
      exact ⟨_, rfl, _, hop, x, hx, by rw [htainted]; rfl⟩
  · rintro ⟨op, rfl, selected, hop, x, hx, htainted⟩
    obtain ⟨n, hn⟩ := Option.isSome_iff_exists.1 htainted
    refine ⟨_, .sink hop rfl ?_, rfl⟩
    rw [← producersOf_eq]
    exact List.ne_nil_of_mem (mem_producersOf.2 ⟨x, hx, hn⟩)

/-- A graph has a sink if tainted data reached one while the walk was replayed. -/
theorem exists_sink_ofWalk (laravel : Bool) (a : Arena) (w : Walk) :
    (∃ sink, sink ∈ (ofWalk laravel a w).sinks) ↔
      ∃ before op after, w.events.toList = before ++ .op op :: after ∧
        Reaches laravel a (replay laravel a {} before) op := by
  simp only [(grounded_ofWalk laravel a w).sinks, getElem?_ofWalk]
  constructor
  · rintro ⟨sink, node, ⟨before, e, after, hevents, -, hmakes⟩, hrole⟩
    obtain ⟨op, rfl, hreaches⟩ := exists_makes_sink.1 ⟨node, hmakes, hrole⟩
    exact ⟨before, op, after, hevents, hreaches⟩
  · rintro ⟨before, op, after, hevents, hreaches⟩
    obtain ⟨node, hmakes, hrole⟩ := exists_makes_sink.2 ⟨op, rfl, hreaches⟩
    exact ⟨_, node, ⟨before, .op op, after, hevents, rfl, hmakes⟩, hrole⟩

/-- A sink that is followed first gives a trace. -/
theorem Grounded.newTraces_ne_nil (h : Grounded laravel a p) {sink : Nat} (hsink : sink ∈ p.sinks)
    {limit : Nat} (hlimit : 0 < limit) : p.newTraces limit [] sink ≠ [] := by
  obtain ⟨way, hway⟩ := h.exists_leadsBack (h.sink_lt hsink)
  have hmem : p.traceOf way ∈ (((p.waysBack sink).map p.traceOf).filter
      fun trace => !List.contains [] trace).eraseDups := by
    rw [List.mem_eraseDups, List.mem_filter]
    exact ⟨List.mem_map.2 ⟨way, h.mem_waysBack.2 hway, rfl⟩, by simp⟩
  rw [newTraces, Ne, List.take_eq_nil_iff]
  exact not_or.2 ⟨hlimit.ne', List.ne_nil_of_mem hmem⟩

/-- There is a trace if there is a sink. -/
theorem Grounded.traces_ne_nil (h : Grounded laravel a p) (limit : Nat) :
    p.traces limit ≠ [] ↔ ∃ sink, sink ∈ p.sinks := by
  constructor
  · intro hne
    obtain ⟨trace, htrace⟩ := List.exists_mem_of_ne_nil _ hne
    obtain ⟨sink, hsink, -⟩ := h.way_of_mem_traces htrace
    exact ⟨sink, hsink⟩
  · rintro ⟨sink, hsink⟩
    have hkept : ∀ (sinks : List Nat) (found : List (List OpId)), found ≠ [] →
        sinks.foldl (fun found sink => found ++ p.newTraces (max 1 limit) found sink) found ≠ [] := by
      intro sinks
      induction sinks with
      | nil => exact fun found hne => hne
      | cons sink sinks ih =>
        exact fun found hne => ih _ fun hnil => hne (List.append_eq_nil_iff.1 hnil).1
    rw [h.traces_eq]
    cases hsinks : p.sinks.toList with
    | nil =>
      rw [← Array.mem_toList_iff, hsinks] at hsink
      cases hsink
    | cons first rest =>
      have hfirst : first ∈ p.sinks := by
        rw [← Array.mem_toList_iff, hsinks]
        exact List.mem_cons_self
      exact hkept rest _ (h.newTraces_ne_nil hfirst (by omega))

/-- The graph of every walk: edges lead to older nodes, just the nodes of sources have no edges, what
is recorded as tainted was tainted by a node, and there are findings just if tainted data reached a
sink at some moment of the walk. -/
theorem graph_of_walk (laravel : Bool) (a : Arena) (w : Walk) :
    let p := ofWalk laravel a w
    (∀ i j, (i, j) ∈ p.edges → j < i ∧ i < p.nodes.size) ∧
      (∀ (i : Nat) (node : TaintNode), p.nodes[i]? = some node →
        ((∀ j, (i, j) ∉ p.edges) ↔ node.role = .source)) ∧
      (∀ x n, p.tainted.get? x = some n → n < p.nodes.size) ∧
      ∀ limit, (p.traces limit).filterMap Finding.ofTrace? ≠ [] ↔
        ∃ before op after, w.events.toList = before ++ .op op :: after ∧
          Reaches laravel a (replay laravel a {} before) op := by
  intro p
  have h : Grounded laravel a p := grounded_ofWalk laravel a w
  refine ⟨fun i j hij => ?_, fun i node hnode => ?_, h.tainted, fun limit => ?_⟩
  · obtain ⟨node, hnode, hj⟩ := mem_edges.1 hij
    exact ⟨h.older i node hnode j hj, (Array.getElem?_eq_some_iff.1 hnode).1⟩
  · rw [← h.rooted node (Array.mem_of_getElem? hnode), List.eq_nil_iff_forall_not_mem]
    refine forall_congr' fun j => not_congr ?_
    rw [mem_edges]
    constructor
    · rintro ⟨node', hnode', hj⟩
      obtain rfl := Option.some.inj (hnode.symm.trans hnode')
      exact hj
    · exact fun hj => ⟨node, hnode, hj⟩
  · rw [← exists_sink_ofWalk, ← h.traces_ne_nil limit, Ne, Ne, ← List.map_eq_nil_iff (f := (·.trace)),
      h.map_trace]

/-- The query takes data from the joined text, and that from both values. -/
example : (ofWalk false joinedQuery joinedWalk).edges = [(2, 0), (2, 1), (3, 2)] := by cbv

end Provenance

end QueryTaint
