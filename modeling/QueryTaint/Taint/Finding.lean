import QueryTaint.Taint.Provenance

/-!
# Findings

A finding is a way that request data takes to the database. The graph of a walk is followed from
each sink back to the sources, in the order of operands; every way is listed once, and for each
sink only some of them.
-/

namespace QueryTaint

/-- A flow of data from a source to a sink, through the operations in between. -/
structure Finding where
  source : OpId
  sink : OpId
  trace : List OpId
deriving DecidableEq, Repr, Inhabited

namespace Finding

/-- The finding of a trace. -/
def ofTrace? (trace : List OpId) : Option Finding := do
  return ⟨← trace.head?, ← trace.getLast?, trace⟩

/-- Whether an operation in the middle of a trace is worth showing: assignments, calls, and what
crosses the border of a call. -/
def isShown (a : Arena) (op : OpId) : Bool :=
  !(a.op op).span.isSynthetic &&
    match (a.op op).kind with
    | .assign .. | .assignRef .. | .functionCall .. | .methodCall .. | .staticCall .. | .param ..
    | .returns _ => true
    | _ => false

/-- The operations between source and sink that are worth showing. -/
def intermediates (f : Finding) (a : Arena) : List OpId :=
  (f.trace.tail.dropLast).filter (isShown a)

end Finding

/-- The traces found so far, and how many of them are of the current sink. -/
structure Traces where
  found : Array (List OpId) := #[]
  emitted : Nat := 0
deriving Inhabited

namespace Provenance

/-- How many traces are listed for a sink unless another number is given. -/
def defaultMaxTraces : Nat := 64

/-- Follows a node back to its sources; the trail leads from the node to the sink. Nothing is done
once enough traces are listed. The recursion stands for a loop over a stack that holds the nodes of
the trail, each with the number of producers it has gone on to. -/
def follow (p : Provenance) (limit : Nat) (trail : List OpId) (node : Nat) (t : Traces) : Traces :=
  if limit ≤ t.emitted then t
  else
    let n := p.nodes.getD node default
    let trail := n.op :: trail
    if n.producers.isEmpty then
      if n.role = .source && !t.found.contains trail then
        ⟨t.found.push trail, t.emitted + 1⟩
      else t
    else
      n.producers.foldl (fun t producer =>
        if _h : producer < node then p.follow limit trail producer t else t) t
termination_by node

/-- The traces of all sinks, from sources to sinks, at most a number for each sink. -/
def traces (p : Provenance) (limit : Nat) : List (List OpId) :=
  (p.sinks.foldl (fun (t : Traces) sink => p.follow (max 1 limit) [] sink { t with emitted := 0 })
    {}).found.toList

end Provenance

/-- What looking for findings counted: walks, walks with findings, findings, and findings that were
known from another walk. -/
structure TaintStats where
  walks : Nat := 0
  tainted : Nat := 0
  findings : Nat := 0
  duplicates : Nat := 0
deriving DecidableEq, Repr, Inhabited

/-- The findings on walks, each once. -/
structure TaintOutcome where
  findings : Array Finding := #[]
  stats : TaintStats := {}
deriving Inhabited

namespace TaintOutcome

/-- Adds a finding unless it is known. -/
def add (o : TaintOutcome) (f : Finding) : TaintOutcome :=
  if o.findings.contains f then
    { o with stats := { o.stats with duplicates := o.stats.duplicates + 1 } }
  else
    { o with
      findings := o.findings.push f
      stats := { o.stats with findings := o.stats.findings + 1 } }

/-- The findings on a walk. -/
def ofWalk (laravel : Bool) (a : Arena) (w : Walk) : List Finding :=
  ((Provenance.ofWalk laravel a w).traces Provenance.defaultMaxTraces).filterMap Finding.ofTrace?

/-- Adds the findings on a walk. -/
def addWalk (laravel : Bool) (a : Arena) (o : TaintOutcome) (w : Walk) : TaintOutcome :=
  let found := ofWalk laravel a w
  found.foldl add { o with stats := { o.stats with
    walks := o.stats.walks + 1
    tainted := o.stats.tainted + if found.isEmpty then 0 else 1 } }

/-- The findings on walks. -/
def ofWalks (laravel : Bool) (a : Arena) (walks : List Walk) : TaintOutcome :=
  walks.foldl (addWalk laravel a) {}

end TaintOutcome

end QueryTaint
