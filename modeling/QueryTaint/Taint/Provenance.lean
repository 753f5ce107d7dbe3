import QueryTaint.Number.Binary64
import QueryTaint.Taint.Role
import QueryTaint.Walk.Basic

/-!
# Where tainted data comes from

A walk is replayed into a graph with one node for every operation that produced tainted data or
received it at a sink. A node knows the nodes that it took data from, all of them older than itself.
The replay follows the walk, so a variable that is given a harmless value is no longer tainted.
-/

namespace QueryTaint

/-! ## Elements of array literals -/

/-- A key of an array as it is stored. -/
inductive ArrayKey where
  | int (n : Int)
  | text (s : String)
deriving DecidableEq, Repr, Inhabited

namespace ArrayKey

/-- The largest integer key. -/
def maxInt : Int := (Nat.pow 2 63 : Nat) - 1

/-- The integer that a text is the usual spelling of. -/
def integer? (s : String) : Option Int :=
  let (negative, digits) := match s.toList with
    | '-' :: digits => (true, digits)
    | digits => (false, digits)
  if digits.isEmpty || !digits.all Char.isDigit then none
  else
    let magnitude := digits.foldl (fun n c => n * 10 + (c.toNat - '0'.toNat)) 0
    let n : Int := if negative then -magnitude else magnitude
    if toString n == s && -maxInt - 1 ≤ n && n ≤ maxInt then some n else none

/-- The key that a scalar is stored under: numbers lose their fractions, truth values are zero and
one, and a text that spells an integer is that integer. -/
def ofScalar? : Scalar Float → Option ArrayKey
  | .number n => (Binary64.truncate? n).map fun i => int (Binary64.clampInt64 i).toInt
  | .bool b => some (int (if b then 1 else 0))
  | .string s => some (match integer? s with
    | some n => int n
    | none => text s)
  | .null => none

/-- The smallest integer that a further item without a key may get. -/
def next (index : Int) : ArrayKey → Int
  | int i => max index (min (i + 1) maxInt)
  | text _ => index

end ArrayKey

namespace Arena

/-- The key that a known operand is stored under. -/
def arrayKey? (a : Arena) (id : OperandId) : Option ArrayKey :=
  (a.literalOf? id).bind ArrayKey.ofScalar?

/-- The last item with a key, none if some key is not known. An item without a key gets the next
integer. -/
def itemAt (a : Arena) (wanted : ArrayKey) (index : Int) (found : Option OperandId) :
    List (OperandId × OperandId) → Option (Option OperandId)
  | [] => some found
  | (key, value) :: rest => do
    let key ← match (a.operand key).kind with
      | .scalar .null => some (ArrayKey.int index)
      | _ => a.arrayKey? key
    a.itemAt wanted (key.next index) (if key = wanted then some value else found) rest

/-- The item that a known index selects in an array literal: none in it if the key is missing, and
no answer at all if it cannot be known. -/
def literalElement? (a : Arena) (array dim : OperandId) : Option (Option OperandId) :=
  match a.definition? array with
  | some (.array keys values _ _) => do
    a.itemAt (← a.arrayKey? dim) 0 none (keys.zip values)
  | _ => none

end Arena

/-! ## The graph -/

/-- What a node of the graph is. -/
inductive NodeRole where
  | source | flow | sink
deriving DecidableEq, Repr, Inhabited

/-- The word for what a node is. -/
def NodeRole.word : NodeRole → String
  | source => "Source"
  | flow => "Flow"
  | sink => "Sink"

/-- A node: its operation, what it is, and the older nodes that it took data from. -/
structure TaintNode where
  op : OpId
  role : NodeRole
  producers : List Nat
deriving DecidableEq, Repr, Inhabited

/-- The nodes made so far, the newest node that tainted each operand, and the nodes of sinks. -/
structure Provenance where
  nodes : Array TaintNode := #[]
  tainted : Std.TreeMap OperandId Nat := {}
  sinks : Array Nat := #[]
deriving Inhabited

namespace Provenance

/-- The nodes that tainted some operands, each once. -/
def producersOf (p : Provenance) (ids : List OperandId) : List Nat :=
  (ids.filterMap fun id => p.tainted.get? id).foldl addNew []

/-- Makes a node. -/
def addNode (p : Provenance) (node : TaintNode) : Provenance :=
  { p with nodes := p.nodes.push node }

/-- Makes operands tainted by the newest node. -/
def taintAll (p : Provenance) (ids : List OperandId) : Provenance :=
  { p with tainted := ids.foldl (fun t id => t.insert id (p.nodes.size - 1)) p.tainted }

/-- Makes operands harmless. -/
def clearAll (p : Provenance) (ids : List OperandId) : Provenance :=
  { p with tainted := ids.foldl (fun t id => t.erase id) p.tainted }

/-- The edges of the graph, from nodes to what they took data from. -/
def edges (p : Provenance) : List (Nat × Nat) :=
  p.nodes.toList.zipIdx.flatMap fun (node, i) => node.producers.map fun j => (i, j)

end Provenance

/-- The operands that an operation takes data from, and those that it writes. A tainted index alone
does not taint an element, and taking a query string apart writes an argument. -/
def Arena.flow (a : Arena) (kind : OpKind) : List OperandId × List OperandId :=
  match kind with
  | .assign var expr result | .assignRef var expr result => ([expr], [var, result])
  | .element var dim result =>
    match dim.bind (a.literalElement? var) with
    | some item => (item.toList, [result])
    | none => ([var], [result])
  | .unset _ results => ([], results)
  | .functionCall name (query :: target :: rest) result =>
    if a.calleeName? name = some "parse_str" then ([query], [target, result])
    else (name :: query :: target :: rest, [result])
  | kind => (kind.reads, (kind.slots.filter fun (slot, _) => kind.writes slot).map (·.2))

/-- The arguments of a sink that reach the database. -/
def sinkInputs (kind : OpKind) (selected : SinkArgs) : List OperandId :=
  ((kind.operandList .args).zipIdx.filter fun (_, i) => selected.selects i).map (·.1)

namespace Provenance

/-- Runs an operation. -/
def step (laravel : Bool) (a : Arena) (p : Provenance) (op : OpId) : Provenance :=
  let kind := (a.op op).kind
  let (inputs, outputs) := a.flow kind
  match Taxonomy.classify laravel a kind with
  | .source => (p.addNode ⟨op, .source, []⟩).taintAll outputs
  | .sanitizer | .inert => p.clearAll outputs
  | .sink selected =>
    let producers := p.producersOf (sinkInputs kind selected)
    let p := if producers.isEmpty then p
      else { p.addNode ⟨op, .sink, producers⟩ with sinks := p.sinks.push p.nodes.size }
    p.clearAll outputs
  | .propagate =>
    let producers := p.producersOf inputs
    if producers.isEmpty then p.clearAll outputs
    else (p.addNode ⟨op, .flow, producers⟩).taintAll outputs

/-- Lets a value flow into an operand. One that flows through an operation has a node there. -/
def bind (p : Provenance) (via : Option OpId) (target : OperandId) (source : Option OperandId) :
    Provenance :=
  match source.bind fun id => p.tainted.get? id, via with
  | some producer, some op => (p.addNode ⟨op, .flow, [producer]⟩).taintAll [target]
  | some producer, none => { p with tainted := p.tainted.insert target producer }
  | none, _ => p.clearAll [target]

/-- Takes an event of a walk into account. -/
def event (laravel : Bool) (a : Arena) (p : Provenance) : Event → Provenance
  | .op id => p.step laravel a id
  | .bind via target source => p.bind via target source

/-- The graph of a walk. -/
def ofWalk (laravel : Bool) (a : Arena) (w : Walk) : Provenance :=
  w.events.foldl (event laravel a) {}

end Provenance

end QueryTaint
