import QueryTaint.Json.Basic
import QueryTaint.Taint.Finding
import QueryTaint.Text.Utf8

/-!
# Reports

A report lists the files that were scanned and, for every finding, the code of its source, its sink
and what lies between them. Results are ordered by where their sinks and sources are.
-/

namespace QueryTaint

/-- A line, counted from one, and a byte offset. -/
structure Mark where
  line : Nat
  offset : Nat
deriving DecidableEq, Repr, Inhabited

/-- A piece of code and where it stands. -/
structure CodeNode where
  content : String
  start : Mark
  stop : Mark
  path : String
deriving DecidableEq, Repr, Inhabited

/-- The code at a span of a file. -/
def CodeNode.ofSpan (content path : String) (span : Span) : CodeNode :=
  ⟨content, ⟨span.startLine, span.startPos⟩, ⟨span.endLine, span.endPos⟩, path⟩

/-- A result: where it is, the code on the way from source to sink, and a message. -/
structure Result where
  start : Mark
  stop : Mark
  path : String
  nodes : List CodeNode
  source : CodeNode
  sink : CodeNode
  message : String
deriving DecidableEq, Repr, Inhabited

/-- The message of every result. -/
def Result.standardMessage : String := "SQLi vulnerability"

/-- The result of a flow; it is where the sink is. -/
def Result.ofFlow (source sink : CodeNode) (between : List CodeNode) : Result where
  start := sink.start
  stop := sink.stop
  path := sink.path
  nodes := source :: between ++ [sink]
  source
  sink
  message := standardMessage

/-- The files that were scanned and the results. -/
structure Report where
  scanned : List String
  results : List Result
deriving DecidableEq, Repr, Inhabited

/-! ## Order -/

/-- Marks are ordered by line and then by offset. -/
def Mark.order (a b : Mark) : Ordering :=
  (compare a.line b.line).then (compare a.offset b.offset)

/-- Results are ordered by file, place of the sink, and place of the source. -/
def Result.order (a b : Result) : Ordering :=
  (compare a.path b.path).then <| (a.start.order b.start).then <| (a.stop.order b.stop).then <|
    (compare a.source.path b.source.path).then (a.source.start.order b.source.start)

namespace Report

/-- The report with its results in order; results at the same places stay as they are. -/
def sorted (r : Report) : Report :=
  { r with results := r.results.mergeSort fun a b => (a.order b).isLE }

/-! ## Findings -/

/-- The last of several files at a path. -/
def fileAt? (files : List (String × ByteArray)) (path : String) : Option ByteArray :=
  (files.filter (·.1 == path)).getLast?.map (·.2)

/-- The text at a span of a file, with replacement characters for what is no text; nothing if
there is no such file. -/
def snippet (bytes : Option ByteArray) (span : Span) : String :=
  match bytes with
  | some bytes => Utf8.decodeLossy (span.sliceBytes bytes)
  | none => ""

/-- The code of an operation. -/
def nodeOf (a : Arena) (files : List (String × ByteArray)) (op : OpId) : CodeNode :=
  let o := a.op op
  let path := o.file.getD ""
  .ofSpan (snippet (fileAt? files path) o.span) path o.span

/-- The result of a finding. -/
def resultOf (a : Arena) (files : List (String × ByteArray)) (f : Finding) : Result :=
  .ofFlow (nodeOf a files f.source) (nodeOf a files f.sink)
    ((f.intermediates a).map (nodeOf a files))

/-- The report of findings. -/
def ofFindings (a : Arena) (files : List (String × ByteArray)) (scanned : List String)
    (findings : List Finding) : Report :=
  sorted ⟨scanned, findings.map (resultOf a files)⟩

end Report

end QueryTaint

/-!
# Reports as JSON

The JSON form of reports. Reading ignores fields that it does not know, and needs all that it does.
-/

namespace QueryTaint

namespace Mark

/-- The JSON form of a mark. -/
def toJson (m : Mark) : Json := .object [("line", .int m.line), ("offset", .int m.offset)]

/-- Reads a mark. -/
def ofJson? (j : Json) : Option Mark := do
  match ← j.record? ["line", "offset"] with
  | [some line, some offset] => return ⟨← line.nat? (Nat.pow 2 32), ← offset.nat? (Nat.pow 2 64)⟩
  | _ => none

end Mark

namespace CodeNode

/-- The JSON form of a piece of code. -/
def toJson (n : CodeNode) : Json :=
  .object [("content", .string n.content), ("location", .object
    [("start", n.start.toJson), ("end", n.stop.toJson), ("path", .string n.path)])]

/-- Reads a piece of code. -/
def ofJson? (j : Json) : Option CodeNode := do
  match ← j.record? ["content", "location"] with
  | [some content, some location] =>
    match ← location.record? ["start", "end", "path"] with
    | [some start, some stop, some path] =>
      return ⟨← content.string?, ← Mark.ofJson? start, ← Mark.ofJson? stop, ← path.string?⟩
    | _ => none
  | _ => none

end CodeNode

namespace Result

/-- The JSON form of a result. -/
def toJson (r : Result) : Json :=
  .object [("start", r.start.toJson), ("end", r.stop.toJson), ("path", .string r.path),
    ("extra", .object [
      ("dataflow_trace", .object [
        ("intermediate_vars", .array (r.nodes.map CodeNode.toJson)),
        ("taint_source", r.source.toJson),
        ("taint_sink", r.sink.toJson)]),
      ("message", .string r.message)])]

/-- Reads the nodes, the source and the sink of a result. -/
def traceOfJson? (j : Json) : Option (List CodeNode × CodeNode × CodeNode) := do
  match ← j.record? ["intermediate_vars", "taint_source", "taint_sink"] with
  | [some nodes, some source, some sink] =>
    return (← (← nodes.items?).mapM CodeNode.ofJson?, ← CodeNode.ofJson? source,
      ← CodeNode.ofJson? sink)
  | _ => none

/-- Reads a result. -/
def ofJson? (j : Json) : Option Result := do
  match ← j.record? ["start", "end", "path", "extra"] with
  | [some start, some stop, some path, some extra] =>
    match ← extra.record? ["dataflow_trace", "message"] with
    | [some trace, some message] =>
      let (nodes, source, sink) ← traceOfJson? trace
      return ⟨← Mark.ofJson? start, ← Mark.ofJson? stop, ← path.string?, nodes, source, sink,
        ← message.string?⟩
    | _ => none
  | _ => none

end Result

namespace Report

/-- The JSON form of a report. -/
def toJson (r : Report) : Json :=
  .object [("paths", .object [("scanned", .array (r.scanned.map Json.string))]),
    ("results", .array (r.results.map Result.toJson))]

/-- Reads a report. -/
def ofJson? (j : Json) : Option Report := do
  match ← j.record? ["paths", "results"] with
  | [some paths, some results] =>
    match ← paths.record? ["scanned"] with
    | [some scanned] =>
      return ⟨← (← scanned.items?).mapM Json.string?, ← (← results.items?).mapM Result.ofJson?⟩
    | _ => none
  | _ => none

/-- The text of a report. -/
def text (r : Report) : String := r.toJson.text

/-- Reads the text of a report. -/
def read? (text : String) : Option Report := do ofJson? (← Json.read? text)

end Report

end QueryTaint
