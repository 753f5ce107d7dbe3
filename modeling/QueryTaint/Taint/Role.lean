import QueryTaint.Ir.Arena
import QueryTaint.Scalar.Basic
import QueryTaint.Taint.NamePattern

/-!
# What operations do to tainted data

The functions and methods that bring request data in, make it harmless, or send it to a database,
by the last parts of their names in lower case.
-/

namespace QueryTaint

/-- The arguments of a call that reach the database. -/
inductive SinkArgs where
  | all
  | only (index : Nat)
deriving DecidableEq, Repr, Inhabited

/-- Whether an argument reaches the database. -/
def SinkArgs.selects : SinkArgs → Nat → Bool
  | all, _ => true
  | only i, j => i = j

/-- What an operation does: it brings data in, its result is harmless whatever it reads, tainted
arguments of it are findings, its result carries no text, or its result is tainted if something it
reads is. -/
inductive Role where
  | source
  | sanitizer
  | sink (args : SinkArgs)
  | inert
  | propagate
deriving DecidableEq, Repr, Inhabited

/-- The word for a role, with the position of a single argument. -/
def Role.word : Role → String
  | source => "source"
  | sanitizer => "sanitizer"
  | sink .all => "sink"
  | sink (.only i) => "sink:" ++ toString i
  | inert => "inert"
  | propagate => "propagate"

namespace Taxonomy

/-! ## Names -/

/-- Functions that return request data. -/
def sourceFunctions : List String := ["apache_request_headers", "getallheaders"]

/-- Methods that register a route. -/
def routeMethods : List String := ["get", "post", "put", "patch", "delete"]

/-- Filters whose output is numeric. -/
def numericFilters : List String := ["filter_sanitize_number_int", "filter_sanitize_number_float"]

/-- Filters that refuse what is not numeric. -/
def validatingFilters : List String := ["filter_validate_int", "filter_validate_float"]

/-- Functions that escape text, or whose result is a number or a digest. -/
def sanitizerFunctions : List String :=
  ["mysql_real_escape_string", "mysql_escape_string", "mysqli_real_escape_string",
    "pg_escape_string", "pg_escape_literal", "pg_escape_identifier",
    "intval", "floatval", "boolval", "doubleval",
    "count_chars", "crc32", "sizeof", "count", "strlen", "strpos", "stripos", "strrpos",
    "strripos", "ord", "substr_count", "bindec", "strspn", "hexdec",
    "bin2hex", "hash", "metaphone", "hash_hmac", "gzdeflate", "soundex", "zlib_encode",
    "base64_encode", "md5", "gzcompress", "mhash", "password_hash", "crypt", "gzencode"]

/-- Methods that escape text. -/
def sanitizerMethods : List String := ["escape_string", "real_escape_string", "quote"]

/-- The only pattern that checks for digits. -/
def digitsPattern : String := "/^[0-9]*$/"

/-- Functions all of whose arguments reach the database. -/
def sinkFunctions : List String :=
  ["mysql_query", "mysql_db_query", "mysqli_query", "mysqli_multi_query", "mysqli_real_query",
    "mysqli_execute", "mysqli_execute_query", "mysqli_prepare", "pg_query", "pg_send_query",
    "pg_prepare", "pg_send_prepare"]

/-- Functions whose second argument reaches the database. -/
def paramSinkFunctions : List String := ["pg_query_params", "pg_send_query_params"]

/-- Methods all of whose arguments reach the database. -/
def sinkMethods : List String :=
  ["query", "direct_query", "multi_query", "real_query", "prepare", "raw", "selectraw",
    "whereraw", "orwhereraw", "havingraw", "orhavingraw", "orderbyraw", "groupbyraw"]

/-- Methods whose first argument reaches the database. -/
def firstSinkMethods : List String :=
  ["execute_query", "select", "where", "orwhere", "having", "orderby", "groupby"]

/-- The names of further methods that query a database. -/
def queryMethod : String := "query$"

/-- The names of classes that register routes. -/
def routeClass : String := "^route"

end Taxonomy

namespace Arena

/-- The string that an operand is known to hold. -/
def literalString? (a : Arena) (id : OperandId) : Option String :=
  match a.literalOf? id with
  | some (.string s) => some s
  | _ => none

/-- The last part of the name that an operand holds, in lower case. -/
def calleeName? (a : Arena) (id : OperandId) : Option String :=
  (a.literalString? id).map leafName

/-- Whether an operand holds one of some names. -/
def isNamedIn (a : Arena) (names : List String) (id : OperandId) : Bool :=
  match a.calleeName? id with
  | some name => name ∈ names
  | none => false

/-- The operation that wrote an operand. -/
def definition? (a : Arena) (id : OperandId) : Option OpKind :=
  (a.operand id).defs.head?.map fun op => (a.op op).kind

/-- Whether an operand is one of some constants. -/
def isConstantIn (a : Arena) (names : List String) (id : OperandId) : Bool :=
  match a.definition? id with
  | some (.constFetch name _) => a.isNamedIn names name
  | _ => false

/-- Whether a filter is numeric, or an array with a numeric one. -/
def isNumericFilter (a : Arena) (filter : Option OperandId) : Bool :=
  match filter with
  | none => false
  | some filter =>
    a.isConstantIn Taxonomy.numericFilters filter ||
      match a.definition? filter with
      | some (.array _ values _ _) => values.any (a.isConstantIn Taxonomy.numericFilters)
      | _ => false

end Arena

/-- Whether the result of an operation is a number, a truth value or nothing. -/
def OpKind.isInert : OpKind → Bool
  | .binary op .. => !(op = .concat || op = .coalesce)
  | .unary op .. => op ≠ .clone
  | .isset .. | .instanceOf .. | .echo _ | .reset _ | .iterValid .. | .next _ => true
  | kind => kind.isTerminator

namespace Taxonomy

/-! ## Roles -/

/-- Whether a call returns request data. A filter that makes it numeric decides for some. -/
def sourceCall (a : Arena) (name : OperandId) (args : List OperandId) : Option Bool :=
  match a.calleeName? name with
  | some "filter_input" => some !(a.isNumericFilter args[2]?)
  | some "filter_input_array" => some !(a.isNumericFilter args[1]?)
  | some callee => if callee ∈ sourceFunctions then some true else none
  | none => none

/-- Whether a call registers a route. -/
def routeCall (a : Arena) (cls name : OperandId) : Bool :=
  ((a.calleeName? cls).map (matchesName routeClass)).getD false && a.isNamedIn routeMethods name

/-- Whether the form of an operation decides that it is a source or that it is none; `laravel`
says that route registrations are sources. -/
def decidedSource? (laravel : Bool) (a : Arena) : OpKind → Option Bool
  | .element var _ _ => if a.isSymbolic var then some true else none
  | .assign _ expr _ => if a.isSymbolic expr then some true else none
  | .functionCall name args _ => sourceCall a name args
  | .staticCall cls name _ _ => if laravel && routeCall a cls name then some true else none
  | _ => none

/-- Whether an operation brings request data in. Any operation with a result does that reads an
input directly and is not inert. -/
def isSource (laravel : Bool) (a : Arena) (kind : OpKind) : Bool :=
  match decidedSource? laravel a kind with
  | some answer => answer
  | none => kind.result?.isSome && !kind.isInert && kind.reads.any a.isSymbolic

/-- Whether a function makes its result harmless; for some this depends on arguments. -/
def sanitizerCall (a : Arena) (callee : String) (args : List OperandId) : Bool :=
  if callee ∈ sanitizerFunctions then true
  else
    match callee with
    | "preg_match" => (args.head?.bind a.literalString?) == some digitsPattern
    | "sha1" =>
      match args[1]?.bind a.literalOf? with
      | some (.bool true) => false
      | _ => true
    | "str_word_count" =>
      match args[1]? with
      | none => true
      | some format =>
        match a.literalOf? format with
        | some (.number n) => n == 0.0
        | _ => false
    | "filter_var" =>
      match args[1]? with
      | some filter => a.isConstantIn (numericFilters ++ validatingFilters) filter
      | none => false
    | _ => false

/-- Whether the result of an operation is harmless whatever it reads. -/
def isSanitizer (a : Arena) : OpKind → Bool
  | .functionCall name args _ =>
    match a.calleeName? name with
    | some callee => sanitizerCall a callee args
    | none => false
  | .methodCall _ name .. | .staticCall _ name .. => a.isNamedIn sanitizerMethods name
  | .cast kind .. => kind = .bool || kind = .int || kind = .double || kind = .unset
  | .unset .. => true
  | .assertion _ assertion _ => a.excludesStrings assertion
  | _ => false

/-- The arguments of an operation that reach the database. -/
def sinkArgs? (a : Arena) : OpKind → Option SinkArgs
  | .functionCall name _ _ => do
    let callee ← a.calleeName? name
    if callee ∈ sinkFunctions then some .all
    else if callee ∈ paramSinkFunctions then some (.only 1)
    else none
  | .methodCall _ name .. | .staticCall _ name .. => do
    let method ← a.calleeName? name
    if method ∈ sinkMethods then some .all
    else if method ∈ firstSinkMethods then some (.only 0)
    else if matchesName queryMethod method then some .all
    else none
  | _ => none

/-- The role of an operation; the first that fits counts. -/
def classify (laravel : Bool) (a : Arena) (kind : OpKind) : Role :=
  if isSource laravel a kind then .source
  else if isSanitizer a kind then .sanitizer
  else
    match sinkArgs? a kind with
    | some args => .sink args
    | none => if kind.isInert then .inert else .propagate

/-- Whether a function reads a request array or calls a source. -/
def readsInput (laravel : Bool) (a : Arena) (func : FuncId) : Bool :=
  (a.func func).readsInput ||
    (a.func func).calls.any fun call => isSource laravel a (a.op call).kind

end Taxonomy

end QueryTaint
