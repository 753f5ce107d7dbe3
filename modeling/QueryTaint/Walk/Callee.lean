import QueryTaint.Ir.Arena
import QueryTaint.Walk.Basic

/-!
# Whom a call calls

A call is resolved by name among the functions of its own script and of the scripts that this one
includes, directly or through others. Names are compared without regard to case, and a name that is
not found is looked for by its last part.
-/

namespace QueryTaint

/-! ## Visibility -/

/-- How many numbers below a bound are not listed. -/
def unlisted (bound : Nat) (listed : List Nat) : Nat :=
  (List.range bound).countP fun i => !listed.contains i

/-- What is unlisted after listing more was unlisted before. -/
theorem not_contains_of_append {listed : List Nat} {i j : Nat}
    (h : (!(listed ++ [i]).contains j) = true) : (!listed.contains j) = true := by
  rw [Bool.not_eq_true', List.contains_eq_mem, decide_eq_false_iff_not] at h ⊢
  exact fun hj => h (List.mem_append_left _ hj)

/-- Listing a further number below the bound leaves fewer unlisted. -/
theorem unlisted_append_lt {bound i : Nat} {listed : List Nat} (hi : i < bound)
    (hn : i ∉ listed) : unlisted bound (listed ++ [i]) < unlisted bound listed := by
  have key : ∀ l : List Nat, i ∈ l →
      l.countP (fun j => !(listed ++ [i]).contains j) < l.countP fun j => !listed.contains j := by
    intro l
    induction l with
    | nil => exact fun hmem => absurd hmem List.not_mem_nil
    | cons j l ih =>
      intro hmem
      have le : l.countP (fun j => !(listed ++ [i]).contains j)
          ≤ l.countP fun j => !listed.contains j :=
        List.countP_mono_left fun _ _ => not_contains_of_append
      rw [List.countP_cons, List.countP_cons]
      rcases List.mem_cons.1 hmem with hij | hmem
      · have new : (!(listed ++ [i]).contains j) = false := by rw [hij]; simp
        have old : (!listed.contains j) = true := by rw [← hij]; simpa using hn
        rw [new, old, if_neg Bool.false_ne_true, if_pos rfl]
        omega
      · have lt := ih hmem
        cases new : !(listed ++ [i]).contains j with
        | false => rw [if_neg Bool.false_ne_true]; omega
        | true => rw [not_contains_of_append new, if_pos rfl]; omega
  exact key _ (List.mem_range.2 hi)

/-- The numbers that are reached from a queue, in breadth-first order, after those that are listed
already. -/
def reach (bound : Nat) (next : Nat → List Nat) (listed queue : List Nat) : List Nat :=
  match queue with
  | [] => listed
  | i :: rest =>
    if _h : i < bound ∧ i ∉ listed then reach bound next (listed ++ [i]) (rest ++ next i)
    else reach bound next listed rest
termination_by (unlisted bound listed, queue.length)
decreasing_by
  · exact Prod.Lex.left _ _ (unlisted_append_lt _h.1 _h.2)
  · exact Prod.Lex.right _ (by simp)

/-- The last script at a path. -/
def scriptAt? (scripts : List Script) (path : String) : Option Nat :=
  ((scripts.zipIdx.filter fun (s, _) => s.path == path).getLast?).map (·.2)

/-- The scripts that a script includes directly. -/
def includedScripts (scripts : List Script) (i : Nat) : List Nat :=
  match scripts[i]? with
  | some s => s.includes.filterMap (scriptAt? scripts)
  | none => []

/-- The scripts that are searched from a script: itself, and then those it includes. -/
def visibleFrom (scripts : List Script) (i : Nat) : List Nat :=
  reach scripts.length (includedScripts scripts) [] [i]

/-! ## Names -/

/-- A name without separators in front of it. -/
def dropSeparators (name : String) : String := String.ofList (name.toList.dropWhile (· = '\\'))

/-- What follows the last separator of a name. -/
def leafOf (name : String) : String := (name.splitOn "\\").getLast?.getD name

/-- The functions of a script by their names in lower case. Of names that differ only in case the
last one counts. -/
def nameTable (s : Script) : Std.TreeMap String FuncId :=
  s.functions.toList.foldl (fun names (name, func) =>
    names.insert (lowerAscii (dropSeparators name)) func) {}

/-- What is needed to resolve calls: the program, the name tables of its scripts, and the scripts
that are searched from each of them. -/
structure Resolver where
  arena : Arena
  names : Array (Std.TreeMap String FuncId)
  visible : Array (List Nat)
  owners : Std.TreeMap Nat Nat
deriving Inhabited

namespace Resolver

/-- The script that each function belongs to. -/
def ownerTable (scripts : List Script) : Std.TreeMap Nat Nat :=
  scripts.zipIdx.foldl (fun owners (s, i) =>
    s.functions.toList.foldl (fun owners (_, func) => owners.insert func.index i) owners) {}

/-- Prepares resolving calls between scripts. -/
def ofScripts (arena : Arena) (scripts : List Script) : Resolver where
  arena
  names := (scripts.map nameTable).toArray
  visible := ((List.range scripts.length).map (visibleFrom scripts)).toArray
  owners := ownerTable scripts

/-- The scripts that are searched from a script. -/
def visibleOf (r : Resolver) (script : Nat) : List Nat := r.visible.getD script []

/-- The name table of a script. -/
def namesOf (r : Resolver) (script : Nat) : Std.TreeMap String FuncId := r.names.getD script {}

/-- The script that a function belongs to. -/
def scriptOf? (r : Resolver) (func : FuncId) : Option Nat := r.owners.get? func.index

/-- The function of a name in the first script that has one. -/
def lookup? (r : Resolver) (script : Nat) (name : String) : Option FuncId :=
  (r.visibleOf script).findSome? fun i => (r.namesOf i).get? (lowerAscii name)

/-- The function of the least name that fits, in the first script that has one. -/
def search? (r : Resolver) (script : Nat) (fits : String → Bool) : Option FuncId :=
  (r.visibleOf script).findSome? fun i =>
    ((r.namesOf i).toList.find? fun (name, _) => fits name).map (·.2)

/-- The function of a name. -/
def function? (r : Resolver) (script : Nat) (name : String) : Option FuncId :=
  let name := dropSeparators name
  let leaf := lowerAscii (leafOf name)
  (r.lookup? script name).or
    (r.search? script fun key => !key.contains "::" && leafOf key == leaf)

/-- The part of a text before an end that it has. -/
def dropEnd? (text ending : String) : Option String :=
  if text.endsWith ending then
    some (String.ofList (text.toList.take (text.length - ending.length)))
  else none

/-- The method of a name if all visible methods of the name are one. -/
def uniqueMethod? (r : Resolver) (script : Nat) (method : String) : Option FuncId :=
  let found := (r.visibleOf script).flatMap fun i =>
    ((r.namesOf i).toList.filter fun (name, _) => name.endsWith ("::" ++ method)).map (·.2)
  match found with
  | [] => none
  | func :: rest => if rest.all (· = func) then some func else none

/-- The method of a name in a class that may be known. -/
def method? (r : Resolver) (script : Nat) (cls : Option String) (method : String) :
    Option FuncId :=
  let method := lowerAscii method
  let inClass := cls.bind fun cls =>
    let cls := dropSeparators cls
    let leaf := lowerAscii (leafOf cls)
    (r.lookup? script (cls ++ "::" ++ method)).or
      (r.search? script fun key =>
        match dropEnd? key ("::" ++ method) with
        | some owner => leafOf owner == leaf
        | none => false)
  inClass.or (r.uniqueMethod? script method)

/-! ## Calls -/

/-- The longest chain of values that is followed to a closure. -/
def maxChain : Nat := 16

/-- The class of the object that a method is called on. -/
def receiverClass? (r : Resolver) (var : OperandId) (caller : FuncId) (overrides : Overrides) :
    Option String :=
  match (r.arena.operand (r.arena.valueOf (overrides.follow maxChain var))).kind with
  | .object cls => some cls
  | _ => if r.arena.nameOf? var = some "this" then (r.arena.func caller).cls else none

/-- The class that an operand names. -/
def namedClass? (r : Resolver) (cls : OperandId) (caller : FuncId) : Option String := do
  let name ← r.arena.stringOf? cls
  match lowerAscii name with
  | "self" | "static" => (r.arena.func caller).cls
  | "parent" => none
  | _ => some name

/-- The function of the closure that an operand holds, found through assignments. -/
def closureWithin? (r : Resolver) (overrides : Overrides) : Nat → OperandId → Option FuncId
  | 0, _ => none
  | steps + 1, id => do
    let id := overrides.follow maxChain id
    let defs := (r.arena.operand id).defs ++ (r.arena.operand (r.arena.valueOf id)).defs
    match (r.arena.op (← defs.head?)).kind with
    | .closure func _ _ => some func
    | .assign _ expr _ | .assignRef _ expr _ => r.closureWithin? overrides steps expr
    | _ => none

/-- The function that a call calls, seen from a script and a function. -/
def resolve? (r : Resolver) (script : Nat) (caller : FuncId) (call : OpId)
    (overrides : Overrides) : Option FuncId :=
  match (r.arena.op call).kind with
  | .functionCall name _ _ =>
    match r.arena.stringOf? name with
    | some name => r.function? script name
    | none => r.closureWithin? overrides maxChain name
  | .methodCall var name _ _ _ => do
    r.method? script (r.receiverClass? var caller overrides) (← r.arena.stringOf? name)
  | .staticCall cls name _ _ => do
    let method ← r.arena.stringOf? name
    r.method? script (some (← r.namedClass? cls caller)) method
  | .new cls _ _ => do r.lookup? script ((← r.namedClass? cls caller) ++ "::__construct")
  | _ => none

end Resolver

end QueryTaint
