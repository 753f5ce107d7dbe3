import Mathlib.Data.List.Induction
import Mathlib.Logic.Relation
import QueryTaint.Proofs.Version.Body
import QueryTaint.Proofs.Version.Simplify
import QueryTaint.Proofs.Walk.Confine

/-!
# Overrides

Binding an operand makes it stand for what its source stands for in one step. An operand never stands
directly for itself (`get?_binds_ne_self`), but this does not keep longer chains from closing: if all
chains end, they still end after an operand was bound just if the chain from its new value does not
lead back to it (`ends_bind_iff`), and so they end after any number of bindings of which none closes
one (`ends_binds`). Three bindings can close one (`not_ends_of_three_binds`).

The φs of a block that is entered are bound one after the other, but no φ takes the result of one
before it (`Joins.notMem_of_apart`). So each takes what flows into it on the edge, resolved as it was
before the block was entered (`overrides_foldl_commit`), and no two bind the same operand
(`nodup_arrivals`).
-/

namespace QueryTaint.Overrides

variable {o : Overrides} {target id : OperandId} {source : Option OperandId}

/-! ## One binding -/

theorem get?_insert (o : Overrides) (target value id : OperandId) :
    Std.TreeMap.get? (o.insert target value) id = if id = target then some value else o.get? id := by
  rw [Std.TreeMap.get?_eq_getElem?, Std.TreeMap.getElem?_insert]
  exact if_congr (Std.compare_eq_iff_eq.trans eq_comm) rfl rfl

theorem get?_erase (o : Overrides) (target id : OperandId) :
    Std.TreeMap.get? (o.erase target) id = if id = target then none else o.get? id := by
  rw [Std.TreeMap.get?_eq_getElem?, Std.TreeMap.getElem?_erase]
  exact if_congr (Std.compare_eq_iff_eq.trans eq_comm) rfl rfl

/-- A bound operand stands for what its source stood for, unless that is itself. -/
theorem get?_bind (o : Overrides) (target : OperandId) (source : Option OperandId)
    (id : OperandId) : (o.bind target source).get? id =
      if id = target then (source.map o.resolve).filter (· ≠ target) else o.get? id := by
  unfold bind
  cases source.map o.resolve with
  | none => exact get?_erase o target id
  | some resolved =>
    dsimp only
    split
    · rename_i heq
      have hnone : (some resolved).filter (· ≠ target) = none := by simp [Option.filter, heq]
      rw [get?_erase, hnone]
    · rename_i hne
      have hsome : (some resolved).filter (· ≠ target) = some resolved := by
        simp [Option.filter, hne]
      rw [get?_insert, hsome]

/-- Binds operands one after the other. -/
def binds (o : Overrides) (l : List (OperandId × Option OperandId)) : Overrides :=
  l.foldl (fun o entry => o.bind entry.1 entry.2) o

theorem binds_append (o : Overrides) (l : List (OperandId × Option OperandId))
    (entry : OperandId × Option OperandId) :
    binds o (l ++ [entry]) = (binds o l).bind entry.1 entry.2 := by
  rw [binds, List.foldl_append]
  rfl

theorem get?_empty (id : OperandId) : ({} : Overrides).get? id = none :=
  Std.TreeMap.getElem?_emptyc

/-- No operand stands directly for itself. -/
theorem get?_binds_ne_self (l : List (OperandId × Option OperandId)) (id : OperandId) :
    (binds {} l).get? id ≠ some id := by
  induction l using List.reverseRecOn with
  | nil => exact fun h => nomatch (get?_empty id).symm.trans h
  | append_singleton l entry ih =>
    rw [binds_append, get?_bind]
    split
    · rename_i heq
      intro hself
      exact of_decide_eq_true (Option.filter_eq_some_iff.1 hself).2 heq
    · exact ih

/-! ## Chains -/

/-- Following the overrides from an operand, one reaches an operand without one. -/
inductive Ends (o : Overrides) : OperandId → Prop
  | rest {id : OperandId} : o.get? id = none → Ends o id
  | step {id next : OperandId} : o.get? id = some next → Ends o next → Ends o id

/-- The chain from one operand leads to another. -/
def Leads (o : Overrides) : OperandId → OperandId → Prop :=
  Relation.ReflTransGen fun id next => o.get? id = some next

/-- A chain that ends does not lead back. -/
theorem Ends.not_leads {next : OperandId} (h : o.Ends id) (hnext : o.get? id = some next) :
    ¬ o.Leads next id := by
  induction h generalizing next with
  | rest hnone => exact nomatch hnone.symm.trans hnext
  | @step id after hafter _ ih =>
    obtain rfl := Option.some.inj (hafter.symm.trans hnext)
    intro hback
    rcases Relation.ReflTransGen.cases_head hback with rfl | ⟨second, hsecond, hrest⟩
    · exact ih hafter .refl
    · exact ih hsecond (hrest.tail hafter)

/-- Where a chain ends, following it long enough gives an operand without an override. -/
theorem Ends.get?_follow (h : o.Ends id) :
    ∃ n, ∀ steps ≥ n, o.get? (o.follow steps id) = none := by
  induction h with
  | @rest id hnone =>
    refine ⟨0, fun steps _ => ?_⟩
    have hfollow : o.follow steps id = id := by
      cases steps with
      | zero => rfl
      | succ steps => rw [follow, hnone]
    rw [hfollow, hnone]
  | @step id next hsome hends ih =>
    obtain ⟨n, hn⟩ := ih
    refine ⟨n + 1, fun steps hsteps => ?_⟩
    obtain ⟨steps, rfl⟩ := Nat.exists_eq_add_one_of_ne_zero (by omega : steps ≠ 0)
    have hne : next ≠ id := fun heq => (Ends.step hsome hends).not_leads hsome (heq ▸ .refl)
    rw [follow, hsome]
    dsimp only
    rw [if_neg hne]
    exact hn steps (Nat.le_of_succ_le_succ hsteps)

/-- Whether the chain from the new value of an operand leads back to it. -/
def Closes (o : Overrides) (target : OperandId) (source : Option OperandId) : Prop :=
  ∃ value, source.map o.resolve = some value ∧ value ≠ target ∧ o.Leads value target

/-- A chain that does not lead to the target is the same after it was bound. -/
theorem Ends.bind_of_not_leads (h : o.Ends id) (hnot : ¬ o.Leads id target) :
    (o.bind target source).Ends id := by
  have hne {id : OperandId} (hnot : ¬ o.Leads id target) :
      (o.bind target source).get? id = o.get? id := by
    rw [get?_bind, if_neg]
    rintro rfl
    exact hnot .refl
  induction h with
  | rest hnone => exact .rest ((hne hnot).trans hnone)
  | step hnext _ ih =>
    exact .step ((hne hnot).trans hnext) (ih fun hleads => hnot (hleads.head hnext))

/-- A chain that leads to the target without passing it before is the same after it was bound. -/
theorem Leads.bind {value : OperandId} (h : o.Leads value target) :
    (o.bind target source).Leads value target := by
  induction h using Relation.ReflTransGen.head_induction_on with
  | refl => exact .refl
  | @head id next hnext _ ih =>
    by_cases heq : id = target
    · exact heq ▸ .refl
    · exact .head (by rw [get?_bind, if_neg heq, hnext]) ih

/-- If all chains end, they still do after an operand was bound just if that closes none. -/
theorem ends_bind_iff (h : ∀ id, o.Ends id) :
    (∀ id, (o.bind target source).Ends id) ↔ ¬ o.Closes target source := by
  constructor
  · rintro hends ⟨value, hvalue, hne, hleads⟩
    refine (hends target).not_leads ?_ hleads.bind
    rw [get?_bind, if_pos rfl, hvalue, Option.filter_some, if_pos (by simpa using hne)]
  · intro hopen id
    have htarget : (o.bind target source).Ends target := by
      cases hvalue : (o.bind target source).get? target with
      | none => exact .rest hvalue
      | some value =>
        refine .step hvalue ((h value).bind_of_not_leads fun hleads => hopen ⟨value, ?_⟩)
        rw [get?_bind, if_pos rfl] at hvalue
        obtain ⟨hsource, hne⟩ := Option.filter_eq_some_iff.1 hvalue
        exact ⟨hsource, of_decide_eq_true hne, hleads⟩
    induction h id with
    | @rest id hnone =>
      by_cases heq : id = target
      · exact heq ▸ htarget
      · exact .rest (by rw [get?_bind, if_neg heq, hnone])
    | @step id next hnext _ ih =>
      by_cases heq : id = target
      · exact heq ▸ htarget
      · exact .step (by rw [get?_bind, if_neg heq, hnext]) ih

/-- Chains end after any number of bindings of which none closes one. -/
theorem ends_binds {l : List (OperandId × Option OperandId)}
    (h : ∀ before entry, before ++ [entry] <+: l → ¬ (binds {} before).Closes entry.1 entry.2) :
    ∀ id, (binds {} l).Ends id := by
  induction l using List.reverseRecOn with
  | nil => exact fun id => .rest (get?_empty id)
  | append_singleton l entry ih =>
    rw [binds_append]
    refine (ends_bind_iff (ih fun before entry' hbefore => ?_)).2 (h l entry List.prefix_rfl)
    exact h before entry' (hbefore.trans (List.prefix_append l [entry]))

/-- In particular, chains end if no operand is bound while another one stands for it. -/
theorem not_closes_of_unused (h : ∀ id, o.get? id ≠ some target) : ¬ o.Closes target source := by
  rintro ⟨value, -, hne, hleads⟩
  rcases Relation.ReflTransGen.cases_tail hleads with heq | ⟨last, -, hlast⟩
  · exact hne heq.symm
  · exact h last hlast

/-- The second operand stands for the first one, the first one for the third one, and the third one
for what the second one stands for. -/
theorem not_ends_of_three_binds :
    ¬ (binds {} [(⟨2⟩, some ⟨1⟩), (⟨1⟩, some ⟨3⟩), (⟨3⟩, some ⟨2⟩)]).Ends ⟨1⟩ := by
  intro hends
  have hnext : (binds {} [(⟨2⟩, some ⟨1⟩), (⟨1⟩, some ⟨3⟩), (⟨3⟩, some ⟨2⟩)]).get? ⟨1⟩ = some ⟨3⟩ := by
    decide
  exact hends.not_leads hnext (.single (by decide))

end QueryTaint.Overrides

/-! ## The φs of a block take their values at once -/

namespace QueryTaint

namespace Overrides

/-- Makes an operand stand for another one. One that would stand for itself has no override. -/
def point (o : Overrides) (target resolved : OperandId) : Overrides :=
  if resolved = target then o.erase target else o.insert target resolved

/-- Makes operands stand for what their sources stand for now, all at once. -/
def bindAll (o : Overrides) (arrivals : List (OperandId × OperandId)) : Overrides :=
  arrivals.foldl (fun new arrival => new.point arrival.1 (o.resolve arrival.2)) o

theorem resolve_bind_of_ne (o : Overrides) {target id : OperandId} (hne : id ≠ target)
    (source : Option OperandId) : (o.bind target source).resolve id = o.resolve id := by
  rw [resolve, get?_bind, if_neg hne, resolve]

end Overrides

namespace Explorer

/-- The result of a φ, and the value that flows into it. -/
def arrival? (a : Arena) (slot : Option Nat) (known : Std.TreeSet OperandId) (phi : OpId) :
    Option (OperandId × OperandId) :=
  match (a.op phi).kind with
  | .phi vars result => (incoming? slot known vars).map (result, ·)
  | _ => none

/-- The results of the φs of a block that is entered from another one, and the values that flow into
them. -/
def arrivals (a : Arena) (w : Walk) (block : BlockId) (source : Option BlockId) :
    List (OperandId × OperandId) :=
  let slot := source.bind fun source => (a.livePreds block).findIdx? (· = source)
  (a.block block).phis.filterMap (arrival? a slot w.known)

variable {a : Arena} {w w' : Walk} {slot : Option Nat} {phi : OpId} {phis : List OpId}

theorem arrival?_eq_some {known : Std.TreeSet OperandId} {result value : OperandId}
    (h : arrival? a slot known phi = some (result, value)) : ∃ vars,
      (a.op phi).kind = .phi vars result ∧ incoming? slot known vars = some value := by
  unfold arrival? at h
  split at h
  · rename_i vars r hkind
    obtain ⟨v, hv, heq⟩ := Option.map_eq_some_iff.1 h
    cases heq
    exact ⟨vars, hkind, hv⟩
  · cases h

/-- Lets a value flow into a φ. -/
def commitPhi (a : Arena) (slot : Option Nat) (w : Walk) (phi : OpId) : Walk :=
  match arrival? a slot w.known phi with
  | some (result, value) => w.bind none result (some value)
  | none => w

theorem commitPhis_eq (a : Arena) (w : Walk) (block : BlockId) (source : Option BlockId) :
    commitPhis a w block source =
      let slot := source.bind fun source => (a.livePreds block).findIdx? (· = source)
      (a.block block).phis.foldl (commitPhi a slot) w := by
  unfold commitPhis
  dsimp only
  congr 1
  funext w phi
  unfold commitPhi arrival?
  cases (a.op phi).kind with
  | phi vars result =>
    dsimp only
    split
    · rename_i heq
      rw [heq]
      rfl
    · rename_i heq
      rw [heq]
      rfl
  | _ => rfl

/-! ## What a φ reads -/

/-- Two walks agree on an operand: whether it is known, and what it stands for. -/
def Agree (w w' : Walk) (id : OperandId) : Prop :=
  w'.known.contains id = w.known.contains id ∧ w'.overrides.resolve id = w.overrides.resolve id

/-- Where a value flows changes nothing else. -/
theorem Agree.bind {id target : OperandId} (h : Agree w w' id) (hne : id ≠ target)
    (via : Option OpId) (value : Option OperandId) : Agree w (w'.bind via target value) id := by
  refine ⟨?_, (w'.overrides.resolve_bind_of_ne hne value).trans h.2⟩
  rw [← h.1]
  simp [Walk.bind, Std.TreeSet.contains_insert, hne.symm]

theorem incoming?_congr {vars : List OperandId} (h : ∀ id ∈ vars, Agree w w' id) :
    incoming? slot w'.known vars = incoming? slot w.known vars := by
  have hfind : vars.find? w'.known.contains = vars.find? w.known.contains := by
    induction vars with
    | nil => rfl
    | cons id vars ih =>
      obtain ⟨hid, hvars⟩ := List.forall_mem_cons.1 h
      rw [List.find?_cons, List.find?_cons, hid.1, ih hvars]
  rw [incoming?, incoming?, hfind]

/-- φs of which none takes the result of one before it bind what flows into them at once. -/
theorem overrides_foldl_commit
    (hagree : ∀ phi ∈ phis, ∀ vars result, (a.op phi).kind = .phi vars result →
      ∀ id ∈ vars, Agree w w' id)
    (hapart : phis.Pairwise fun p q => ∀ vars r vars' r', (a.op p).kind = .phi vars r →
      (a.op q).kind = .phi vars' r' → r ∉ vars') :
    (phis.foldl (commitPhi a slot) w').overrides =
      (phis.filterMap (arrival? a slot w.known)).foldl
        (fun new arrival => new.point arrival.1 (w.overrides.resolve arrival.2)) w'.overrides := by
  induction phis generalizing w' with
  | nil => rfl
  | cons phi phis ih =>
    obtain ⟨hphi, hphis⟩ := List.forall_mem_cons.1 hagree
    obtain ⟨hfirst, hrest⟩ := List.pairwise_cons.1 hapart
    have hsame : arrival? a slot w'.known phi = arrival? a slot w.known phi := by
      unfold arrival?
      split
      · rename_i vars result hkind
        rw [incoming?_congr (hphi vars result hkind)]
      · rfl
    rw [List.foldl_cons, List.filterMap_cons, commitPhi, hsame]
    cases harrival : arrival? a slot w.known phi with
    | none => exact ih hphis hrest
    | some arrival =>
      obtain ⟨result, value⟩ := arrival
      obtain ⟨vars, hkind, hvalue⟩ := arrival?_eq_some harrival
      have hresolve := (hphi vars result hkind value (incoming?_mem hvalue)).2
      refine (ih (fun q hq vars' r' hq' id hid => ?_) hrest).trans ?_
      · refine (hphis q hq vars' r' hq' id hid).bind ?_ none (some value)
        rintro rfl
        exact hfirst q hq vars _ vars' r' hkind hq' hid
      · rw [List.foldl_cons]
        congr 1
        simp only [Walk.bind, Overrides.bind, Overrides.point, Option.map_some, hresolve]

/-! ## Blocks of programs -/

/-- The φs of a block bind different operands. -/
theorem nodup_arrivals (h : a.Versioned) (w : Walk) (block : BlockId) (source : Option BlockId) :
    ((arrivals a w block source).map (·.1)).Nodup := by
  rw [List.Nodup, List.pairwise_map]
  unfold arrivals
  refine List.Pairwise.filterMap _ (fun p q hpq x hx y hy heq => ?_) (h.apart block)
  obtain ⟨vars, hp, -⟩ := arrival?_eq_some hx
  obtain ⟨vars', hq, -⟩ := arrival?_eq_some hy
  obtain ⟨name, hname, hne⟩ := hpq
  obtain rfl := h.sole (congrArg OpKind.sole? hp) (heq ▸ congrArg OpKind.sole? hq)
  exact hne hname

/-- Where φs join versions of their variables, they are bound at once. -/
theorem overrides_commitPhis (h : a.Versioned) (w : Walk) (block : BlockId)
    (source : Option BlockId) : (commitPhis a w block source).overrides =
      w.overrides.bindAll (arrivals a w block source) := by
  rw [commitPhis_eq]
  refine overrides_foldl_commit (fun _ _ _ _ _ _ _ => ⟨rfl, rfl⟩) ((h.apart block).imp ?_)
  exact fun hpq vars r vars' r' hp hq => h.notMem_of_apart hp hq hpq

end Explorer

namespace Program

/-- In every program that was lowered, folded and simplified, the overrides after the φs of a block
were bound one after the other are those that they get at once: each φ stands for what flows into it
on the edge that was taken, resolved before it was taken, and no operand is bound twice. -/
theorem commitPhis_at_once_of_files (files : List (String × Except Error (List Stmt × Labels))) :
    let lowered := files.foldl (fun p file => p.add file.1 file.2) ({} : Program)
    let a := lowered.optimize.2.simplify.2.arena
    ∀ (w : Walk) (block : BlockId) (source : Option BlockId),
      (Explorer.commitPhis a w block source).overrides =
          w.overrides.bindAll (Explorer.arrivals a w block source) ∧
        ((Explorer.arrivals a w block source).map (·.1)).Nodup := by
  intro lowered a w block source
  have hlowered : lowered.arena.Versioned := versioned_of_files files
  have hfolded : lowered.optimize.2.arena.Versioned :=
    Arena.enduring_versioned.optimizeAll hlowered lowered.funcs
  have h : a.Versioned := Arena.enduring_versioned.simplifyAll hfolded lowered.optimize.2.funcs
  exact ⟨Explorer.overrides_commitPhis h w block source, Explorer.nodup_arrivals h w block source⟩

/-! ### A branch -/

/-- A page that writes a variable before a branch and on one of its ways, and reads it after it. -/
def branchedPage : List (String × Except Error (List Stmt × Labels)) :=
  let var (name : String) : Expr := .mk (.variable name) .none
  let set (s : String) : Stmt :=
    .mk (.expr (.mk (.assign (var "x") (.mk (.literal (.string s)) .none)) .none)) .none
  [("a.php", .ok ([set "a", .mk (.ifElse (var "_GET") [set "b"] [] none) .none,
    .mk (.echo [var "x"]) .none], ⟨"", 0, 0⟩))]

/-- The φ after the branch stands for what flows into it on the edge that was taken. -/
example :
    let lowered := branchedPage.foldl (fun p file => p.add file.1 file.2) ({} : Program)
    let a := lowered.optimize.2.simplify.2.arena
    let bound (source : BlockId) := (Explorer.commitPhis a { func := ⟨0⟩, invocation := 0 } ⟨1⟩
      (some source)).overrides.toList
    bound ⟨0⟩ = [(⟨18⟩, ⟨3⟩)] ∧ bound ⟨2⟩ = [(⟨18⟩, ⟨11⟩)] := by cbv

end Program

end QueryTaint
