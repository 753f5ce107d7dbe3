import QueryTaint.Proofs.Lower.Invariant
import QueryTaint.Proofs.Rename.Complete

/-!
# What variables hold on a trail

`Arena.stores` lists the values that operations write to a variable, and `Arena.storesOn` those that
are written on a trail. An assertion is no write: it says something about a variable, and makes a new
version of it with the same value. `env_eq_last` says that the version which is current at a place of
a block has the value that was written last, if that is so where the block is entered.
-/

namespace QueryTaint

/-- Temporaries have no value at the start, and an assertion copies the operand that it is about. -/
structure Effects.Copies {D : Type} (E : Effects D) (a : Arena) (undefined : D) : Prop where
  start : ∀ x, (a.operand x).kind.isTemporary = true → E.start x = undefined
  copy : ∀ op e s r, (a.op op).kind = .assertion e s r →
    ∀ log value slot, E.value log op [value] slot = value

theorem getLastD_append {α : Type} (l l' : List α) (d : α) :
    (l ++ l').getLastD d = l'.getLastD (l.getLastD d) := by
  simp only [List.getLastD_eq_getLast?, List.getLast?_append]
  cases l'.getLast? <;> rfl

namespace Arena

variable {D : Type} (a : Arena) (E : Effects D) (name : String)

/-- The value that an operation writes to a variable. -/
def store? (m : Memory D) (op : OpId) : Option D :=
  match (a.op op).kind with
  | .assertion .. => none
  | _ => (a.writtenVersion? name op).map (a.perform E m op).env

/-- The values that operations write to a variable, in order. -/
def stores (m : Memory D) : List OpId → List D
  | [] => []
  | op :: ops => (a.store? E name m op).toList ++ stores (a.perform E m op) ops

/-- The memory where the latest block of a trail is entered. -/
def entered (block : BlockId) (rest : List BlockId) : Memory D :=
  a.enter block rest.head? (a.memory E rest)

/-- The memory before an operation of the latest block of a trail. -/
def memoryAt (block : BlockId) (rest : List BlockId) (index : Nat) : Memory D :=
  ((a.block block).ops.take index).foldl (a.perform E) (a.entered E block rest)

/-- The values that are written to a variable on a trail, in order. -/
def storesOn : List BlockId → List D
  | [] => []
  | block :: rest => storesOn rest ++ a.stores E name (a.entered E block rest) (a.block block).ops

/-- The values that are written to a variable on a trail before an operation of its latest block. -/
def storesBefore (block : BlockId) (rest : List BlockId) (index : Nat) : List D :=
  a.storesOn E name rest ++
    a.stores E name (a.entered E block rest) ((a.block block).ops.take index)

variable {a E name}

theorem stores_append (m : Memory D) (ops : List OpId) (op : OpId) :
    a.stores E name m (ops ++ [op]) =
      a.stores E name m ops ++ (a.store? E name (ops.foldl (a.perform E) m) op).toList := by
  induction ops generalizing m with
  | nil => exact List.append_nil _
  | cons o ops ih => rw [List.cons_append, stores, stores, ih, List.append_assoc, List.foldl_cons]

theorem writtenVersion?_of_mem {op : OpId} {x : OperandId}
    (hx : x ∈ (a.op op).kind.mentioned true) (hname : a.nameOf? x = some name) :
    a.writtenVersion? name op ≠ none := by
  intro hnone
  rw [writtenVersion?, List.find?_eq_none] at hnone
  exact hnone x hx (decide_eq_true hname)

theorem nameOf?_of_writtenVersion? {op : OpId} {x : OperandId}
    (h : a.writtenVersion? name op = some x) :
    x ∈ (a.op op).kind.mentioned true ∧ a.nameOf? x = some name := by
  rw [writtenVersion?] at h
  have hname := List.find?_some h
  exact ⟨List.mem_of_find?_eq_some h, of_decide_eq_true hname⟩

theorem nameOf?_of_lastVersion? {ops : List OpId} {x : OperandId}
    (h : a.lastVersion? name ops = some x) : a.nameOf? x = some name := by
  obtain ⟨op, -, hop⟩ := List.exists_of_findSome?_eq_some h
  exact (nameOf?_of_writtenVersion? hop).2

/-- An operand that some operations write only if they write the variable. -/
def Hidden (a : Arena) (name : String) (ops : List OpId) (x : OperandId) : Prop :=
  ∀ op ∈ ops, x ∈ (a.op op).kind.mentioned true → a.writtenVersion? name op ≠ none

theorem hidden_of_name {x : OperandId} (hname : a.nameOf? x = some name) (ops : List OpId) :
    a.Hidden name ops x :=
  fun _ _ hx => writtenVersion?_of_mem hx hname

/-- An operand that has the value of a variable at a place in a block: the version written last
before it, or else one that had the value when the block was entered. -/
def Carries (a : Arena) (name : String) (ops : List OpId) (m : Memory D) (held : D) (index : Nat)
    (x : OperandId) : Prop :=
  a.lastVersion? name (ops.take index) = some x ∨
    a.lastVersion? name (ops.take index) = none ∧ a.Hidden name ops x ∧ m.env x = held

theorem perform_assertion {undefined : D} (hE : E.Copies a undefined) {op : OpId}
    {e r : OperandId} {s : Assertion} (hkind : (a.op op).kind = .assertion e s r) (m : Memory D) :
    (a.perform E m op).env r = m.env e := by
  rw [perform_eq (by rw [hkind]; exact nofun), hkind]
  have hwritten : (OpKind.assertion e s r).written? r = some ⟨.result, none⟩ := by
    simp [OpKind.written?, OpKind.slots, OpKind.one, OpKind.writes]
  dsimp only
  rw [hwritten]
  exact hE.copy op e s r hkind _ _ _

theorem env_eq_last {undefined : D} (hE : E.Copies a undefined) {ops : List OpId} {m : Memory D}
    {held : D}
    (hasserts : ∀ i op, ops[i]? = some op → ∀ e s r, (a.op op).kind = .assertion e s r →
      a.nameOf? r = some name → a.Carries name ops m held i e)
    {index : Nat} (hindex : index ≤ ops.length) {x : OperandId}
    (hx : a.Carries name ops m held index x) :
    ((ops.take index).foldl (a.perform E) m).env x =
      (a.stores E name m (ops.take index)).getLastD held := by
  induction index generalizing x with
  | zero =>
    rcases hx with hlast | ⟨-, -, hx⟩
    · cases hlast
    · exact hx
  | succ i ih =>
    have hi : i < ops.length := hindex
    have ih := @ih (Nat.le_of_lt hi)
    have hop : ops[i]? = some ops[i] := List.getElem?_eq_getElem hi
    have htake : ops.take (i + 1) = ops.take i ++ [ops[i]] := by
      rw [List.take_add_one, hop]
      rfl
    generalize ops[i] = op at hop htake
    rw [Carries, htake, lastVersion?_append] at hx
    rw [htake, stores_append, List.foldl_append, List.foldl_cons, List.foldl_nil]
    generalize hm : (ops.take i).foldl (a.perform E) m = mi at ih ⊢
    cases hw : a.writtenVersion? name op with
    | some y =>
      rw [hw, Option.some_or] at hx
      obtain rfl : y = x := by
        rcases hx with hx | ⟨hx, -⟩
        · exact Option.some.inj hx
        · cases hx
      obtain ⟨hy, hname⟩ := nameOf?_of_writtenVersion? hw
      by_cases hassert : ∃ e s r, (a.op op).kind = .assertion e s r
      · -- the assertion takes the version that is current before it
        obtain ⟨e, s, r, hkind⟩ := hassert
        obtain rfl : y = r := by
          rw [hkind] at hy
          exact List.mem_singleton.1 hy
        have hnone : a.store? E name mi op = none := by rw [store?, hkind]
        rw [hnone, perform_assertion hE hkind, Option.toList_none, List.append_nil]
        exact ih (hasserts i op hop e s y hkind hname)
      · have hsome : a.store? E name mi op = some ((a.perform E mi op).env y) := by
          unfold store?
          split
          · rename_i e s r hkind
            exact absurd ⟨e, s, r, hkind⟩ hassert
          · rw [hw]
            rfl
        rw [hsome, Option.toList_some]
        exact (List.getLastD_concat ..).symm
    | none =>
      rw [hw, Option.none_or] at hx
      have hnone : a.store? E name mi op = none := by
        unfold store?
        split
        · rfl
        · rw [hw]
          rfl
      have hhidden : a.Hidden name ops x :=
        hx.elim (fun hlast => hidden_of_name (nameOf?_of_lastVersion? hlast) ops) fun hx => hx.2.1
      have hkeep : x ∉ (a.op op).kind.mentioned true := fun hmem =>
        hhidden op (List.mem_of_getElem? hop) hmem hw
      rw [hnone, perform_env hkeep, Option.toList_none, List.append_nil]
      exact ih hx

end Arena

/-!
## Versions have the values of their variables

Once all versions of a variable are settled, the version in a block has, at the end of every trail to
the block, the value that was written last to the variable on the trail (`Renamed.shows`). That goes
by induction over the trail: a φ operation takes the version of the block that the trail comes from,
and a block without one leaves the version of its only predecessor alone. Every walk along terminator
edges of a lowered body is a trail (`Renamed.trail_of_walk`).
-/

/-- A walk from a block along terminator edges, through dead blocks or not. The latest block comes
first. -/
inductive Arena.Walk (a : Arena) (entry : BlockId) : List BlockId → Prop
  | start : Walk a entry [entry]
  | step {source block : BlockId} {rest : List BlockId} (h : Walk a entry (source :: rest))
      (edge : block ∈ a.successors source) : Walk a entry (block :: source :: rest)

namespace Lower

/-- What nothing but making and filling φ operations changes has the same name. -/
theorem Refilled.nameOf?_eq {F : Base} {a a' : Arena} (h : Refilled a a')
    (htidy : ∀ x, F.Mine a x → F.Tidy a x) {x : OperandId} (hx : F.Mine a x) :
    a'.nameOf? x = a.nameOf? x := by
  have hstring {n : OperandId} (hn : F.Mine a n) : a'.stringOf? n = a.stringOf? n := by
    rw [Arena.stringOf?, Arena.stringOf?, h.kind n hn.2]
  have hshaped := (htidy x hx).shaped
  rw [Arena.nameOf?, Arena.nameOf?, Arena.maxChain, Arena.nameWithin?, Arena.nameWithin?,
    h.kind x hx.2]
  cases hkind : (a.operand x).kind with
  | «variable» n _ | bound n _ _ _ =>
    rw [hkind] at hshaped
    exact hstring hshaped.1
  | temporary owner? =>
    cases owner? with
    | none => rfl
    | some owner =>
      rw [hkind] at hshaped
      obtain ⟨howner, -, hown⟩ := hshaped
      have hshaped := (htidy owner howner).shaped
      dsimp only
      rw [Arena.nameWithin?, Arena.nameWithin?, h.kind owner howner.2]
      obtain ⟨n, value, hown⟩ | ⟨cls, hown⟩ := hown <;> rw [hown] at hshaped ⊢
      exact hstring hshaped.1
  | scalar _ | object _ | symbolic _ => rfl

/-- At the end of a trail the version in its last block has the value of the variable. -/
def Quest.Shows (Q : Quest) (b : Builder) {D : Type} (E : Effects D) (undefined : D)
    (trail : List BlockId) : Prop :=
  ∀ block ∈ trail.head?, ∀ x, Q.version? b block = some x →
    (b.arena.memory E trail).env x = (b.arena.storesOn E Q.name trail).getLastD undefined

/-- All versions of a variable are settled. -/
structure Renamed (Q : Quest) (b : Builder) : Prop where
  fit : Q.Fit
  live : (Q.before.arena.block Q.base.entry).dead = false
  resolved : Q.Resolving Quest.settledAll b
  reads : b.reads = Q.before.reads

namespace Renamed

variable {Q : Quest} {b : Builder} (h : Renamed Q b)
include h

/-! ### Operations stay what they are -/

theorem ops_eq (block : BlockId) : (b.arena.block block).ops = (Q.before.arena.block block).ops :=
  h.resolved.refilled.listed block

theorem sound {block : BlockId} (howns : Q.base.Owns block) {op : OpId}
    (hop : op ∈ (b.arena.block block).ops) : Q.base.Sound {} Q.before.arena block op :=
  h.fit.inv.sound block howns op (h.ops_eq block ▸ hop)

theorem kind_eq {block : BlockId} (howns : Q.base.Owns block) {op : OpId}
    (hop : op ∈ (b.arena.block block).ops) :
    (b.arena.op op).kind = (Q.before.arena.op op).kind := by
  have hs := h.sound howns hop
  exact (h.resolved.refilled.op op hs.lt).eq hs.noPhi

theorem nameOf?_eq {x : OperandId} (hx : Q.base.Mine Q.before.arena x) :
    b.arena.nameOf? x = Q.before.arena.nameOf? x :=
  h.resolved.refilled.nameOf?_eq h.fit.inv.tidy hx

theorem writtenVersion?_eq {block : BlockId} (howns : Q.base.Owns block) {op : OpId}
    (hop : op ∈ (b.arena.block block).ops) :
    b.arena.writtenVersion? Q.name op = Q.before.arena.writtenVersion? Q.name op := by
  unfold Arena.writtenVersion?
  rw [h.kind_eq howns hop]
  refine OpKind.find?_congr fun x hx => ?_
  rw [h.nameOf?_eq ((h.sound howns hop).mine x hx)]

theorem lastVersion?_take {block : BlockId} (howns : Q.base.Owns block) (index : Nat) :
    b.arena.lastVersion? Q.name ((b.arena.block block).ops.take index) =
      Q.before.arena.lastVersion? Q.name ((Q.before.arena.block block).ops.take index) := by
  rw [← h.ops_eq block]
  exact Arena.lastVersion?_congr fun op hop =>
    h.writtenVersion?_eq howns (List.mem_of_mem_take hop)

/-- What can be a version of the variable is written by operations that write the variable only. -/
theorem hidden {block : BlockId} (howns : Q.base.Owns block) {x : OperandId} (hapt : Q.Apt x) :
    b.arena.Hidden Q.name (b.arena.block block).ops x := by
  intro op hop hx
  rw [h.kind_eq howns hop] at hx
  have hmine := (h.sound howns hop).mine x hx
  rw [h.writtenVersion?_eq howns hop]
  exact Arena.writtenVersion?_of_mem hx (hapt.resolve_right (Nat.not_le.2 hmine.2))

/-! ### Trails -/

variable {block source : BlockId} {rest : List BlockId}

/-- Edges from blocks of the body lead to blocks of the body, which know them and are not dead. -/
theorem edge (howns : Q.base.Owns source) (hedge : block ∈ b.arena.successors source) :
    Q.base.Target Q.before.arena block ∧ source ∈ (Q.before.arena.block block).preds := by
  rw [Arena.successors_eq] at hedge
  cases hlast : (b.arena.block source).ops.getLast? with
  | none =>
    rw [hlast] at hedge
    cases hedge
  | some op =>
    rw [hlast] at hedge
    have hop := List.mem_of_getLast? hlast
    have hedge : block ∈ (b.arena.op op).kind.successors := hedge
    rw [h.kind_eq howns hop] at hedge
    obtain ⟨htarget, hpred⟩ := (h.sound howns hop).leads block hedge
    exact ⟨htarget, hpred.resolve_right List.not_mem_nil⟩

theorem owns (ht : b.arena.Trail Q.base.entry (block :: rest)) : Q.base.Owns block := by
  generalize htrail : block :: rest = trail at ht
  induction ht generalizing block rest with
  | start => exact .inl (List.cons.inj htrail).1
  | step ht hedge _ ih =>
    obtain ⟨rfl, -⟩ := List.cons.inj htrail
    exact .inr (h.edge (ih rfl) hedge).1.1

theorem trail_of_walk {walk : List BlockId} (hw : b.arena.Walk Q.base.entry walk) :
    b.arena.Trail Q.base.entry walk := by
  induction hw with
  | start => exact .start ((h.resolved.refilled.dead _).trans h.live)
  | step _ hedge ih =>
    obtain ⟨-, -, hlive⟩ := (h.edge (h.owns ih) hedge).1
    exact .step ih hedge ((h.resolved.refilled.dead _).trans hlive)

theorem mem_livePreds (ht : b.arena.Trail Q.base.entry (block :: source :: rest)) :
    source ∈ b.arena.livePreds block := by
  have hpred := (h.edge (h.owns ht.tail) ht.edge).2
  have hlive := ht.live source (List.mem_cons_of_mem _ List.mem_cons_self)
  rw [← h.resolved.refilled.preds] at hpred
  exact List.mem_filter.2 ⟨hpred, by rw [hlive]; rfl⟩

/-! ### Values -/

section Values

variable {D : Type} {E : Effects D} {undefined : D} (hE : E.Copies b.arena undefined)

include hE in
/-- The result of a φ operation of a block has the value of the variable where the block is
entered. -/
theorem entered_of_feeds (ht : b.arena.Trail Q.base.entry (block :: rest))
    (hrest : Q.Shows b E undefined rest) {x : OperandId} {phi : OpId} {vars : List OperandId}
    (hf : Q.Feeds Quest.settledAll b block x phi vars) :
    (b.arena.entered E block rest).env x = (b.arena.storesOn E Q.name rest).getLastD undefined := by
  cases rest with
  | nil =>
    have hnone : b.arena.incoming? block none x = none := by
      rw [Option.eq_none_iff_forall_ne_some]
      intro u hu
      obtain ⟨_, _, _, _, _, hsource, _⟩ := Arena.exists_of_incoming? hu
      cases hsource
    show E.start ((b.arena.incoming? block none x).getD x) = undefined
    rw [hnone]
    exact hE.start x hf.temporary
  | cons source rest =>
    have hmem := h.mem_livePreds ht
    have hfound : ((b.arena.livePreds block).findIdx? (· = source)).isSome := by
      rw [List.findIdx?_isSome, List.any_eq_true]
      exact ⟨source, hmem, decide_eq_true rfl⟩
    obtain ⟨i, hi⟩ := Option.isSome_iff_exists.1 hfound
    obtain ⟨hlt, hsource, -⟩ := List.findIdx?_eq_some_iff_getElem.1 hi
    -- the operand at the position of the source is the version in the source
    have hversion : (vars.map some)[i]? = some (Q.version? b source) := by
      rw [← hf.found, List.getElem?_map, List.getElem?_eq_getElem hlt, of_decide_eq_true hsource]
      rfl
    rw [List.getElem?_map] at hversion
    obtain ⟨u, hu, hsome⟩ := Option.map_eq_some_iff.1 hversion
    have hincoming : b.arena.incoming? block (some source) x = some u :=
      Arena.incoming?_of_only hf.mem hf.kind hf.only (by rw [Arena.phiOperand?, hi]; exact hu)
    show (b.arena.memory E (source :: rest)).env
      ((b.arena.incoming? block (some source) x).getD x) = _
    rw [hincoming]
    exact hrest source rfl u hsome.symm

/-- The version of the only predecessor has the value of the variable where a block is entered. -/
theorem entered_of_passed (ht : b.arena.Trail Q.base.entry (block :: rest))
    (hrest : Q.Shows b E undefined rest) {x : OperandId} (hapt : Q.Apt x)
    (hp : Q.Passed b block x) :
    (b.arena.entered E block rest).env x = (b.arena.storesOn E Q.name rest).getLastD undefined := by
  obtain ⟨hjoining, pred, hpreds, hx⟩ := hp
  have howns := h.owns ht
  have hnone (source : Option BlockId) : b.arena.incoming? block source x = none := by
    rw [Option.eq_none_iff_forall_ne_some]
    intro u hu
    obtain ⟨phi, hphi, vars, _, hkind, -⟩ := Arena.exists_of_incoming? hu
    exact hjoining (((h.resolved.phis block howns phi hphi).2 vars x hkind).2 hapt)
  cases rest with
  | nil =>
    obtain rfl := ht.eq_entry
    rw [h.fit.inv.start] at hpreds
    cases hpreds
  | cons source rest =>
    have hpred := (h.edge (h.owns ht.tail) ht.edge).2
    rw [hpreds] at hpred
    obtain rfl := List.mem_singleton.1 hpred
    show (b.arena.memory E (source :: rest)).env
      ((b.arena.incoming? block (some source) x).getD x) = _
    rw [hnone]
    exact hrest source rfl x hx

include hE in
theorem entered_of_joined (ht : b.arena.Trail Q.base.entry (block :: rest))
    (hrest : Q.Shows b E undefined rest) {x : OperandId}
    (hj : Q.Joined Quest.settledAll b block x) :
    (b.arena.entered E block rest).env x = (b.arena.storesOn E Q.name rest).getLastD undefined := by
  rcases hj with ⟨phi, hphi⟩ | ⟨phi, vars, hf⟩
  · cases hphi
  · exact h.entered_of_feeds hE ht hrest hf

include hE in
/-- What was current at a place when the body was lowered has the value of the variable there. -/
theorem carries (ht : b.arena.Trail Q.base.entry (block :: rest))
    (hrest : Q.Shows b E undefined rest) {index : Nat} {x : OperandId}
    (hx : Current Q.before block index Q.name x) :
    b.arena.Carries Q.name (b.arena.block block).ops (b.arena.entered E block rest)
      ((b.arena.storesOn E Q.name rest).getLastD undefined) index x := by
  have howns := h.owns ht
  rw [Arena.Carries, h.lastVersion?_take howns]
  refine hx.imp id ?_
  rintro ⟨hlast, p, hp, rfl, hname, hkind⟩
  obtain ⟨-, -, -, r, hkind', -, -, hr⟩ := h.fit.inv.pending p hp
  cases hkind.symm.trans hkind'
  exact ⟨hlast, h.hidden howns (.inl (hr.trans (congrArg some hname))),
    h.entered_of_joined hE ht hrest (h.resolved.served p hp hname x hkind)⟩

include hE in
/-- The operand that has the value of the variable at a place of the last block of a trail. -/
theorem env_carried (ht : b.arena.Trail Q.base.entry (block :: rest))
    (hrest : Q.Shows b E undefined rest) {index : Nat}
    (hindex : index ≤ (b.arena.block block).ops.length) {x : OperandId}
    (hx : b.arena.Carries Q.name (b.arena.block block).ops (b.arena.entered E block rest)
      ((b.arena.storesOn E Q.name rest).getLastD undefined) index x) :
    (b.arena.memoryAt E block rest index).env x =
      (b.arena.storesBefore E Q.name block rest index).getLastD undefined := by
  have howns := h.owns ht
  rw [Arena.storesBefore, getLastD_append]
  refine Arena.env_eq_last hE (fun i op hop e s r hkind hr => ?_) hindex hx
  have hmem := List.mem_of_getElem? hop
  rw [h.kind_eq howns hmem] at hkind
  rw [h.ops_eq] at hop
  have hmine : Q.base.Mine Q.before.arena r :=
    (h.sound howns hmem).mine r (by rw [hkind]; exact List.mem_cons_self)
  rw [h.nameOf?_eq hmine] at hr
  exact h.carries hE ht hrest
    (h.fit.inv.asserts block howns i op hop e s r hkind Q.name h.fit.plain hr)

include hE in
theorem shows_cons (ht : b.arena.Trail Q.base.entry (block :: rest))
    (hrest : Q.Shows b E undefined rest) : Q.Shows b E undefined (block :: rest) := by
  rintro _ ⟨⟩ x hx
  have howns := h.owns ht
  have hs := h.resolved.bound block howns x hx
  have hlast := h.lastVersion?_take howns (Q.before.arena.block block).ops.length
  rw [List.take_length, ← h.ops_eq block] at hlast
  have hcarries : b.arena.Carries Q.name (b.arena.block block).ops (b.arena.entered E block rest)
      ((b.arena.storesOn E Q.name rest).getLastD undefined) (b.arena.block block).ops.length x := by
    rw [Arena.Carries, hlast, h.ops_eq block]
    refine hs.reason.imp id (And.imp id fun hreason => ⟨h.ops_eq block ▸ h.hidden howns hs.apt, ?_⟩)
    exact hreason.elim (h.entered_of_joined hE ht hrest) (h.entered_of_passed ht hrest hs.apt)
  have henv := h.env_carried hE ht hrest (Nat.le_refl _) hcarries
  rwa [Arena.memoryAt, Arena.storesBefore, List.take_length] at henv

include hE in
/-- On every trail the version in the last block has the value that was written last. -/
theorem shows (ht : b.arena.Trail Q.base.entry rest) : Q.Shows b E undefined rest := by
  induction ht with
  | start hlive => exact h.shows_cons hE (.start hlive) nofun
  | step ht hedge hlive ih => exact h.shows_cons hE (.step ht hedge hlive) ih

include hE in
/-- What was current at a place when the body was lowered has, on every trail to that place, the
value that was written last. -/
theorem env_current (ht : b.arena.Trail Q.base.entry (block :: rest)) {index : Nat}
    (hindex : index ≤ (Q.before.arena.block block).ops.length) {x : OperandId}
    (hx : Current Q.before block index Q.name x) :
    (b.arena.memoryAt E block rest index).env x =
      (b.arena.storesBefore E Q.name block rest index).getLastD undefined := by
  have hrest : Q.Shows b E undefined rest := by
    cases rest with
    | nil => exact nofun
    | cons source rest => exact h.shows hE ht.tail
  exact h.env_carried hE ht hrest (h.ops_eq block ▸ hindex) (h.carries hE ht hrest hx)

end Values

end Renamed

end Lower

end QueryTaint
