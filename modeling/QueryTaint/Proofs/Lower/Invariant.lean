import Mathlib.Data.List.Induction
import QueryTaint.Proofs.Lower.Region
import QueryTaint.Proofs.Trail.Basic

/-!
# The invariant of lowering

While a body is lowered, the version that is bound to a variable in a block is the one that the
block's last operation to write the variable writes, or else the result of a φ that waits for its
operands (`Current`). `Inv` says so of all blocks of the body, together with what it takes to keep
it, and that every read and every assertion took the version that was current at its place.

A step of lowering binds a version before it makes the operation that writes it, and makes a jump
before it records the predecessor. What is still to be done is noted (`Due`).
-/

namespace QueryTaint

namespace Arena

/-- The version of a variable that an operation writes. -/
def writtenVersion? (a : Arena) (name : String) (op : OpId) : Option OperandId :=
  ((a.op op).kind.mentioned true).find? fun id => a.nameOf? id = some name

/-- The version of a variable that is written last by some operations in order. -/
def lastVersion? (a : Arena) (name : String) (ops : List OpId) : Option OperandId :=
  ops.reverse.findSome? (a.writtenVersion? name)

theorem lastVersion?_append (a : Arena) (name : String) (ops : List OpId) (op : OpId) :
    a.lastVersion? name (ops ++ [op]) =
      (a.writtenVersion? name op).or (a.lastVersion? name ops) := by
  rw [lastVersion?, List.reverse_append, List.reverse_singleton, List.singleton_append,
    List.findSome?_cons]
  cases a.writtenVersion? name op <;> rfl

theorem lastVersion?_congr {a a' : Arena} {name : String} {ops : List OpId}
    (h : ∀ op ∈ ops, a'.writtenVersion? name op = a.writtenVersion? name op) :
    a'.lastVersion? name ops = a.lastVersion? name ops := by
  induction ops using List.reverseRecOn with
  | nil => rfl
  | append_singleton ops op ih =>
    rw [lastVersion?_append, lastVersion?_append, h op (by simp),
      ih fun o ho => h o (List.mem_append_left _ ho)]

end Arena

namespace Lower

/-- The name of a variable whose versions are kept apart: no input, no object, no property. -/
def IsPlainName (name : String) : Prop :=
  inputTag? name = none ∧ name ≠ "this" ∧ isFieldKey name = false

/-- What a step of lowering has yet to do: to write a version that it bound, and to record
predecessors (the source and the target of each). -/
structure Due where
  version : Option OperandId := none
  links : List (BlockId × BlockId) := []

/-- The version of a variable that is current at a place of a block: the one written last before
it, or else the result of a φ that waits for its operands. -/
def Current (b : Builder) (block : BlockId) (index : Nat) (name : String) (x : OperandId) : Prop :=
  b.arena.lastVersion? name ((b.arena.block block).ops.take index) = some x ∨
    b.arena.lastVersion? name ((b.arena.block block).ops.take index) = none ∧
      ∃ p ∈ b.scope.pending, p.block = block ∧ p.name = name ∧
        (b.arena.op p.phi).kind = .phi [] x

/-- An operation in a block of the body. -/
structure Base.Sound (F : Base) (D : Due) (a : Arena) (block : BlockId) (op : OpId) : Prop where
  lt : op.index < a.ops.size
  noPhi : ∀ vars result, (a.op op).kind ≠ .phi vars result
  mine : ∀ x ∈ (a.op op).kind.mentioned true, F.Mine a x
  leads : ∀ target ∈ (a.op op).kind.successors,
    F.Target a target ∧ (block ∈ (a.block target).preds ∨ (block, target) ∈ D.links)

/-- A φ in a block of the body that joins no versions of a variable. -/
def Base.Joins (F : Base) (a : Arena) (phi : OpId) : Prop :=
  phi.index < a.ops.size ∧
    ∀ vars r, (a.op phi).kind = .phi vars r → F.Mine a r ∧ a.nameOf? r = none

/-- The invariant of lowering a body. -/
structure Inv (F : Base) (D : Due) (b : Builder) : Prop where
  entry : F.entry.index < F.blocks
  blocks : F.blocks ≤ b.arena.blocks.size
  operands : F.operands ≤ b.arena.operands.size
  readsSize : F.reads ≤ b.reads.size
  here : F.Holds b.arena b.block
  building : b.scope.complete = false
  start : (b.arena.block F.entry).preds = []
  tidy : ∀ x, F.Mine b.arena x → F.Tidy b.arena x
  sound : ∀ block, F.Owns block → ∀ op ∈ (b.arena.block block).ops, F.Sound D b.arena block op
  asserts : ∀ block, F.Owns block → ∀ i op, (b.arena.block block).ops[i]? = some op →
    ∀ e s r, (b.arena.op op).kind = .assertion e s r →
    ∀ name, IsPlainName name → b.arena.nameOf? r = some name → Current b block i name e
  phis : ∀ block, F.Owns block → ∀ phi ∈ (b.arena.block block).phis, F.Joins b.arena phi
  pending : ∀ p ∈ b.scope.pending, F.Owns p.block ∧ p.phi.index < b.arena.ops.size ∧
    b.scope.lookup p.block p.name ≠ none ∧ ∃ r, (b.arena.op p.phi).kind = .phi [] r ∧
      F.Mine b.arena r ∧ (b.arena.operand r).kind.isTemporary ∧ b.arena.nameOf? r = some p.name
  distinct : (b.scope.pending.toList.map PendingPhi.phi).Nodup
  results : ∀ p ∈ b.scope.pending, ∀ q ∈ b.scope.pending, ∀ r,
    (b.arena.op p.phi).kind = .phi [] r → (b.arena.op q.phi).kind = .phi [] r → p = q
  bound : ∀ block, F.Owns block → ∀ name x, b.scope.lookup block name = some x → F.Mine b.arena x
  current : ∀ block, F.Owns block → ∀ name, IsPlainName name → ∀ x,
    b.scope.lookup block name = some x →
    block = b.block ∧ D.version = some x ∧ b.arena.nameOf? x = some name ∨
      Current b block (b.arena.block block).ops.length name x
  written : ∀ block, F.Owns block → ∀ name, IsPlainName name →
    b.arena.lastVersion? name (b.arena.block block).ops ≠ none → b.scope.lookup block name ≠ none
  due : ∀ x ∈ D.version, F.Mine b.arena x ∧
    ∀ name, IsPlainName name → b.arena.nameOf? x = some name →
      b.scope.lookup b.block name = some x
  reads : ∀ r ∈ b.reads.toList.drop F.reads, IsPlainName r.name → F.Owns r.block ∧
    r.index ≤ (b.arena.block r.block).ops.length ∧ Current b r.block r.index r.name r.operand
  gotos : ∀ g ∈ b.scope.gotos, F.Holds b.arena g.2
  labels : ∀ label target, b.scope.labels.get? label = some target → F.Target b.arena target

/-! ## What stays when a body grows -/

/-- A builder for which the invariant holds, and one that comes after it. -/
structure Evolves (F : Base) (D : Due) (b b' : Builder) : Prop where
  inv : Inv F D b
  grows : Grows b.arena b'.arena
  tidy : ∀ x, F.Mine b'.arena x → F.Tidy b'.arena x
  pending : ∀ p ∈ b.scope.pending, p ∈ b'.scope.pending

namespace Evolves

variable {F : Base} {D : Due} {b b' : Builder} (h : Evolves F D b b')
include h

theorem nameOf?_eq {x : OperandId} (hx : F.Mine b.arena x) :
    b'.arena.nameOf? x = b.arena.nameOf? x :=
  (h.inv.tidy x hx).nameOf?_grows (h.tidy x (hx.grows h.grows)) hx.2 h.grows h.inv.tidy

theorem writtenVersion?_eq {block : BlockId} {op : OpId} (hop : F.Sound D b.arena block op)
    (name : String) : b'.arena.writtenVersion? name op = b.arena.writtenVersion? name op := by
  unfold Arena.writtenVersion?
  rw [h.grows.kind op hop.lt]
  refine OpKind.find?_congr fun x hx => ?_
  rw [h.nameOf?_eq (hop.mine x hx)]

theorem lastVersion?_eq {block : BlockId} (hb : F.Owns block) (name : String) :
    b'.arena.lastVersion? name (b.arena.block block).ops =
      b.arena.lastVersion? name (b.arena.block block).ops :=
  Arena.lastVersion?_congr fun op hop => h.writtenVersion?_eq (h.inv.sound block hb op hop) name

theorem lastVersion?_take {block : BlockId} (hb : F.Owns block) (name : String) {index : Nat}
    (hi : index ≤ (b.arena.block block).ops.length) :
    b'.arena.lastVersion? name ((b'.arena.block block).ops.take index) =
      b.arena.lastVersion? name ((b.arena.block block).ops.take index) := by
  obtain ⟨suffix, hops⟩ := h.grows.listed block
  rw [← hops, List.take_append_of_le_length hi]
  exact Arena.lastVersion?_congr fun op hop =>
    h.writtenVersion?_eq (h.inv.sound block hb op (List.mem_of_mem_take hop)) name

/-- What is current at a place stays so. -/
theorem current {block : BlockId} (hb : F.Owns block) {name : String} {index : Nat}
    (hi : index ≤ (b.arena.block block).ops.length) {x : OperandId}
    (hx : Current b block index name x) : Current b' block index name x := by
  unfold Current
  rw [h.lastVersion?_take hb name hi]
  refine hx.imp id ?_
  rintro ⟨hnone, p, hp, hblock, hname, hphi⟩
  refine ⟨hnone, p, h.pending p hp, hblock, hname, ?_⟩
  rw [h.grows.kind p.phi (h.inv.pending p hp).2.1]
  exact hphi

/-- An operation stays sound if the links that are not due any more have been made. -/
theorem sound {D' : Due} (hlinks : ∀ l ∈ D.links, l ∈ D'.links ∨ l.1 ∈ (b'.arena.block l.2).preds)
    {block : BlockId} (hb : F.Owns block) {op : OpId} (hop : op ∈ (b.arena.block block).ops) :
    F.Sound D' b'.arena block op := by
  have hs := h.inv.sound block hb op hop
  have hkind := h.grows.kind op hs.lt
  refine ⟨Nat.lt_of_lt_of_le hs.lt h.grows.ops, ?_, ?_, ?_⟩ <;> rw [hkind]
  · exact hs.noPhi
  · exact fun x hx => (hs.mine x hx).grows h.grows
  · intro target ht
    obtain ⟨htarget, hp | hl⟩ := hs.leads target ht
    · exact ⟨htarget.grows h.grows, .inl (h.grows.preds target hp)⟩
    · exact ⟨htarget.grows h.grows, (hlinks _ hl).symm⟩

theorem assertion {block : BlockId} (hb : F.Owns block) {i : Nat} {op : OpId}
    (hop : (b.arena.block block).ops[i]? = some op) {e r : OperandId} {s : Assertion}
    (hkind : (b'.arena.op op).kind = .assertion e s r) {name : String} (hplain : IsPlainName name)
    (hr : b'.arena.nameOf? r = some name) : Current b' block i name e := by
  have hs := h.inv.sound block hb op (List.mem_of_getElem? hop)
  rw [h.grows.kind op hs.lt] at hkind
  have hmine : F.Mine b.arena r := hs.mine r (by rw [hkind]; exact List.mem_cons_self)
  rw [h.nameOf?_eq hmine] at hr
  have hi := Nat.le_of_lt (List.getElem?_eq_some_iff.1 hop).1
  exact h.current hb hi (h.inv.asserts block hb i op hop e s r hkind name hplain hr)

theorem phi {block : BlockId} (hb : F.Owns block) {phi : OpId}
    (hphi : phi ∈ (b.arena.block block).phis) : F.Joins b'.arena phi := by
  obtain ⟨hlt, hresult⟩ := h.inv.phis block hb phi hphi
  refine ⟨Nat.lt_of_lt_of_le hlt h.grows.ops, fun vars r hkind => ?_⟩
  rw [h.grows.kind phi hlt] at hkind
  obtain ⟨hmine, hnone⟩ := hresult vars r hkind
  exact ⟨hmine.grows h.grows, (h.nameOf?_eq hmine).trans hnone⟩

theorem isTemporary {x : OperandId} (hx : F.Mine b.arena x)
    (ht : (b.arena.operand x).kind.isTemporary = true) :
    (b'.arena.operand x).kind.isTemporary = true := by
  have hbare := h.grows.bare x hx.2
  generalize (b'.arena.operand x).kind = k' at hbare ⊢
  generalize (b.arena.operand x).kind = k at hbare ht
  cases k <;> cases k' <;> simp_all [OperandKind.bare, OperandKind.isTemporary]

theorem pendingPhi {p : PendingPhi} (hp : p ∈ b.scope.pending)
    (hlookup : b'.scope.lookup p.block p.name ≠ none) :
    F.Owns p.block ∧ p.phi.index < b'.arena.ops.size ∧
      b'.scope.lookup p.block p.name ≠ none ∧ ∃ r, (b'.arena.op p.phi).kind = .phi [] r ∧
        F.Mine b'.arena r ∧ (b'.arena.operand r).kind.isTemporary ∧
        b'.arena.nameOf? r = some p.name := by
  obtain ⟨hb, hlt, -, r, hkind, hmine, htemp, hr⟩ := h.inv.pending p hp
  refine ⟨hb, Nat.lt_of_lt_of_le hlt h.grows.ops, hlookup, r, ?_, hmine.grows h.grows,
    h.isTemporary hmine htemp, (h.nameOf?_eq hmine).trans hr⟩
  rw [h.grows.kind p.phi hlt]
  exact hkind

theorem results : ∀ p ∈ b.scope.pending, ∀ q ∈ b.scope.pending, ∀ r,
    (b'.arena.op p.phi).kind = .phi [] r → (b'.arena.op q.phi).kind = .phi [] r → p = q := by
  intro p hp q hq r
  rw [h.grows.kind p.phi (h.inv.pending p hp).2.1, h.grows.kind q.phi (h.inv.pending q hq).2.1]
  exact h.inv.results p hp q hq r

theorem read {r : Reading} (hr : r ∈ b.reads.toList.drop F.reads) (hplain : IsPlainName r.name) :
    F.Owns r.block ∧ r.index ≤ (b'.arena.block r.block).ops.length ∧
      Current b' r.block r.index r.name r.operand := by
  obtain ⟨hb, hi, hx⟩ := h.inv.reads r hr hplain
  exact ⟨hb, Nat.le_trans hi (h.grows.listed r.block).length_le, h.current hb hi hx⟩

end Evolves

/-! ## Steps that do not matter -/

/-- A step that leaves blocks, bindings and reads alone. -/
structure Quiet (b b' : Builder) : Prop where
  grows : Grows b.arena b'.arena
  ops : ∀ block, (b'.arena.block block).ops = (b.arena.block block).ops
  versions : b'.scope.versions = b.scope.versions
  pending : b'.scope.pending = b.scope.pending
  gotos : b'.scope.gotos = b.scope.gotos
  labels : b'.scope.labels = b.scope.labels
  complete : b'.scope.complete = b.scope.complete
  block : b'.block = b.block
  reads : b'.reads = b.reads

theorem Quiet.lookup {b b' : Builder} (h : Quiet b b') (block : BlockId) (name : String) :
    b'.scope.lookup block name = b.scope.lookup block name := by
  rw [Scope.lookup, Scope.lookup, h.versions]

variable {F : Base} {D D' : Due} {b b' : Builder}

/-- A step that only makes links that are due, or nothing that matters. -/
theorem Inv.settle (h : Inv F D b) (hq : Quiet b b')
    (hphis : ∀ block, F.Owns block → ∀ phi ∈ (b'.arena.block block).phis,
      phi ∈ (b.arena.block block).phis ∨ F.Joins b'.arena phi)
    (htidy : ∀ x, F.Mine b'.arena x → F.Tidy b'.arena x)
    (hstart : (b'.arena.block F.entry).preds = []) (hversion : D'.version = D.version)
    (hlinks : ∀ l ∈ D.links, l ∈ D'.links ∨ l.1 ∈ (b'.arena.block l.2).preds) : Inv F D' b' := by
  have hg := hq.grows
  have he : Evolves F D b b' := ⟨h, hg, htidy, by rw [hq.pending]; exact fun _ hp => hp⟩
  constructor
  case entry => exact h.entry
  case blocks => exact Nat.le_trans h.blocks hg.blocks
  case operands => exact Nat.le_trans h.operands hg.operands
  case readsSize => rw [hq.reads]; exact h.readsSize
  case here => rw [hq.block]; exact h.here.grows hg
  case building => rw [hq.complete]; exact h.building
  case start => exact hstart
  case tidy => exact htidy
  case sound =>
    intro block hb op hop
    rw [hq.ops] at hop
    exact he.sound hlinks hb hop
  case asserts =>
    intro block hb i op hop e s r hkind name hplain hr
    rw [hq.ops] at hop
    exact he.assertion hb hop hkind hplain hr
  case phis =>
    intro block hb phi hphi
    rcases hphis block hb phi hphi with hold | hjoins
    · exact he.phi hb hold
    · exact hjoins
  case pending =>
    intro p hp
    rw [hq.pending] at hp
    refine he.pendingPhi hp ?_
    rw [hq.lookup]
    exact (h.pending p hp).2.2.1
  case distinct => rw [hq.pending]; exact h.distinct
  case results =>
    rw [hq.pending]
    exact he.results
  case bound =>
    intro block hb name x hx
    rw [hq.lookup] at hx
    exact (h.bound block hb name x hx).grows hg
  case current =>
    intro block hb name hplain x hx
    rw [hq.lookup] at hx
    rw [hq.block, hq.ops, he.nameOf?_eq (h.bound block hb name x hx), hversion]
    exact (h.current block hb name hplain x hx).imp_right (he.current hb (Nat.le_refl _))
  case written =>
    intro block hb name hplain
    rw [hq.lookup, hq.ops, he.lastVersion?_eq hb]
    exact h.written block hb name hplain
  case due =>
    intro x hx
    rw [hversion] at hx
    obtain ⟨hmine, hlookup⟩ := h.due x hx
    refine ⟨hmine.grows hg, fun name hplain hr => ?_⟩
    rw [he.nameOf?_eq hmine] at hr
    rw [hq.block, hq.lookup]
    exact hlookup name hplain hr
  case reads =>
    intro r hr hplain
    rw [hq.reads] at hr
    exact he.read hr hplain
  case gotos =>
    rw [hq.gotos]
    exact fun g hgoto => (h.gotos g hgoto).grows hg
  case labels =>
    rw [hq.labels]
    exact fun label target ht => (h.labels label target ht).grows hg

theorem Inv.quiet (h : Inv F D b) (hq : Quiet b b')
    (hphis : ∀ block, (b'.arena.block block).phis = (b.arena.block block).phis)
    (htidy : ∀ x, F.Mine b'.arena x → F.Tidy b'.arena x)
    (hpreds : (b'.arena.block F.entry).preds = (b.arena.block F.entry).preds) : Inv F D b' := by
  refine h.settle hq (fun block _ phi hphi => ?_) htidy (hpreds.trans h.start) rfl fun _ => .inl
  rw [hphis] at hphi
  exact .inl hphi

/-! ## Placing operations -/

theorem ops_append {a : Arena} {block : BlockId} (hblock : block.index < a.blocks.size) (op : OpId)
    (other : BlockId) :
    ((a.append block op).block other).ops =
      if other = block then (a.block other).ops ++ [op] else (a.block other).ops := by
  rw [Arena.append, Arena.block_modifyOp, Arena.block_modifyBlock_of_lt hblock]
  split <;> rfl

theorem kind_append (a : Arena) (block : BlockId) (op other : OpId) :
    ((a.append block op).op other).kind = (a.op other).kind :=
  Arena.op_modifyOp_keep _ Op.kind _ _ fun _ => rfl

theorem preds_append (a : Arena) (block : BlockId) (op : OpId) (other : BlockId) :
    ((a.append block op).block other).preds = (a.block other).preds :=
  Arena.block_modifyBlock_keep _ Block.preds _ _ fun _ => rfl

theorem phis_append (a : Arena) (block : BlockId) (op : OpId) (other : BlockId) :
    ((a.append block op).block other).phis = (a.block other).phis :=
  Arena.block_modifyBlock_keep _ Block.phis _ _ fun _ => rfl

theorem dead_append (a : Arena) (block : BlockId) (op : OpId) (other : BlockId) :
    ((a.append block op).block other).dead = (a.block other).dead :=
  Arena.block_modifyBlock_keep _ Block.dead _ _ fun _ => rfl

theorem grows_append {a : Arena} {block : BlockId} (hblock : block.index < a.blocks.size)
    (op : OpId) : Grows a (a.append block op) where
  operands := Nat.le_refl _
  ops := by simp [Arena.append]
  blocks := by simp [Arena.append]
  bare _ _ := rfl
  kind other _ := kind_append a block op other
  listed other := by
    rw [ops_append hblock]
    split
    · exact List.prefix_append ..
    · exact List.prefix_rfl
  preds other := by rw [preds_append]; exact List.Subset.refl _
  dead other _ := dead_append a block op other

/-- What an operation must be like that is put at the end of a block: it stands in no φ list, belongs to
the function, leads where the function may lead, writes the version that is due, if there is one, and
no other, and asserts something of current versions only. -/
structure Appendable (F : Base) (D : Due) (b : Builder) (block : BlockId) (op : OpId) : Prop where
  holds : F.Holds b.arena block
  lt : op.index < b.arena.ops.size
  noPhi : ∀ vars result, (b.arena.op op).kind ≠ .phi vars result
  mine : ∀ x ∈ (b.arena.op op).kind.mentioned true, F.Mine b.arena x
  targets : ∀ target ∈ (b.arena.op op).kind.successors, F.Target b.arena target
  here : D.version ≠ none → block = b.block
  writes : ∀ name, IsPlainName name → b.arena.writtenVersion? name op =
    D.version.filter fun x => b.arena.nameOf? x = some name
  asserts : ∀ e s r, (b.arena.op op).kind = .assertion e s r → ∀ name, IsPlainName name →
    b.arena.nameOf? r = some name → Current b block (b.arena.block block).ops.length name e

namespace Appendable

variable {block other : BlockId} {op : OpId} {name : String} {x : OperandId}
variable (hop : Appendable F D b block op) (h : Inv F D b)
include hop h

theorem evolves : Evolves F D b { b with arena := b.arena.append block op } := by
  have hg := grows_append hop.holds.2 op
  exact ⟨h, hg, fun x hx => (h.tidy x hx).grows hg rfl rfl rfl, fun _ hp => hp⟩

theorem writtenVersion?_append (name : String) :
    (b.arena.append block op).writtenVersion? name op = b.arena.writtenVersion? name op := by
  unfold Arena.writtenVersion?
  rw [kind_append]
  refine OpKind.find?_congr fun x hx => ?_
  rw [(hop.evolves h).nameOf?_eq (hop.mine x hx)]

/-- What is written last in the block is what was due, or what was written last before. -/
theorem lastVersion?_append (hname : IsPlainName name) :
    (b.arena.append block op).lastVersion? name ((b.arena.append block op).block block).ops =
      (D.version.filter fun x => b.arena.nameOf? x = some name).or
        (b.arena.lastVersion? name (b.arena.block block).ops) := by
  rw [ops_append hop.holds.2, if_pos rfl, Arena.lastVersion?_append, hop.writtenVersion?_append h,
    hop.writes name hname, (hop.evolves h).lastVersion?_eq hop.holds.1]

/-- The version that was due is the one that is bound. -/
theorem lookup_of_due (hname : IsPlainName name)
    (hx : (D.version.filter fun x => b.arena.nameOf? x = some name) = some x) :
    b.scope.lookup block name = some x := by
  obtain ⟨hversion, hx⟩ := Option.filter_eq_some_iff.1 hx
  rw [hop.here (by rw [hversion]; exact Option.some_ne_none x)]
  exact (h.due x hversion).2 name hname (of_decide_eq_true hx)

/-- The new operation is sound, and the others stay so. -/
theorem sound (hother : F.Owns other) {o : OpId}
    (ho : o ∈ ((b.arena.append block op).block other).ops) :
    F.Sound ⟨none, D.links ++ (b.arena.op op).kind.successors.map (block, ·)⟩
      (b.arena.append block op) other o := by
  have hg := grows_append hop.holds.2 op
  have hold : o ∈ (b.arena.block other).ops →
      F.Sound ⟨none, D.links ++ (b.arena.op op).kind.successors.map (block, ·)⟩
        (b.arena.append block op) other o :=
    (hop.evolves h).sound (fun l hl => .inl (List.mem_append_left _ hl)) hother
  rw [ops_append hop.holds.2] at ho
  split at ho
  case isFalse => exact hold ho
  case isTrue hblock =>
    rcases List.mem_append.1 ho with ho | ho
    · exact hold ho
    · rw [List.mem_singleton.1 ho, hblock]
      refine ⟨Nat.lt_of_lt_of_le hop.lt hg.ops, ?_, ?_, ?_⟩ <;> rw [kind_append]
      · exact hop.noPhi
      · exact fun x hx => (hop.mine x hx).grows hg
      · intro target ht
        exact ⟨(hop.targets target ht).grows hg,
          .inr (List.mem_append_right _ (List.mem_map.2 ⟨target, ht, rfl⟩))⟩

/-- What the new operation asserts is current where it stands, as it is for the others. -/
theorem current_of_assertion (hother : F.Owns other) {i : Nat} {o : OpId} {e r : OperandId}
    {s : Assertion} (ho : ((b.arena.append block op).block other).ops[i]? = some o)
    (hkind : ((b.arena.append block op).op o).kind = .assertion e s r) (hname : IsPlainName name)
    (hr : (b.arena.append block op).nameOf? r = some name) :
    Current { b with arena := b.arena.append block op } other i name e := by
  have he := hop.evolves h
  rw [ops_append hop.holds.2] at ho
  split at ho
  case isFalse => exact he.assertion hother ho hkind hname hr
  case isTrue hblock =>
    subst hblock
    rw [List.getElem?_append] at ho
    split at ho
    · exact he.assertion hother ho hkind hname hr
    · rename_i hge
      have hi : i = (b.arena.block other).ops.length := by
        have := (List.getElem?_eq_some_iff.1 ho).1
        rw [List.length_singleton] at this
        omega
      rw [hi, Nat.sub_self] at ho
      cases ho
      rw [kind_append] at hkind
      have hmine : F.Mine b.arena r := hop.mine r (by rw [hkind]; exact List.mem_cons_self)
      rw [he.nameOf?_eq hmine] at hr
      rw [hi]
      exact he.current hother (Nat.le_refl _) (hop.asserts e s r hkind name hname hr)

/-- What is bound is current at the end of its block: no version is due any more. -/
theorem current_of_lookup (hother : F.Owns other) (hname : IsPlainName name)
    (hx : b.scope.lookup other name = some x) :
    Current { b with arena := b.arena.append block op } other
      ((b.arena.append block op).block other).ops.length name x := by
  have he := hop.evolves h
  have hold := h.current other hother name hname x hx
  by_cases hblock : other = block
  · subst hblock
    unfold Current
    rw [List.take_length, hop.lastVersion?_append h hname]
    cases hdue : D.version.filter fun x => b.arena.nameOf? x = some name with
    | some y =>
      rw [hop.lookup_of_due h hname hdue] at hx
      exact .inl hx
    | none =>
      rcases hold with ⟨-, hversion, hx⟩ | hold
      · rw [hversion, Option.filter_some, if_pos (decide_eq_true hx)] at hdue
        cases hdue
      · have hcurrent := he.current hother (Nat.le_refl _) hold
        rw [Option.none_or, ← he.lastVersion?_eq hother name]
        unfold Current at hcurrent
        rwa [ops_append hop.holds.2, if_pos rfl, List.take_left] at hcurrent
  · rw [ops_append hop.holds.2, if_neg hblock]
    rcases hold with ⟨hhere, hversion, -⟩ | hold
    · have hne : D.version ≠ none := by
        rw [hversion]
        exact Option.some_ne_none x
      exact absurd (hhere.trans (hop.here hne).symm) hblock
    · exact he.current hother (Nat.le_refl _) hold

/-- What is written in a block is bound there. -/
theorem lookup_of_written (hother : F.Owns other) (hname : IsPlainName name)
    (hwritten : (b.arena.append block op).lastVersion? name
      ((b.arena.append block op).block other).ops ≠ none) : b.scope.lookup other name ≠ none := by
  by_cases hblock : other = block
  · subst hblock
    rw [hop.lastVersion?_append h hname] at hwritten
    cases hdue : D.version.filter fun x => b.arena.nameOf? x = some name with
    | some y =>
      rw [hop.lookup_of_due h hname hdue]
      exact Option.some_ne_none y
    | none =>
      rw [hdue, Option.none_or] at hwritten
      exact h.written other hother name hname hwritten
  · rw [ops_append hop.holds.2, if_neg hblock, (hop.evolves h).lastVersion?_eq hother] at hwritten
    exact h.written other hother name hname hwritten

end Appendable

/-- An operation is put at the end of a block. No version is due after it, but the links that it makes
are. -/
theorem Inv.append (h : Inv F D b) {block : BlockId} {op : OpId} (hop : Appendable F D b block op) :
    Inv F ⟨none, D.links ++ (b.arena.op op).kind.successors.map (block, ·)⟩
      { b with arena := b.arena.append block op } := by
  have he := hop.evolves h
  have hg := he.grows
  constructor
  case entry => exact h.entry
  case blocks => exact Nat.le_trans h.blocks hg.blocks
  case operands => exact h.operands
  case readsSize => exact h.readsSize
  case here => exact h.here.grows hg
  case building => exact h.building
  case start => rw [preds_append]; exact h.start
  case tidy => exact he.tidy
  case sound => exact fun other hother o ho => hop.sound h hother ho
  case asserts =>
    exact fun other hother i o ho e s r hkind name hname hr =>
      hop.current_of_assertion h hother ho hkind hname hr
  case phis =>
    intro other hother phi hphi
    rw [phis_append] at hphi
    exact he.phi hother hphi
  case pending => exact fun p hp => he.pendingPhi hp (h.pending p hp).2.2.1
  case distinct => exact h.distinct
  case results => exact he.results
  case bound => exact fun other hother name x hx => (h.bound other hother name x hx).grows hg
  case current =>
    exact fun other hother name hname x hx => .inr (hop.current_of_lookup h hother hname hx)
  case written => exact fun other hother name hname => hop.lookup_of_written h hother hname
  case due => exact fun x hx => absurd hx (Option.not_mem_none x)
  case reads => exact fun r hr hname => he.read hr hname
  case gotos => exact fun g hgoto => (h.gotos g hgoto).grows hg
  case labels => exact fun label target ht => (h.labels label target ht).grows hg

/-! ## Binding versions -/

theorem Scope.lookup_bind (s : Scope) (block other : BlockId) (name n : String) (x : OperandId) :
    (s.bind block name x).lookup other n =
      if other = block ∧ n = name then some x else s.lookup other n := by
  simp only [Scope.lookup, Scope.bind, Std.TreeMap.getD_insert, Std.LawfulEqCmp.compare_eq_iff_eq]
  by_cases hblock : other = block
  · subst hblock
    rw [if_pos rfl, Std.TreeMap.get?_eq_getElem?, Std.TreeMap.getElem?_insert]
    by_cases hn : n = name
    · simp [hn]
    · simp [hn, Ne.symm hn]
  · have hindex : ¬block.index = other.index := fun h => hblock (BlockId.ext_iff'.1 h.symm)
    simp [hblock, hindex]

theorem Scope.lookup_bind_ne_none {s : Scope} {block other : BlockId} {name n : String}
    {x : OperandId} (h : s.lookup other n ≠ none) : (s.bind block name x).lookup other n ≠ none := by
  rw [lookup_bind]
  split
  · exact Option.some_ne_none x
  · exact h

/-- A version of a variable is bound in the current block; the operation that writes it is due. -/
theorem Inv.bindVersion (h : Inv F D b) (hnone : D.version = none) {name : String} {x : OperandId}
    (hx : F.Mine b.arena x) (hname : b.arena.nameOf? x = some name) :
    Inv F ⟨some x, D.links⟩ { b with scope := b.scope.bind b.block name x } := by
  have hlookup := Scope.lookup_bind b.scope b.block
  constructor
  case entry => exact h.entry
  case blocks => exact h.blocks
  case operands => exact h.operands
  case readsSize => exact h.readsSize
  case here => exact h.here
  case building => exact h.building
  case start => exact h.start
  case tidy => exact h.tidy
  case sound => exact fun block hb op hop => ⟨(h.sound block hb op hop).lt,
      (h.sound block hb op hop).noPhi, (h.sound block hb op hop).mine,
      (h.sound block hb op hop).leads⟩
  case asserts => exact h.asserts
  case phis => exact h.phis
  case pending =>
    intro p hp
    obtain ⟨hb, hlt, hbound, hr⟩ := h.pending p hp
    exact ⟨hb, hlt, Scope.lookup_bind_ne_none hbound, hr⟩
  case distinct => exact h.distinct
  case results => exact h.results
  case bound =>
    intro block hb n y hy
    rw [hlookup] at hy
    split at hy
    · cases hy
      exact hx
    · exact h.bound block hb n y hy
  case current =>
    intro block hb n hplain y hy
    rw [hlookup] at hy
    split at hy
    case isTrue heq =>
      cases hy
      exact .inl ⟨heq.1, rfl, heq.2 ▸ hname⟩
    case isFalse =>
      rcases h.current block hb n hplain y hy with ⟨-, hversion, -⟩ | hold
      · rw [hnone] at hversion
        cases hversion
      · exact .inr hold
  case written =>
    exact fun block hb n hplain hne => Scope.lookup_bind_ne_none (h.written block hb n hplain hne)
  case due =>
    intro y hy
    cases hy
    refine ⟨hx, fun n _ hn => ?_⟩
    obtain rfl : name = n := Option.some.inj (hname.symm.trans hn)
    rw [hlookup, if_pos ⟨rfl, rfl⟩]
  case reads => exact h.reads
  case gotos => exact h.gotos
  case labels => exact h.labels

/-- The scope after a φ without operands was put down as waiting and bound in a block. -/
def Scope.await (s : Scope) (block : BlockId) (name : String) (phi : OpId) (r : OperandId) : Scope :=
  ({ s with pending := s.pending.push ⟨block, name, phi⟩ } : Scope).bind block name r

/-- What a φ must be like that is to wait for its operands: it has none yet, its result is a version of
the variable and belongs to the function, no other φ that waits is the same or has the same result,
and the variable is not bound in the current block. -/
structure Awaitable (F : Base) (b : Builder) (name : String) (phi : OpId) (r : OperandId) : Prop where
  unbound : b.scope.lookup b.block name = none
  lt : phi.index < b.arena.ops.size
  kind : (b.arena.op phi).kind = .phi [] r
  mine : F.Mine b.arena r
  temporary : (b.arena.operand r).kind.isTemporary = true
  named : b.arena.nameOf? r = some name
  other : ∀ p ∈ b.scope.pending, p.phi ≠ phi ∧ (b.arena.op p.phi).kind ≠ .phi [] r

/-- A φ more that waits leaves all else. -/
theorem Inv.evolves_await (h : Inv F D b) (name : String) (phi : OpId) (r : OperandId) :
    Evolves F D b { b with scope := b.scope.await b.block name phi r } :=
  ⟨h, .refl _, h.tidy, fun _ hp => Array.mem_push.2 (.inl hp)⟩

namespace Awaitable

variable {block : BlockId} {name n : String} {phi : OpId} {r x : OperandId}
variable (hphi : Awaitable F b name phi r) (h : Inv F D b)
include hphi h

/-- The result of the new φ is not that of another one. -/
theorem eq_of_result {p q : PendingPhi} {s : OperandId}
    (hp : p ∈ (b.scope.await b.block name phi r).pending)
    (hq : q ∈ (b.scope.await b.block name phi r).pending)
    (hps : (b.arena.op p.phi).kind = .phi [] s) (hqs : (b.arena.op q.phi).kind = .phi [] s) :
    p = q := by
  have hfresh {o : PendingPhi} (ho : o ∈ b.scope.pending)
      (hos : (b.arena.op o.phi).kind = .phi [] s) : (b.arena.op phi).kind ≠ .phi [] s := by
    intro hs
    cases hphi.kind.symm.trans hs
    exact (hphi.other o ho).2 hos
  rcases Array.mem_push.1 hp with hp | rfl <;> rcases Array.mem_push.1 hq with hq | rfl
  · exact h.results p hp q hq s hps hqs
  · exact absurd hqs (hfresh hp hps)
  · exact absurd hps (hfresh hq hqs)
  · rfl

/-- What is bound is current at the end of its block: the φ where it waits, as nothing was written
there, and the others as before. -/
theorem current_of_lookup (hversion : D.version = none) (hblock : F.Owns block)
    (hname : IsPlainName n)
    (hx : (b.scope.await b.block name phi r).lookup block n = some x) :
    Current { b with scope := b.scope.await b.block name phi r } block
      (b.arena.block block).ops.length n x := by
  rw [Scope.await, Scope.lookup_bind] at hx
  split at hx
  case isTrue heq =>
    obtain ⟨rfl, rfl⟩ := heq
    cases hx
    refine .inr ⟨?_, ⟨b.block, n, phi⟩, Array.mem_push.2 (.inr rfl), rfl, rfl, hphi.kind⟩
    rw [List.take_length]
    exact Decidable.of_not_not fun hne => h.written _ hblock n hname hne hphi.unbound
  case isFalse =>
    rcases h.current block hblock n hname x hx with ⟨-, hdue, -⟩ | hold
    · rw [hversion] at hdue
      cases hdue
    · exact (h.evolves_await name phi r).current hblock (Nat.le_refl _) hold

end Awaitable

/-- A φ that waits for its operands is bound in the current block, where no version was. -/
theorem Inv.bindPhi (h : Inv F D b) (hversion : D.version = none) {name : String} {phi : OpId}
    {r : OperandId} (hphi : Awaitable F b name phi r) :
    Inv F D { b with scope := b.scope.await b.block name phi r } := by
  have he := h.evolves_await name phi r
  constructor
  case entry => exact h.entry
  case blocks => exact h.blocks
  case operands => exact h.operands
  case readsSize => exact h.readsSize
  case here => exact h.here
  case building => exact h.building
  case start => exact h.start
  case tidy => exact h.tidy
  case sound => exact h.sound
  case asserts =>
    intro block hb i op hop e s r' hk n hplain hr'
    exact he.assertion hb hop hk hplain hr'
  case phis => exact h.phis
  case pending =>
    intro p hp
    rcases Array.mem_push.1 hp with hp | rfl
    · exact he.pendingPhi hp (Scope.lookup_bind_ne_none (h.pending p hp).2.2.1)
    · refine ⟨h.here.1, hphi.lt, ?_, r, hphi.kind, hphi.mine, hphi.temporary, hphi.named⟩
      rw [Scope.await, Scope.lookup_bind, if_pos ⟨rfl, rfl⟩]
      exact Option.some_ne_none r
  case distinct =>
    rw [Scope.await, Scope.bind, Array.toList_push, List.map_append, List.map_singleton]
    refine List.nodup_append.2 ⟨h.distinct, List.pairwise_singleton _ _, ?_⟩
    intro o ho o' ho' heq
    obtain ⟨p, hp, rfl⟩ := List.mem_map.1 ho
    rw [List.mem_singleton.1 ho'] at heq
    exact (hphi.other p (Array.mem_toList_iff.1 hp)).1 heq
  case results =>
    intro p hp q hq s hps hqs
    exact hphi.eq_of_result h hp hq hps hqs
  case bound =>
    intro block hb n y hy
    rw [Scope.await, Scope.lookup_bind] at hy
    split at hy
    · cases hy
      exact hphi.mine
    · exact h.bound block hb n y hy
  case current =>
    exact fun block hb n hplain y hy => .inr (hphi.current_of_lookup h hversion hb hplain hy)
  case written =>
    exact fun block hb n hplain hne => Scope.lookup_bind_ne_none (h.written block hb n hplain hne)
  case due =>
    intro y hy
    rw [hversion] at hy
    cases hy
  case reads => exact fun r hr hplain => he.read hr hplain
  case gotos => exact h.gotos
  case labels => exact h.labels

/-! ## Other steps -/

/-- Lowering goes on in another block. -/
theorem Inv.goTo (h : Inv F D b) (hversion : D.version = none) {block : BlockId}
    (hblock : F.Holds b.arena block) : Inv F D { b with block } :=
  { h with
    here := hblock
    current := fun other hb name hplain x hx => by
      rcases h.current other hb name hplain x hx with ⟨-, hv, -⟩ | hold
      · rw [hversion] at hv
        cases hv
      · exact .inr hold
    due := fun x hx => by
      rw [hversion] at hx
      cases hx }

/-- A read is recorded. -/
theorem Inv.pushRead (h : Inv F D b) {name : String} {x : OperandId}
    (hx : IsPlainName name → Current b b.block (b.arena.block b.block).ops.length name x) :
    Inv F D { b with
      reads := b.reads.push ⟨b.block, (b.arena.block b.block).ops.length, name, x⟩ } :=
  { h with
    readsSize := by
      rw [Array.size_push]
      exact Nat.le_succ_of_le h.readsSize
    reads := fun r hr hplain => by
      rw [Array.toList_push, List.drop_append_of_le_length h.readsSize] at hr
      rcases List.mem_append.1 hr with hr | hr
      · exact h.reads r hr hplain
      · rw [List.mem_singleton.1 hr] at hplain ⊢
        exact ⟨h.here.1, Nat.le_refl _, hx hplain⟩ }

/-- Labels are met and jumps to labels wait. -/
theorem Inv.changeLabels (h : Inv F D b) (gotos : List (String × BlockId))
    (labels : Std.TreeMap String BlockId) (hgotos : ∀ g ∈ gotos, F.Holds b.arena g.2)
    (hlabels : ∀ label target, labels.get? label = some target → F.Target b.arena target) :
    Inv F D { b with scope := { b.scope with gotos, labels } } :=
  { h with gotos := hgotos, labels := hlabels }

end Lower

end QueryTaint
