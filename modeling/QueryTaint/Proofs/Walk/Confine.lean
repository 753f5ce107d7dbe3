import QueryTaint.Proofs.Origin.Entry
import QueryTaint.Proofs.Walk.Stack

/-!
# Entries that walks cannot leave

Some entries of a program confine walks (`Terrain.Confines`) if they mention each other only, null is
among them, and every function that a name can stand for in a function among them is among them as
well. A walk from such a function runs operations among them only (`Terrain.confined_of_walks`): what
overrides name, where callers go on, and what a closure captured are among them at every time, so a
call cannot be resolved to a function elsewhere.
-/

namespace QueryTaint

/-! ## What operations mention -/

namespace OpKind

theorem mem_blocks_of_mem_exits {kind : OpKind} {target : BlockId} {choice : Option Choice}
    (h : (target, choice) ∈ Explorer.exits kind) : target ∈ kind.blocks := by
  cases kind with
  | jump => simp_all [Explorer.exits]
  | jumpIf =>
    simp only [Explorer.exits, List.mem_cons, Prod.mk.injEq, List.not_mem_nil, or_false] at h
    rcases h with ⟨rfl, -⟩ | ⟨rfl, -⟩ <;> simp
  | switch subject cases targets otherwise =>
    rcases List.mem_append.1 h with h | h
    · obtain ⟨⟨value, target⟩, hmem, heq⟩ := List.mem_map.1 h
      cases heq
      simpa using .inl (List.of_mem_zip hmem).2
    · simp_all
  | _ => cases h

end OpKind

namespace Terrain

theorem mem_blocks_of_mem_arms (t : Terrain) (w : Walk) {kind : OpKind} {arm : Arm}
    (h : arm ∈ t.arms w kind) : arm.target ∈ kind.blocks := by
  cases kind with
  | jumpIf =>
    simp only [arms, List.mem_cons, List.not_mem_nil, or_false] at h
    rcases h with rfl | rfl <;> simp
  | switch subject cases targets otherwise =>
    rcases List.mem_append.1 h with h | h
    · obtain ⟨⟨value, target⟩, hmem, rfl⟩ := List.mem_map.1 h
      simpa using .inl (List.of_mem_zip hmem).2
    · simp_all
  | _ => cases h

end Terrain

/-! ## Values -/

namespace Overrides

variable {R : Set Entry} {o : Overrides}

/-- What operands stand for is among some entries. -/
def Within (R : Set Entry) (o : Overrides) : Prop := ∀ x y, o.get? x = some y → .operand y ∈ R

theorem Within.empty : Within R {} := by
  intro x y h
  cases (show ({} : Overrides).get? x = none from Std.TreeMap.getElem?_emptyc).symm.trans h

theorem Within.resolve (h : o.Within R) {id : OperandId} (hid : .operand id ∈ R) :
    .operand (o.resolve id) ∈ R := by
  rw [Overrides.resolve]
  cases hget : o.get? id with
  | none => exact hid
  | some next => exact h id next hget

theorem Within.follow (h : o.Within R) (steps : Nat) {id : OperandId} (hid : .operand id ∈ R) :
    .operand (o.follow steps id) ∈ R := by
  induction steps generalizing id with
  | zero => exact hid
  | succ steps ih =>
    rw [Overrides.follow]
    split
    · rename_i next hget
      split
      · exact hid
      · exact ih (h id next hget)
    · exact hid

theorem Within.erase (h : o.Within R) (target : OperandId) : Within R (o.erase target) := by
  intro x y hx
  rw [Std.TreeMap.get?_eq_getElem?, Std.TreeMap.getElem?_erase] at hx
  split at hx
  · cases hx
  · exact h x y hx

theorem Within.bind (h : o.Within R) (target : OperandId) {source : Option OperandId}
    (hsource : ∀ x ∈ source, .operand x ∈ R) : (o.bind target source).Within R := by
  unfold Overrides.bind
  cases source with
  | none => exact h.erase target
  | some id =>
    dsimp only [Option.map_some]
    split
    · exact h.erase target
    · intro x y hx
      rw [Std.TreeMap.get?_eq_getElem?, Std.TreeMap.getElem?_insert] at hx
      split at hx
      · exact Option.some.inj hx ▸ h.resolve (hsource id rfl)
      · exact h x y hx

end Overrides

/-! ## Whom a call calls -/

namespace Resolver

variable {r : Resolver} {script : Nat} {R : Set Entry}

section Named

variable (hnamed : ∀ k ∈ r.visibleOf script, ∀ name g, (r.namesOf k).get? name = some g → .func g ∈ R)
include hnamed

theorem lookup?_mem {name : String} {g : FuncId} (h : r.lookup? script name = some g) :
    .func g ∈ R := by
  obtain ⟨k, hk, hget⟩ := List.exists_of_findSome?_eq_some h
  exact hnamed k hk _ g hget

theorem mem_of_mem_toList {k : Nat} (hk : k ∈ r.visibleOf script) {entry : String × FuncId}
    (h : entry ∈ (r.namesOf k).toList) : .func entry.2 ∈ R :=
  hnamed k hk entry.1 entry.2 (Std.TreeMap.mem_toList_iff_getElem?_eq_some.1 h)

theorem search?_mem {fits : String → Bool} {g : FuncId} (h : r.search? script fits = some g) :
    .func g ∈ R := by
  obtain ⟨k, hk, hfind⟩ := List.exists_of_findSome?_eq_some h
  obtain ⟨entry, hentry, rfl⟩ := Option.map_eq_some_iff.1 hfind
  exact mem_of_mem_toList hnamed hk (List.mem_of_find?_eq_some hentry)

theorem uniqueMethod?_mem {method : String} {g : FuncId}
    (h : r.uniqueMethod? script method = some g) : .func g ∈ R := by
  unfold uniqueMethod? at h
  dsimp only at h
  split at h
  · cases h
  · rename_i func rest hfound
    split at h
    · cases h
      obtain ⟨k, hk, hmem⟩ := List.mem_flatMap.1 (hfound ▸ List.mem_cons_self : g ∈ _)
      obtain ⟨entry, hentry, rfl⟩ := List.mem_map.1 hmem
      exact mem_of_mem_toList hnamed hk (List.mem_filter.1 hentry).1
    · cases h

theorem function?_mem {name : String} {g : FuncId} (h : r.function? script name = some g) :
    .func g ∈ R := by
  rcases Option.or_eq_some_iff.1 h with h | ⟨-, h⟩
  · exact lookup?_mem hnamed h
  · exact search?_mem hnamed h

theorem method?_mem {cls : Option String} {method : String} {g : FuncId}
    (h : r.method? script cls method = some g) : .func g ∈ R := by
  rcases Option.or_eq_some_iff.1 h with h | ⟨-, h⟩
  · obtain ⟨cls, -, h⟩ := Option.bind_eq_some_iff.1 h
    rcases Option.or_eq_some_iff.1 h with h | ⟨-, h⟩
    · exact lookup?_mem hnamed h
    · exact search?_mem hnamed h
  · exact uniqueMethod?_mem hnamed h

end Named

theorem closureWithin?_mem (hwithin : ∀ e ∈ R, r.arena.Within R e) {overrides : Overrides}
    (ho : overrides.Within R) (steps : Nat) {id : OperandId} (hid : .operand id ∈ R) {g : FuncId}
    (h : r.closureWithin? overrides steps id = some g) : .func g ∈ R := by
  induction steps generalizing id with
  | zero => cases h
  | succ steps ih =>
    obtain ⟨op, hop, h⟩ := Option.bind_eq_some_iff.1 h
    have hid := ho.follow maxChain hid
    have hop : .op op ∈ R := by
      rcases List.mem_append.1 (List.mem_of_head? hop) with hop | hop
      · exact (hwithin _ hid).defs op hop
      · exact (hwithin _ (Arena.valueOf_mem hwithin hid)).defs op hop
    have hkind : (r.arena.op op).kind.Within R := hwithin _ hop
    split at h
    · rename_i func _ _ heq
      rw [heq] at hkind
      exact hkind.2.2 g h
    · rename_i expr _ heq
      rw [heq] at hkind
      exact ih (hkind.1 expr (by simp)) h
    · rename_i expr _ heq
      rw [heq] at hkind
      exact ih (hkind.1 expr (by simp)) h
    · cases h

theorem resolve?_mem (hwithin : ∀ e ∈ R, r.arena.Within R e)
    (hnamed : ∀ k ∈ r.visibleOf script, ∀ name g, (r.namesOf k).get? name = some g → .func g ∈ R)
    {overrides : Overrides} (ho : overrides.Within R) {caller : FuncId} {call : OpId}
    (hcall : .op call ∈ R) {g : FuncId} (h : r.resolve? script caller call overrides = some g) :
    .func g ∈ R := by
  have hkind : (r.arena.op call).kind.Within R := hwithin _ hcall
  unfold resolve? at h
  split at h
  · rename_i name _ _ heq
    rw [heq] at hkind
    split at h
    · exact function?_mem hnamed h
    · exact closureWithin?_mem hwithin ho maxChain (hkind.1 name (by simp)) h
  · obtain ⟨_, -, h⟩ := Option.bind_eq_some_iff.1 h
    exact method?_mem hnamed h
  · obtain ⟨_, -, h⟩ := Option.bind_eq_some_iff.1 h
    obtain ⟨_, -, h⟩ := Option.bind_eq_some_iff.1 h
    exact method?_mem hnamed h
  · obtain ⟨_, -, h⟩ := Option.bind_eq_some_iff.1 h
    exact lookup?_mem hnamed h
  · cases h

end Resolver

/-! ## Walks -/

/-- Entries that mention each other only, with null and every function that a name can stand for in
a function among them. -/
structure Terrain.Confines (t : Terrain) (R : Set Entry) : Prop where
  within : ∀ e ∈ R, t.arena.Within R e
  null : .operand t.null ∈ R
  named : ∀ f, .func f ∈ R → ∀ script, t.resolver.scriptOf? f = some script →
    ∀ k ∈ t.resolver.visibleOf script, ∀ name g,
      (t.resolver.namesOf k).get? name = some g → .func g ∈ R

/-- What a walk ran, what its operands stand for, and where it is and goes on after calls, are among
some entries. -/
structure Walk.Within (R : Set Entry) (w : Walk) : Prop where
  func : .func w.func ∈ R
  ran : ∀ op, Event.op op ∈ w.events → .op op ∈ R
  overrides : w.overrides.Within R
  frames : ∀ frame ∈ w.frames, .func frame.callerFunc ∈ R ∧ .block frame.resumeBlock ∈ R

namespace Walk.Within

variable {R : Set Entry} {w : Walk}

theorem start {func : FuncId} (h : .func func ∈ R) (invocation : Nat) :
    Walk.Within R { func, invocation } :=
  ⟨h, fun _ hop => by simp at hop, .empty, fun _ hframe => by cases hframe⟩

theorem pushOp (h : w.Within R) {op : OpId} (hop : .op op ∈ R) (result : Option OperandId) :
    (w.pushOp op result).Within R := by
  refine ⟨h.func, fun o ho => ?_, h.overrides, h.frames⟩
  rcases Array.mem_push.1 ho with ho | ho
  · exact h.ran o ho
  · cases ho
    exact hop

theorem bind (h : w.Within R) (via : Option OpId) (target : OperandId) {source : Option OperandId}
    (hsource : ∀ x ∈ source, .operand x ∈ R) : (w.bind via target source).Within R := by
  refine ⟨h.func, fun o ho => ?_, h.overrides.bind target hsource, h.frames⟩
  rcases Array.mem_push.1 ho with ho | ho
  · exact h.ran o ho
  · cases ho

theorem choose (h : w.Within R) (choice : Choice) : (w.choose choice).Within R :=
  ⟨h.func, h.ran, h.overrides, h.frames⟩

theorem chooseAny (h : w.Within R) (choice : Option Choice) : (w.chooseAny choice).Within R := by
  cases choice with
  | none => exact h
  | some choice => exact h.choose choice

end Walk.Within

namespace Explorer

variable {t : Terrain} {R : Set Entry} {w : Walk}

theorem incoming?_mem {slot : Option Nat} {known : Std.TreeSet OperandId} {vars : List OperandId}
    {value : OperandId} (h : incoming? slot known vars = some value) : value ∈ vars := by
  rcases Option.or_eq_some_iff.1 h with h | ⟨-, h⟩
  · rcases Option.or_eq_some_iff.1 h with h | ⟨-, h⟩
    · obtain ⟨i, -, h⟩ := Option.bind_eq_some_iff.1 h
      exact List.mem_of_getElem? h
    · exact List.mem_of_find?_eq_some h
  · exact List.mem_of_head? h

theorem within_commitPhis (hwithin : ∀ e ∈ R, t.arena.Within R e) (h : w.Within R) {block : BlockId}
    (hblock : .block block ∈ R) (source : Option BlockId) :
    (commitPhis t.arena w block source).Within R := by
  have hphis : ∀ phi ∈ (t.arena.block block).phis, .op phi ∈ R := (hwithin _ hblock).phis
  unfold commitPhis
  revert hphis
  generalize (t.arena.block block).phis = phis
  intro hphis
  induction phis generalizing w with
  | nil => exact h
  | cons phi phis ih =>
    rw [List.foldl_cons]
    refine ih ?_ fun p hp => hphis p (List.mem_cons_of_mem _ hp)
    split
    · rename_i vars result heq
      have hkind : (t.arena.op phi).kind.Within R := hwithin _ (hphis phi List.mem_cons_self)
      rw [heq] at hkind
      split
      · rename_i value hvalue
        refine h.bind none result fun x hx => ?_
        cases hx
        exact hkind.1 value (by simp [incoming?_mem hvalue])
      · exact h
    · exact h

theorem within_bindParams (hwithin : ∀ e ∈ R, t.arena.Within R e) (hnull : .operand t.null ∈ R)
    (h : w.Within R) {args : List OperandId} (hargs : ∀ x ∈ args, .operand x ∈ R)
    {params : List OpId} (hparams : ∀ op ∈ params, .op op ∈ R) :
    (bindParams t args w params).Within R := by
  induction params generalizing args w with
  | nil => exact h
  | cons param params ih =>
    rw [bindParams]
    refine ih ?_ (fun x hx => hargs x (List.mem_of_mem_tail hx))
      fun p hp => hparams p (List.mem_cons_of_mem _ hp)
    split
    · rename_i default _ _ _ _ _ result heq
      have hkind : (t.arena.op param).kind.Within R := hwithin _ (hparams param List.mem_cons_self)
      rw [heq] at hkind
      refine h.bind (some param) result fun x hx => ?_
      obtain rfl := Option.some.inj hx
      cases harg : args.head? with
      | some arg => exact hargs arg (List.mem_of_head? harg)
      | none =>
        cases default with
        | none => exact hnull
        | some default => exact hkind.1 default (by simp)
    · exact h

theorem within_bindCaptures (hwithin : ∀ e ∈ R, t.arena.Within R e) (h : w.Within R)
    {callable : Option OpId} (hcallable : ∀ op ∈ callable, .op op ∈ R) :
    (bindCaptures t w callable).Within R := by
  unfold bindCaptures
  split
  · rename_i uses _ hmap
    obtain ⟨op, hop, heq⟩ := Option.map_eq_some_iff.1 hmap
    have hkind : (t.arena.op op).kind.Within R := hwithin _ (hcallable op hop)
    rw [heq] at hkind
    have huses : ∀ x ∈ uses, .operand x ∈ R := fun x hx => hkind.1 x (by simp [hx])
    clear hmap heq hkind
    induction uses generalizing w with
    | nil => exact h
    | cons bound uses ih =>
      rw [List.foldl_cons]
      refine ih ?_ fun x hx => huses x (List.mem_cons_of_mem _ hx)
      split
      · rename_i value _ _ hbound
        refine h.bind none bound fun x hx => ?_
        obtain rfl := Option.some.inj hx
        refine (hwithin _ (huses bound List.mem_cons_self)).links _ ?_
        rw [hbound]
        simp [OperandKind.links]
      · exact h
  · exact h

theorem within_leaveCall (h : w.Within R) {frame : Frame} {rest : List Frame}
    (hframes : w.frames = frame :: rest) (via : Option OpId) {value : Option OperandId}
    (hvalue : ∀ x ∈ value, .operand x ∈ R) : (leaveCall t w frame rest via value).Within R := by
  have hrest : ∀ f ∈ rest, .func f.callerFunc ∈ R ∧ .block f.resumeBlock ∈ R := fun f hf =>
    h.frames f (hframes ▸ List.mem_cons_of_mem _ hf)
  have hleft : Walk.Within R { w with frames := rest, returned := value } :=
    ⟨h.func, h.ran, h.overrides, hrest⟩
  have hcaller := (h.frames frame (hframes ▸ List.mem_cons_self)).1
  unfold leaveCall
  dsimp only
  split
  · exact ⟨hcaller, h.ran, h.overrides, hrest⟩
  · rename_i result _ _
    have hbound := hleft.bind via result hvalue
    exact ⟨hcaller, hbound.ran, hbound.overrides, hbound.frames⟩
  · exact ⟨hcaller, h.ran, h.overrides, hrest⟩

end Explorer

namespace Terrain

variable {t : Terrain} {R : Set Entry} {s : Scope} {w : Walk} {block : BlockId} {index : Nat}
  {op : OpId}

theorem followed?_mem (ht : t.Confines R) (h : w.Within R) (hop : .op op ∈ R) {func : FuncId}
    (hfunc : t.followed? w op = some func) : .func func ∈ R := by
  unfold followed? at hfunc
  split at hfunc
  case isFalse => cases hfunc
  obtain ⟨script, hscript, hfunc⟩ := Option.bind_eq_some_iff.1 hfunc
  obtain ⟨g, hg, hfunc⟩ := Option.bind_eq_some_iff.1 hfunc
  split at hfunc
  · cases hfunc
  · cases hfunc
    exact Resolver.resolve?_mem ht.within (ht.named w.func h.func script hscript) h.overrides hop hg

theorem within_called (ht : t.Confines R) (h : w.Within R) {call : OpId} (hcall : .op call ∈ R)
    {func : FuncId} (hfunc : .func func ∈ R) (hblock : .block block ∈ R) :
    (t.called w call func block index).Within R := by
  have hkind : (t.arena.op call).kind.Within R := ht.within _ hcall
  have hrecord : (t.arena.func func).Within R := ht.within _ hfunc
  have hsupplied : (t.supplied w call func).Within R := by
    refine Explorer.within_bindCaptures ht.within (Explorer.within_bindParams ht.within ht.null h
      (fun x hx => ?_) hrecord.params) hrecord.callable
    exact hkind.1 x (OpKind.mem_operands_of_mem_operandList hx)
  refine ⟨hfunc, hsupplied.ran, hsupplied.overrides, fun frame hframe => ?_⟩
  rcases List.mem_cons.1 hframe with rfl | hframe
  · exact ⟨hsupplied.func, hblock⟩
  · exact hsupplied.frames frame hframe

theorem mem_of_waysOut (hwithin : ∀ e ∈ R, t.arena.Within R e) (hblock : .block block ∈ R)
    {target : BlockId} {choice : Option Choice} (h : (target, choice) ∈ t.waysOut block) :
    .block target ∈ R := by
  unfold waysOut at h
  split at h
  · rename_i op hop
    have hmem := List.mem_of_getLast? (Option.filter_eq_some_iff.1 hop).1
    have hop : .op op ∈ R := (hwithin _ hblock).ops op hmem
    exact (hwithin _ hop).2.1 target (OpKind.mem_blocks_of_mem_exits h)
  · cases h

/-- The operation at a place among some entries is among them. -/
theorem mem_of_op (hwithin : ∀ e ∈ R, t.arena.Within R e) (hblock : .block block ∈ R)
    (h : (t.arena.block block).ops[index]? = some op) : .op op ∈ R :=
  (hwithin _ hblock).ops op (List.mem_of_getElem? h)

/-- Walks that go on by entering a block do not leave some entries. -/
def IntoStays (t : Terrain) (R : Set Entry) (s : Scope) (w : Walk) (block : BlockId)
    (source : Option BlockId) : Prop :=
  w.Within R → .block block ∈ R → ∀ v ∈ t.walksInto s w block source, v.Within R

/-- Walks that go on by running a block do not leave some entries. -/
def FromStays (t : Terrain) (R : Set Entry) (s : Scope) (w : Walk) (block : BlockId) (index : Nat) :
    Prop :=
  w.Within R → .block block ∈ R → ∀ v ∈ t.walksFrom s w block index, v.Within R

/-- Walks that go on by returning do not leave some entries. -/
def BackStays (t : Terrain) (R : Set Entry) (s : Scope) (w : Walk) (via : Option OpId)
    (value : Option OperandId) : Prop :=
  w.Within R → (∀ x ∈ value, .operand x ∈ R) → ∀ v ∈ t.walksBack s w via value, v.Within R

section Cases

variable (ht : t.Confines R)
include ht

theorem intoStays_again {source : Option BlockId} (hlive : ¬(t.arena.block block).dead = true)
    (hseen : block ∈ s.seen)
    (ih : ∀ target choice, target ∉ s.seen →
      IntoStays t R s ((Explorer.commitPhis t.arena w block source).chooseAny choice) target
        (some block)) : IntoStays t R s w block source := by
  intro hw hblock v hv
  rw [t.walksInto_of_seen (Bool.eq_false_iff.2 hlive) hseen] at hv
  obtain ⟨⟨target, choice⟩, hmem, hv⟩ := List.mem_flatMap.1 hv
  obtain ⟨hway, hnew⟩ := List.mem_filter.1 hmem
  simp only [Bool.and_eq_true, decide_eq_true_eq] at hnew
  have hphis := Explorer.within_commitPhis ht.within hw hblock source
  exact ih target choice hnew.1 (hphis.chooseAny choice)
    (mem_of_waysOut ht.within hblock hway) v hv

theorem intoStays_fresh {source : Option BlockId} (hlive : ¬(t.arena.block block).dead = true)
    (hseen : block ∉ s.seen)
    (ih : FromStays t R { s with seen := block :: s.seen }
      (Explorer.commitPhis t.arena w block source) block 0) : IntoStays t R s w block source := by
  intro hw hblock v hv
  rw [walksInto, if_neg hlive, dif_neg hseen] at hv
  exact ih (Explorer.within_commitPhis ht.within hw hblock source) hblock v hv

theorem fromStays_fork (h : (t.arena.block block).ops[index]? = some op)
    (hkind : (∃ cond ifTarget elseTarget, (t.arena.op op).kind = .jumpIf cond ifTarget elseTarget) ∨
      ∃ subject cases targets otherwise,
        (t.arena.op op).kind = .switch subject cases targets otherwise)
    (ih : ∀ arm : Arm, IntoStays t R { s with assumed := s.assumed ++ [arm.assumption] }
      (w.choose arm.choice) arm.target (some block)) : FromStays t R s w block index := by
  intro hw hblock v hv
  have harms : t.walksFrom s w block index = (t.arms w (t.arena.op op).kind).flatMap fun arm =>
      if feasible s.assumed arm.assumption then
        t.walksInto { s with assumed := s.assumed ++ [arm.assumption] } (w.choose arm.choice)
          arm.target (some block)
      else [] := by
    rw [walksFrom_of_op h]
    rcases hkind with ⟨_, _, _, hkind⟩ | ⟨_, _, _, _, hkind⟩ <;> simp only [hkind]
  rw [harms] at hv
  obtain ⟨arm, harm, hv⟩ := List.mem_flatMap.1 hv
  have htarget : .block arm.target ∈ R :=
    (ht.within _ (mem_of_op ht.within hblock h)).2.1 _ (t.mem_blocks_of_mem_arms w harm)
  split at hv
  · exact ih arm (hw.choose arm.choice) htarget v hv
  · cases hv

theorem fromStays_plain (h : (t.arena.block block).ops[index]? = some op)
    (hplain : Explorer.IsPlain (t.arena.op op).kind)
    (hcall : ∀ func, t.followed? (w.pushOp op (t.arena.op op).kind.result?) op = some func →
      FromStays t R ⟨[(t.arena.func func).entry], s.seen :: s.callers, s.assumed⟩
        (t.called (w.pushOp op (t.arena.op op).kind.result?) op func block (index + 1))
        (t.arena.func func).entry 0)
    (hnext : t.followed? (w.pushOp op (t.arena.op op).kind.result?) op = none →
      FromStays t R s (w.pushOp op (t.arena.op op).kind.result?) block (index + 1)) :
    FromStays t R s w block index := by
  intro hw hblock v hv
  have hop := mem_of_op ht.within hblock h
  have hpushed := hw.pushOp hop (t.arena.op op).kind.result?
  rw [Explorer.walksFrom_of_isPlain h hplain] at hv
  split at hv
  · rename_i func hfunc
    have hmem := followed?_mem ht hpushed hop hfunc
    exact hcall func hfunc (within_called ht hpushed hop hmem hblock) (ht.within _ hmem).entry v hv
  · rename_i hfunc
    exact hnext hfunc hpushed hblock v hv

end Cases

theorem backStays_return {via : Option OpId} {value : Option OperandId} {frame : Frame}
    {rest : List Frame} {seen : List BlockId} {callers : List (List BlockId)}
    (hframes : w.frames = frame :: rest) (hs : s.callers = seen :: callers)
    (ih : FromStays t R { s with seen, callers } (Explorer.leaveCall t w frame rest via value)
      frame.resumeBlock frame.resumeIndex) : BackStays t R s w via value := by
  intro hw hvalue v hv
  rw [walksBack_of_call hframes hs] at hv
  exact ih (Explorer.within_leaveCall hw hframes via hvalue)
    (hw.frames frame (hframes ▸ List.mem_cons_self)).2 v hv

/-- Walks do not leave entries that confine them, by induction along the recursive exploration. -/
theorem intoStays (ht : t.Confines R) (s : Scope) (w : Walk) (block : BlockId)
    (source : Option BlockId) : IntoStays t R s w block source := by
  refine (walksInto.mutual_induct t (IntoStays t R) (FromStays t R) (BackStays t R)
    ?_ ?_ ?_ ?_ ?_ ?_ ?_ ?_ ?_ ?_ ?_ ?_ ?_ ?_ ?_).1 s w block source
  · intro s w block source hdead _ _ v hv
    rw [walksInto, if_pos hdead] at hv
    cases hv
  · intro s w block source hlive _ hseen ih
    exact intoStays_again ht hlive hseen ih
  · intro s w block source hlive _ hseen ih
    exact intoStays_fresh ht hlive hseen ih
  · intro s w block index h ih hw _ v hv
    rw [walksFrom_end h] at hv
    exact ih hw (fun _ hx => by cases hx) v hv
  · intro s w block index op h _ target hkind ih hw hblock v hv
    have hop : (t.arena.op op).kind.Within R := ht.within _ (mem_of_op ht.within hblock h)
    simp only [walksFrom_of_op h, show (t.arena.op op).kind = .jump target from hkind] at hv hop
    exact ih hw (hop.2.1 target (by simp)) v hv
  · intro s w block index op h _ cond ifTarget elseTarget hkind ih
    exact fromStays_fork ht h (.inl ⟨_, _, _, hkind⟩) ih
  · intro s w block index op h _ subject cases targets otherwise hkind ih
    exact fromStays_fork ht h (.inr ⟨_, _, _, _, hkind⟩) ih
  · intro s w block index op h _ value hkind ih hw hblock v hv
    have hop : (t.arena.op op).kind.Within R := ht.within _ (mem_of_op ht.within hblock h)
    simp only [walksFrom_of_op h, show (t.arena.op op).kind = .returns value from hkind] at hv hop
    exact ih hw (fun x hx => hop.1 x (by cases hx; simp)) v hv
  · intro s w block index op h _ value hkind hw _ v hv
    simp only [walksFrom_of_op h, show (t.arena.op op).kind = .exit value from hkind] at hv
    exact List.mem_singleton.1 hv ▸ hw
  · intro s w block index op h _ value hkind hw _ v hv
    simp only [walksFrom_of_op h, show (t.arena.op op).kind = .throws value from hkind] at hv
    exact List.mem_singleton.1 hv ▸ hw
  · intro s w block index op h _ _ _ _ _ _ _ _ _ hkind ih hw hblock v hv
    simp only [walksFrom_of_op h, show (t.arena.op op).kind = .param .. from hkind] at hv
    exact ih hw hblock v hv
  · intro s w block index op h _ _ func hfunc _ hjump hif hswitch hreturn hexit hthrow hparam ih
    refine fromStays_plain ht h
      (Explorer.isPlain_of_not hjump hif hswitch hreturn hexit hthrow hparam)
      (fun g hg => ?_) fun hnone => ?_
    · obtain rfl : func = g := Option.some.inj (hfunc.symm.trans hg)
      exact ih
    · cases hfunc.symm.trans hnone
  · intro s w block index op h _ _ hfunc hjump hif hswitch hreturn hexit hthrow hparam ih
    refine fromStays_plain ht h
      (Explorer.isPlain_of_not hjump hif hswitch hreturn hexit hthrow hparam)
      (fun g hg => ?_) fun _ => ih
    cases hfunc.symm.trans hg
  · intro s w via value frame rest seen callers hframes hs ih
    exact backStays_return hframes hs ih
  · intro s w via value h hw _ v hv
    rw [walksBack.eq_def] at hv
    split at hv
    · rename_i hframes hs
      exact (h _ _ _ _ hframes hs).elim
    · exact List.mem_singleton.1 hv ▸ hw

/-- A walk from a function among entries that confine walks runs operations among them only. -/
theorem confined_of_walks (ht : t.Confines R) {func : FuncId} (hfunc : .func func ∈ R) {w : Walk}
    (hw : w ∈ t.walks func) {op : OpId} (hop : Event.op op ∈ w.events) : .op op ∈ R := by
  have hentry : .block (t.arena.func func).entry ∈ R := (ht.within _ hfunc).entry
  have hwithin := intoStays ht {} { func, invocation := 0 } (t.arena.func func).entry none
    (.start hfunc 0) hentry w hw
  exact hwithin.ran op hop

end Terrain

end QueryTaint
