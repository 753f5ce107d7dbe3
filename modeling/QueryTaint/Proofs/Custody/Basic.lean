import QueryTaint.Proofs.Version.Basic

/-!
# Custody of computed values

Folding an operation changes whatever reads its result. A function computes such results
(`Arena.Computes`), and an operation that can be folded reads only results of its own function and of
the top level of its file (`Arena.Custody`). So folding a function leaves what other functions can
fold alone, but for the top level.

Most changes of an arena place nothing that can be folded (`Arena.Calm`), and so keep this. The other
one is to make an operation with a new result (`Arena.Custody.compute`).
-/

namespace QueryTaint

theorem FuncId.ext_iff' {i j : FuncId} : i.index = j.index ↔ i = j := by
  cases i; cases j; simp

/-- The result of an operation that can be folded. -/
def OpKind.folded? : OpKind → Option OperandId
  | binary _ _ _ result | unary _ _ result | cast _ _ result | concatList _ result => some result
  | _ => none

theorem OpKind.folded?_eq_sole? (kind : OpKind) :
    kind.folded? = none ∨ kind.folded? = kind.sole? := by
  cases kind <;> first | exact .inl rfl | exact .inr rfl

theorem OpKind.folded?_of_sole? {kind : OpKind} (h : kind.sole? = none) : kind.folded? = none :=
  kind.folded?_eq_sole?.elim id fun heq => heq.trans h

theorem OperandKind.mem_links_of_owner {kind : OperandKind} {y : OperandId}
    (h : kind = .temporary (some y)) : y ∈ kind.links := by
  rw [h]
  exact List.mem_singleton_self y

namespace Arena

variable {a a' a'' : Arena} {main f : FuncId} {x r : OperandId} {op : OpId} {block : BlockId}

/-- An operation stands in a block of a function. -/
def StandsIn (a : Arena) (op : OpId) (f : FuncId) : Prop :=
  ∃ block, op ∈ (a.block block).ops ∧ (a.block block).func = some f

/-- An operation of a function that can be folded has an operand as its result. -/
def Computes (a : Arena) (f : FuncId) (x : OperandId) : Prop :=
  ∃ op, a.StandsIn op f ∧ (a.op op).kind.folded? = some x

/-- An operand is no mere intermediate value. -/
structure Primary (a : Arena) (x : OperandId) : Prop where
  lt : x.index < a.operands.size
  kind : (a.operand x).kind ≠ .temporary none

/-- No function but the given one and the top level computes an operand. -/
structure Fits (a : Arena) (main f : FuncId) (x : OperandId) : Prop where
  lt : x.index < a.operands.size
  computes : ∀ g, a.Computes g x → g = f ∨ g = main

/-- What operands refer to was made, and a version belongs to an operand that is no mere intermediate
value. -/
structure Rooted (a : Arena) : Prop where
  linked {x y : OperandId} : y ∈ (a.operand x).kind.links → y.index < a.operands.size
  owned {x y : OperandId} : (a.operand x).kind = .temporary (some y) →
    (a.operand y).kind ≠ .temporary none

/-- Blocks list operations that were made, and functions their own blocks. -/
structure Tidy (a : Arena) : Prop extends Rooted a where
  made {block : BlockId} {op : OpId} : op ∈ (a.block block).ops → op.index < a.ops.size
  listed {f : FuncId} {block : BlockId} : block ∈ (a.func f).blocks →
    (a.block block).func = some f
  func_lt {f : FuncId} {block : BlockId} : (a.block block).func = some f → f.index < a.funcs.size
  entry {f : FuncId} : f.index < a.funcs.size → (a.block (a.func f).entry).func = some f

/-- What is computed is held by intermediate values. -/
structure Sound (a : Arena) : Prop extends Tidy a where
  result {f : FuncId} {x : OperandId} : a.Computes f x → (a.operand x).kind = .temporary none

/-- Operations of the functions since the top level that can be folded read what their own function
or the top level computes. -/
structure Custody (a : Arena) (main : FuncId) : Prop extends Sound a where
  reads {f : FuncId} {op : OpId} : a.StandsIn op f → main.index ≤ f.index →
    (a.op op).kind.folded? ≠ none → ∀ x ∈ (a.op op).kind.reads, a.Fits main f x

theorem Rooted.owner (h : a.Rooted) {y : OperandId} (hx : (a.operand x).kind = .temporary (some y)) :
    a.Primary y :=
  ⟨h.linked (OperandKind.mem_links_of_owner hx), h.owned hx⟩

/-- What is no intermediate value is computed by no function. -/
theorem Sound.fits (h : a.Sound) (hx : a.Primary x) : a.Fits main f x :=
  ⟨hx.lt, fun _ hg => absurd (h.result hg) hx.kind⟩

theorem Sound.computes_lt (h : a.Sound) (hx : a.Computes f x) : x.index < a.operands.size :=
  lt_of_kind fun c => by rw [h.result hx]; exact nofun

/-! ## Changes -/

/-- What a change keeps: what was there is computed by no further function. -/
structure Keeps (a a' : Arena) : Prop extends Later a a' where
  computes {f : FuncId} {x : OperandId} : x.index < a.operands.size → a'.Computes f x →
    a.Computes f x

/-- A change that places nothing that can be folded. -/
structure Calm (a a' : Arena) : Prop extends Later a a' where
  stands {block : BlockId} {op : OpId} : op ∈ (a'.block block).ops →
    op ∈ (a.block block).ops ∧ ((a'.op op).kind = (a.op op).kind ∨ (a'.op op).kind.folded? = none) ∨
      op.index < a'.ops.size ∧ (a'.op op).kind.folded? = none
  listed {f : FuncId} {block : BlockId} : block ∈ (a'.func f).blocks →
    block ∈ (a.func f).blocks ∨ (a'.block block).func = some f
  belongs {f : FuncId} {block : BlockId} : (a'.block block).func = some f →
    (a.block block).func = some f ∨ f.index < a'.funcs.size
  newFunc {f : FuncId} : a.funcs.size ≤ f.index → f.index < a'.funcs.size →
    (a'.block (a'.func f).entry).func = some f
  rooted : a.Rooted → a'.Rooted

theorem Keeps.refl (a : Arena) : Keeps a a := ⟨.refl a, fun _ hx => hx⟩

theorem Keeps.trans (h : Keeps a a') (h' : Keeps a' a'') : Keeps a a'' :=
  ⟨h.toLater.trans h'.toLater,
    fun hlt hx => h.computes hlt (h'.computes (Nat.lt_of_lt_of_le hlt h.operands) hx)⟩

theorem Fits.keeps (h : a.Fits main f x) (hk : Keeps a a') : a'.Fits main f x :=
  ⟨Nat.lt_of_lt_of_le h.lt hk.operands, fun _ hg => h.computes _ (hk.computes h.lt hg)⟩

theorem Retains.temporary (h : Retains a a') {owner : Option OperandId}
    (hx : x.index < a.operands.size) :
    (a'.operand x).kind = .temporary owner ↔ (a.operand x).kind = .temporary owner := by
  have hbare := h.bare x hx
  generalize (a'.operand x).kind = k' at hbare ⊢
  generalize (a.operand x).kind = k at hbare ⊢
  cases k <;> cases k' <;> simp_all [OperandKind.bare]

theorem Primary.later (h : a.Primary x) (hl : Later a a') : a'.Primary x :=
  ⟨Nat.lt_of_lt_of_le h.lt hl.operands, fun hnone => h.kind ((hl.temporary h.lt).1 hnone)⟩

namespace Calm

theorem standsIn (h : Calm a a') (hop : a'.StandsIn op f) (hkind : (a'.op op).kind.folded? ≠ none) :
    a.StandsIn op f ∧ (a'.op op).kind = (a.op op).kind := by
  obtain ⟨block, hmem, hfunc⟩ := hop
  rcases h.stands hmem with ⟨hold, hsame⟩ | hnew
  · refine ⟨⟨block, hold, ?_⟩, hsame.resolve_right hkind⟩
    rw [← h.owner block (block_lt_of_op hold), hfunc]
  · exact absurd hnew.2 hkind

theorem computes (h : Calm a a') (hx : a'.Computes f x) : a.Computes f x := by
  obtain ⟨op, hop, hkind⟩ := hx
  obtain ⟨hold, hsame⟩ := h.standsIn hop (by rw [hkind]; exact Option.some_ne_none x)
  exact ⟨op, hold, hsame ▸ hkind⟩

theorem keeps (h : Calm a a') : Keeps a a' := ⟨h.toLater, fun _ => h.computes⟩

theorem refl (a : Arena) : Calm a a :=
  ⟨.refl a, fun hop => .inl ⟨hop, .inl rfl⟩, .inl, .inl,
    fun hge hlt => absurd hlt (Nat.not_lt.2 hge), id⟩

theorem trans (h : Calm a a') (h' : Calm a' a'') : Calm a a'' where
  toLater := h.toLater.trans h'.toLater
  stands hop := by
    rcases h'.stands hop with ⟨hmid, hsame' | hnone'⟩ | hnew
    · rw [hsame']
      exact (h.stands hmid).imp_right (And.imp_left fun hlt => Nat.lt_of_lt_of_le hlt h'.ops)
    · rcases h.stands hmid with ⟨hold, -⟩ | ⟨hlt, -⟩
      · exact .inl ⟨hold, .inr hnone'⟩
      · exact .inr ⟨Nat.lt_of_lt_of_le hlt h'.ops, hnone'⟩
    · exact .inr hnew
  listed hblock := (h'.listed hblock).elim (fun hmid => (h.listed hmid).imp_right h'.func) .inr
  belongs hfunc := (h'.belongs hfunc).elim
    (fun hmid => (h.belongs hmid).imp_right fun hlt => Nat.lt_of_lt_of_le hlt h'.funcs) .inr
  newFunc {f} hge hlt := by
    rcases Nat.lt_or_ge f.index a'.funcs.size with hmid | hmid
    · rw [h'.entry f hmid]
      exact h'.func (h.newFunc hge hmid)
    · exact h'.newFunc hmid hlt
  rooted hr := h'.rooted (h.rooted hr)

theorem tidy (h : Calm a a') (ht : a.Tidy) : a'.Tidy where
  toRooted := h.rooted ht.toRooted
  made hop := (h.stands hop).elim (fun hold => Nat.lt_of_lt_of_le (ht.made hold.1) h.ops) And.left
  listed hblock := (h.listed hblock).elim (fun hold => h.func (ht.listed hold)) id
  func_lt hfunc := (h.belongs hfunc).elim (fun hold => Nat.lt_of_lt_of_le (ht.func_lt hold) h.funcs) id
  entry {f} hf := by
    rcases Nat.lt_or_ge f.index a.funcs.size with hlt | hge
    · rw [h.entry f hlt]
      exact h.func (ht.entry hlt)
    · exact h.newFunc hge hf

theorem sound (h : Calm a a') (hs : a.Sound) : a'.Sound where
  toTidy := h.tidy hs.toTidy
  result hx := (h.temporary (hs.computes_lt (h.computes hx))).2 (hs.result (h.computes hx))

theorem custody (h : Calm a a') (hc : a.Custody main) : a'.Custody main where
  toSound := h.sound hc.toSound
  reads hop hf hkind x hx := by
    obtain ⟨hold, hsame⟩ := h.standsIn hop hkind
    rw [hsame] at hkind hx
    exact (hc.reads hold hf hkind x hx).keeps h.keeps

end Calm

/-! ## Changes that place nothing that can be folded -/

theorem Rooted.congr (h : a.Rooted) (hsize : a'.operands.size = a.operands.size)
    (hkind : ∀ x, (a'.operand x).kind = (a.operand x).kind) : a'.Rooted where
  linked hy := by
    rw [hkind] at hy
    exact hsize ▸ h.linked hy
  owned hx := by
    rw [hkind] at hx ⊢
    exact h.owned hx

namespace Calm

/-- Only operands change. -/
theorem of_operands (hops : a'.ops = a.ops) (hblocks : a'.blocks = a.blocks)
    (hfuncs : a'.funcs = a.funcs) (hretains : Retains a a') (hrooted : a.Rooted → a'.Rooted) :
    Calm a a' := by
  have hop (op : OpId) : a'.op op = a.op op := by rw [Arena.op, Arena.op, hops]
  have hblock (block : BlockId) : a'.block block = a.block block := by
    rw [Arena.block, Arena.block, hblocks]
  have hfunc (f : FuncId) : a'.func f = a.func f := by rw [Arena.func, Arena.func, hfuncs]
  refine ⟨⟨hretains, hops ▸ Nat.le_refl _, hblocks ▸ Nat.le_refl _, hfuncs ▸ Nat.le_refl _,
    fun op _ => by rw [hop], fun block _ => by rw [hblock], fun f _ => by rw [hfunc]⟩,
    fun {block op} hmem => ?_, fun hmem => ?_, fun hfunc' => ?_, fun hge hlt => ?_, hrooted⟩
  · rw [hblock] at hmem
    exact .inl ⟨hmem, .inl (by rw [hop])⟩
  · rw [hfunc] at hmem
    exact .inl hmem
  · rw [hblock] at hfunc'
    exact .inl hfunc'
  · rw [hfuncs] at hlt
    exact absurd hlt (Nat.not_lt.2 hge)

theorem newOperand {kind : OperandKind} (hlinks : ∀ y ∈ kind.links, y.index < a.operands.size)
    (howner : ∀ y, kind = .temporary (some y) → a.Primary y) :
    Calm a (a.newOperand kind).2 := by
  have hs := Spares.newOperand a kind
  have hsize : (a.newOperand kind).2.operands.size = a.operands.size + 1 := Array.size_push ..
  have hold {y : OperandId} (hy : y.index < a.operands.size) :
      (a.newOperand kind).2.operand y = a.operand y := by
    rw [operand_newOperand, if_neg (Nat.ne_of_lt hy)]
  refine of_operands rfl rfl rfl hs.later.toRetains fun h => ⟨fun {x y} hy => ?_, fun {x y} hx => ?_⟩
  · rw [operand_newOperand] at hy
    rw [hsize]
    split at hy
    · exact Nat.lt_succ_of_lt (hlinks y hy)
    · exact Nat.lt_succ_of_lt (h.linked hy)
  · rw [operand_newOperand] at hx
    split at hx
    · rw [hold (hlinks y (OperandKind.mem_links_of_owner hx))]
      exact (howner y hx).kind
    · rw [hold (h.linked (OperandKind.mem_links_of_owner hx))]
      exact h.owned hx

/-- An operand may refer to further ones, but stays what it is otherwise. -/
theorem relink (a : Arena) (id : OperandId) {f : Operand → Operand}
    (hbare : ∀ o, (f o).kind.bare = o.kind.bare)
    (hlinks : ∀ o, ∀ y ∈ (f o).kind.links, y ∈ o.kind.links ∨ y.index < a.operands.size) :
    Calm a (a.modifyOperand id f) := by
  have hs := Spares.modifyOperand a id hbare
  have hsize := size_operands_modifyOperand a id f
  refine of_operands rfl rfl rfl hs.later.toRetains fun h => ⟨fun {x y} hy => ?_, fun {x y} hx => ?_⟩
  · rw [hsize]
    rw [operand_modifyOperand] at hy
    split at hy
    · exact (hlinks _ y hy).elim (fun hold => h.linked hold) fun hlt => hlt
    · exact h.linked hy
  · have hlt : x.index < a.operands.size := hsize ▸ lt_of_kind fun c => by rw [hx]; exact nofun
    have hold := (hs.later.temporary hlt).1 hx
    have hy := h.linked (OperandKind.mem_links_of_owner hold)
    exact fun hnone => h.owned hold ((hs.later.temporary hy).1 hnone)

theorem modifyOperand (a : Arena) (id : OperandId) {f : Operand → Operand}
    (hf : ∀ o, (f o).kind = o.kind) : Calm a (a.modifyOperand id f) :=
  relink a id (fun o => by rw [hf]) fun o y hy => .inl (hf o ▸ hy)

/-- The known value of a variable is set. -/
theorem setValue {value : OperandId} (hvalue : value.index < a.operands.size) (var : OperandId) :
    Calm a (a.setValue var value) := by
  refine relink a _ (fun o => ?_) fun o y hy => ?_
  · split <;> simp_all [OperandKind.bare]
  · have hmem : y ∈ o.kind.links ∨ y = value := by
      split at hy <;> simp_all [OperandKind.links, or_assoc] <;> exact hy.imp_right .inr
    exact hmem.imp_right fun (heq : y = value) => heq ▸ hvalue

theorem modifyBlock (a : Arena) (id : BlockId) {f : Block → Block} (hops : ∀ b, (f b).ops = b.ops)
    (hfunc : ∀ b, (f b).func = b.func) : Calm a (a.modifyBlock id f) where
  operands := Nat.le_refl _
  bare _ _ := rfl
  ops := Nat.le_refl _
  blocks := Nat.le_of_eq (size_blocks_modifyBlock ..).symm
  funcs := Nat.le_refl _
  joined _ _ := rfl
  owner block _ := block_modifyBlock_keep a Block.func id block hfunc
  entry _ _ := rfl
  stands {block op} hop := by
    rw [block_modifyBlock_keep a Block.ops id block hops] at hop
    exact .inl ⟨hop, .inl rfl⟩
  listed := .inl
  belongs {g block} hg := by
    rw [block_modifyBlock_keep a Block.func id block hfunc] at hg
    exact .inl hg
  newFunc hge hlt := absurd hlt (Nat.not_lt.2 hge)
  rooted h := h.congr rfl fun _ => rfl

theorem modifyOp (a : Arena) (id : OpId) {f : Op → Op} (hf : ∀ o, (f o).kind = o.kind) :
    Calm a (a.modifyOp id f) where
  toLater := (Spares.modifyOp a id hf).later
  stands {_ op} hop := .inl ⟨hop, .inl (op_modifyOp_keep a Op.kind id op hf)⟩
  listed := .inl
  belongs := .inl
  newFunc hge hlt := absurd hlt (Nat.not_lt.2 hge)
  rooted h := h.congr rfl fun _ => rfl

theorem modifyFunc (a : Arena) (id : FuncId) {f : Func → Func} (hentry : ∀ r, (f r).entry = r.entry)
    (hblocks : ∀ r, (f r).blocks = r.blocks) : Calm a (a.modifyFunc id f) where
  toLater := (Spares.modifyFunc a id hentry).later
  stands hop := .inl ⟨hop, .inl rfl⟩
  listed {g block} hblock := by
    rw [func_modifyFunc] at hblock
    split at hblock
    · exact .inl (hblocks _ ▸ hblock)
    · exact .inl hblock
  belongs := .inl
  newFunc hge hlt := absurd (Nat.lt_of_lt_of_eq hlt (Array.size_modify ..)) (Nat.not_lt.2 hge)
  rooted h := h.congr rfl fun _ => rfl

/-- An operation that cannot be folded is placed. -/
theorem append (hop : op.index < a.ops.size) (hkind : (a.op op).kind.folded? = none)
    (block : BlockId) : Calm a (a.append block op) where
  toLater := (Spares.append a block op).later
  stands {other o} ho := by
    have hsame : ((a.append block op).op o).kind = (a.op o).kind := (Spares.append a block op).kind o
    rw [Arena.append, block_modifyOp, block_modifyBlock] at ho
    split at ho
    · rcases List.mem_append.1 ho with ho | ho
      · exact .inl ⟨ho, .inl hsame⟩
      · rw [List.mem_singleton.1 ho] at hsame ⊢
        exact .inr ⟨(Spares.append a block op).ops ▸ hop, hsame ▸ hkind⟩
    · exact .inl ⟨ho, .inl hsame⟩
  listed := .inl
  belongs hfunc := .inl ((Spares.append a block op).func _ ▸ hfunc)
  newFunc hge hlt := absurd hlt (Nat.not_lt.2 hge)
  rooted h := h.congr rfl fun _ => rfl

theorem attachPhi (a : Arena) (block : BlockId) (phi : OpId) : Calm a (a.attachPhi block phi) :=
  (modifyBlock a block (by exact fun _ => rfl) (by exact fun _ => rfl)).trans
    (modifyOp _ phi (by exact fun _ => rfl))

theorem addGuard (a : Arena) (block : BlockId) (cond : OperandId) : Calm a (a.addGuard block cond) :=
  (modifyBlock a block (by exact fun _ => rfl) (by exact fun _ => rfl)).trans
    (modifyOperand _ cond (by exact fun _ => rfl))

theorem link (a : Arena) (source target : BlockId) : Calm a (a.link source target) :=
  modifyBlock a target (by exact fun _ => rfl) (by exact fun _ => rfl)

/-- An operation is made that stands in no block. -/
theorem addOp (h : a.Tidy) (kind : OpKind) (span : Span) : Calm a (a.addOp kind span).2 where
  toLater := later_addOp a kind span
  stands {block op} hop :=
    .inl ⟨hop, .inl (by rw [op_addOp, if_neg (Nat.ne_of_lt (h.made hop))])⟩
  listed := .inl
  belongs := .inl
  newFunc hge hlt := absurd hlt (Nat.not_lt.2 hge)
  rooted hr := hr.congr (size_foldl_recordSlot ..) fun x => kind_operand_addOp a kind span x

theorem addPhiOperand (a : Arena) (phi : OpId) (id : OperandId) :
    Calm a (a.addPhiOperand phi id) := by
  refine ⟨later_addPhiOperand a phi id, fun {block op} hop => .inl ⟨?_, ?_⟩, fun {f block} hblock => ?_,
    fun {f block} hfunc => ?_, fun hge hlt => ?_, fun hr => hr.congr ?_ fun x => ?_⟩
  · unfold Arena.addPhiOperand at hop
    split at hop <;> exact hop
  · rw [op_addPhiOperand]
    split
    · split
      · exact .inr rfl
      · exact .inl (Eq.symm ‹_›)
    · exact .inl rfl
  · unfold Arena.addPhiOperand at hblock
    split at hblock <;> exact .inl hblock
  · unfold Arena.addPhiOperand at hfunc
    split at hfunc <;> exact .inl hfunc
  · unfold Arena.addPhiOperand at hlt
    split at hlt <;> exact absurd hlt (Nat.not_lt.2 hge)
  · unfold Arena.addPhiOperand
    split <;> simp
  · unfold Arena.addPhiOperand
    split
    · exact operand_modifyOperand_keep _ Operand.kind id x fun _ => rfl
    · rfl

/-- A block of a function is made. -/
theorem newBlock (a : Arena) (hf : f.index < a.funcs.size) : Calm a (a.newBlock (some f)).2 where
  toLater := (Makes.newBlock a hf).later
  stands {block op} hop := by
    rw [Lower.block_newBlock] at hop
    split at hop
    · cases hop
    · exact .inl ⟨hop, .inl rfl⟩
  listed {g block} hblock := by
    have hfunc : (a.newBlock (some f)).2.func g = if f = g ∧ g.index < a.funcs.size then
        { a.func g with blocks := (a.func g).blocks ++ [⟨a.blocks.size⟩] } else a.func g :=
      func_modifyFunc _ f g _
    rw [hfunc] at hblock
    split at hblock
    · rename_i hsame
      rcases List.mem_append.1 hblock with hblock | hblock
      · exact .inl hblock
      · rw [List.mem_singleton.1 hblock, Lower.block_newBlock, if_pos rfl, hsame.1]
        exact .inr rfl
    · exact .inl hblock
  belongs {g block} hfunc := by
    rw [Lower.block_newBlock] at hfunc
    split at hfunc
    · cases hfunc
      exact .inr (Nat.lt_of_lt_of_eq hf (Array.size_modify ..).symm)
    · exact .inl hfunc
  newFunc hge hlt := absurd (Nat.lt_of_lt_of_eq hlt (Array.size_modify ..)) (Nat.not_lt.2 hge)
  rooted h := h.congr rfl fun _ => rfl

/-- A function is made. -/
theorem ofFunc (a : Arena) (name : String) : Calm a (a.newFunc name).2 := by
  have hm := Makes.newFunc a name
  have hfunc := func_newFunc a name
  have hsize : (a.newFunc name).2.funcs.size = a.funcs.size + 1 := Array.size_push ..
  refine ⟨hm.later, fun {block op} hop => ?_, fun {g block} hblock => ?_, fun {g block} hg => ?_,
    fun {g} hge hlt => ?_, fun h => h.congr rfl fun _ => rfl⟩
  · rw [hm.block] at hop
    split at hop
    · cases hop
    · exact .inl ⟨hop, .inl (hm.kind op)⟩
  · rw [hfunc] at hblock
    split at hblock
    · rename_i hnew
      rw [List.mem_singleton.1 hblock, hm.self]
      exact .inr (congrArg some (FuncId.ext_iff'.1 hnew).symm)
    · exact .inl hblock
  · rw [hm.block] at hg
    split at hg
    · cases hg
      exact .inr (hsize ▸ Nat.lt_succ_self _)
    · exact .inl hg
  · have hnew : g.index = a.funcs.size :=
      Nat.le_antisymm (Nat.le_of_lt_succ (Nat.lt_of_lt_of_eq hlt hsize)) hge
    rw [hfunc, if_pos hnew, hm.self]
    exact congrArg some (FuncId.ext_iff'.1 hnew).symm

end Calm

/-! ## Operations that can be folded -/

theorem standsIn_append {o : OpId} (h : (a.append block op).StandsIn o f) :
    a.StandsIn o f ∨ o = op ∧ (a.block block).func = some f := by
  obtain ⟨b, ho, hfunc⟩ := h
  rw [(Spares.append a block op).func] at hfunc
  rw [Arena.append, block_modifyOp, block_modifyBlock] at ho
  split at ho
  · rename_i hsame
    rcases List.mem_append.1 ho with ho | ho
    · exact .inl ⟨b, ho, hfunc⟩
    · exact .inr ⟨List.mem_singleton.1 ho, hsame.1 ▸ hfunc⟩
  · exact .inl ⟨b, ho, hfunc⟩

theorem Tidy.append (h : a.Tidy) (hop : op.index < a.ops.size) (block : BlockId) :
    (a.append block op).Tidy where
  toRooted := h.toRooted.congr rfl fun _ => rfl
  made {b o} ho := by
    rw [(Spares.append a block op).ops]
    rw [Arena.append, block_modifyOp, block_modifyBlock] at ho
    split at ho
    · rcases List.mem_append.1 ho with ho | ho
      · exact h.made ho
      · rwa [List.mem_singleton.1 ho]
    · exact h.made ho
  listed hb := by
    rw [(Spares.append a block op).func]
    exact h.listed hb
  func_lt hf := h.func_lt ((Spares.append a block op).func _ ▸ hf)
  entry hf := by
    rw [(Spares.append a block op).func]
    exact h.entry hf

/-- An operation with a new result is made. -/
def prepare (a : Arena) (make : OperandId → OpKind) (span : Span) : Arena :=
  ((a.newOperand (.temporary none)).2.addOp (make ⟨a.operands.size⟩) span).2

/-- An operation with a new result is made at the end of a block. -/
def compute (a : Arena) (make : OperandId → OpKind) (span : Span) (block : BlockId) : Arena :=
  (a.prepare make span).append block ⟨a.ops.size⟩

section

variable {make : OperandId → OpKind} {span : Span}

theorem Tidy.prepare (h : a.Tidy) : Calm a (a.prepare make span) :=
  have hcalm : Calm a (a.newOperand (.temporary none)).2 := .newOperand (fun _ => nofun) nofun
  hcalm.trans (.addOp (hcalm.tidy h) (make ⟨a.operands.size⟩) span)

theorem kind_op_prepare : ((a.prepare make span).op ⟨a.ops.size⟩).kind = make ⟨a.operands.size⟩ := by
  rw [prepare, op_addOp]
  exact congrArg Op.kind (if_pos rfl)

theorem kind_operand_compute :
    ((a.compute make span block).operand ⟨a.operands.size⟩).kind = .temporary none := by
  have hkind : ((a.prepare make span).operand ⟨a.operands.size⟩).kind = .temporary none := by
    rw [prepare, kind_operand_addOp, operand_newOperand, if_pos rfl]
  exact ((Spares.append _ block ⟨a.ops.size⟩).later.temporary
    (lt_of_kind fun c => by rw [hkind]; exact nofun)).2 hkind

theorem Tidy.compute (h : a.Tidy) : (a.compute make span block).Tidy :=
  (h.prepare.tidy h).append (Nat.lt_of_lt_of_eq (Nat.lt_succ_self _) (Array.size_push ..).symm) block

theorem Tidy.later_compute (h : a.Tidy) : Later a (a.compute make span block) :=
  h.prepare.toLater.trans (Spares.append _ block ⟨a.ops.size⟩).later

/-- Of the operations that can be folded, only the new one comes to stand somewhere. -/
theorem Tidy.standsIn_compute (h : a.Tidy) (hblock : (a.block block).func = some f) {o : OpId}
    {g : FuncId} (ho : (a.compute make span block).StandsIn o g)
    (hkind : ((a.compute make span block).op o).kind.folded? ≠ none) :
    a.StandsIn o g ∧ ((a.compute make span block).op o).kind = (a.op o).kind ∨
      g = f ∧ ((a.compute make span block).op o).kind = make ⟨a.operands.size⟩ := by
  rw [Arena.compute, (Spares.append _ block ⟨a.ops.size⟩).kind] at hkind ⊢
  rcases standsIn_append ho with ho | ⟨rfl, hfunc⟩
  · exact .inl (h.prepare.standsIn ho hkind)
  · rw [h.prepare.func hblock] at hfunc
    exact .inr ⟨(Option.some.inj hfunc).symm, kind_op_prepare⟩

variable (hmake : (make ⟨a.operands.size⟩).folded? = some ⟨a.operands.size⟩)
include hmake

/-- Only the new result comes to be computed. -/
theorem Tidy.computes_compute (h : a.Tidy) (hblock : (a.block block).func = some f) {g : FuncId}
    (hx : (a.compute make span block).Computes g x) :
    a.Computes g x ∨ x = ⟨a.operands.size⟩ ∧ g = f := by
  obtain ⟨o, ho, hkind⟩ := hx
  rcases h.standsIn_compute hblock ho (by rw [hkind]; exact Option.some_ne_none x) with
    ⟨hold, hsame⟩ | ⟨rfl, hnew⟩
  · exact .inl ⟨o, hold, hsame ▸ hkind⟩
  · rw [hnew, hmake] at hkind
    exact .inr ⟨(Option.some.inj hkind).symm, rfl⟩

variable (span) in
/-- Only the block's function computes the new result, and it reads what fits it. -/
theorem Custody.compute (h : a.Custody main) (hblock : (a.block block).func = some f)
    (hreads : ∀ x ∈ (make ⟨a.operands.size⟩).reads, x = ⟨a.operands.size⟩ ∨ a.Fits main f x) :
    (a.compute make span block).Custody main ∧ Keeps a (a.compute make span block) ∧
      (a.compute make span block).Fits main f ⟨a.operands.size⟩ := by
  have hlater : Later a (a.compute make span block) := h.later_compute
  have hcomputes {g : FuncId} {x : OperandId} (hx : (a.compute make span block).Computes g x) :=
    h.computes_compute hmake hblock hx
  have hkeeps : Keeps a (a.compute make span block) := by
    refine ⟨hlater, fun hlt hx => (hcomputes hx).resolve_right ?_⟩
    rintro ⟨rfl, -⟩
    exact Nat.lt_irrefl _ hlt
  have hfits : (a.compute make span block).Fits main f ⟨a.operands.size⟩ := by
    refine ⟨lt_of_kind fun c => by rw [kind_operand_compute]; exact nofun, fun g hg => ?_⟩
    rcases hcomputes hg with hold | ⟨-, hsame⟩
    · exact absurd (h.computes_lt hold) (Nat.lt_irrefl _)
    · exact .inl hsame
  refine ⟨⟨⟨h.toTidy.compute, fun hx => ?_⟩, fun ho hg hkind x hx => ?_⟩, hkeeps, hfits⟩
  · rcases hcomputes hx with hold | ⟨rfl, -⟩
    · exact (hlater.temporary (h.computes_lt hold)).2 (h.result hold)
    · exact kind_operand_compute
  · rcases h.standsIn_compute hblock ho hkind with ⟨hold, hsame⟩ | ⟨rfl, hnew⟩
    · rw [hsame] at hkind hx
      exact (h.reads hold hg hkind x hx).keeps hkeeps
    · rw [hnew] at hx
      rcases hreads x hx with rfl | hx
      · exact hfits
      · exact hx.keeps hkeeps

end

end Arena

end QueryTaint
