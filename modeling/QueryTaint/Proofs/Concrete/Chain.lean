import QueryTaint.Proofs.Concrete.Twin

/-!
# Chains of binary operators

A tree of binary operators is read down its left sides in a loop and put together again from its end
outwards (`chainExpr`). Read directly, a binary operator is its left side and then its right one,
each by recursion, and nesting has no limit (`direct`). The markings for the two are twins
(`twin_mark`), since a chain that goes one operator further up is what the operator makes of the
chain below (`wholeChain_cons`). Hence both readings give the same expression with the same spans,
unless the chain stops at the limit of nesting (`chain_eq_direct`).
-/

namespace QueryTaint.Concrete

variable {src : Source}

/-! ## Direct reading -/

/-- Reads a binary operator or a type test: the left side, then the right one. -/
def directBinary (src : Source) (s : Site) : Reading Expr := do
  let token ← s.field src "operator"
  if lowerAscii (token.text src) = "instanceof" then instanceOf src s
  else
    match BinaryOp.ofToken? (token.text src) with
    | none => throw (token.site.fault src .unknownBinary)
    | some op =>
      let left ← (← s.field src "left").expr
      let right ← (← s.field src "right").expr
      return .mk (.binary op left right) s.span

/-- The meaning of a node as an expression when binary operators are read directly and nesting has
no limit. -/
def Site.directExpr (src : Source) (s : Site) : Reading Expr :=
  match transparent? src s with
  | some inner => inner
  | none =>
    if s.kind = "binary_expression" then directBinary src s
    else return .mk (← exprKind src s) s.span

/-- The meaning of a node when binary operators are read directly: its chain is the node itself. -/
def Site.directMeaning (src : Source) (parent : String) (s : Site) : Meaning :=
  let expr := s.directExpr src
  { expr
    stmt := s.stmt src parent
    sequence := s.sequence expr
    parts := s.stringParts src
    chain := return ⟨[], expr⟩
    type := .mk fun _ => s.type src }

mutual

/-- The tree with every node marked with its direct meaning. -/
def directMark (src : Source) (parent : String) : Tree Label → Node
  | .node label children =>
    let children := directMarks src label.kind children
    .node ⟨label, Site.directMeaning src parent ⟨label, children⟩⟩ children

/-- The marked children of a node of a kind. -/
def directMarks (src : Source) (parent : String) : List (Tree Label) → List Node
  | [] => []
  | tree :: rest => directMark src parent tree :: directMarks src parent rest

end

/-- The expression that direct recursion makes of a tree. -/
def direct (src : Source) (t : Tree Label) : Except Error Expr := (directMark src "" t).expr.run 0

/-! ## Reading by chains -/

/-- Reads a binary operator as the chain that it begins. -/
def chainExpr (src : Source) (s : Site) : Reading Expr := do
  (← s.chain src (throw (s.fault src .emptyExpression))).expr src s

section Binary

variable {s : Site} (hkind : s.kind = "binary_expression")
include hkind

theorem transparent?_of_binary : transparent? src s = none := by
  rw [transparent?, hkind]
  rfl

theorem Site.directExpr_of_binary : s.directExpr src = directBinary src s := by
  rw [directExpr, transparent?_of_binary hkind]
  exact if_pos hkind

/-- Chains are how binary operators are read. -/
theorem Site.expr_of_binary : s.expr src = deeper src s 1 (chainExpr src s) := by
  rw [expr, transparent?_of_binary hkind]
  exact congrArg (deeper src s 1) (if_pos hkind)

end Binary

/-- What a chain makes of its end is the left side of an operator added above it. -/
theorem build_concat (base : Expr) (links : List Link) (link : Link) :
    Chain.build base (links ++ [link]) = (do
      let left ← Chain.build base links
      let right ← link.right
      return .mk (.binary link.op left right) link.span) := by
  induction links generalizing base with
  | nil => rfl
  | cons first links ih => simp only [List.cons_append, Chain.build, ih, bind_assoc]

theorem wholeChain_pure (base : Reading Expr) : wholeChain (pure ⟨[], base⟩) = base :=
  bind_pure base

theorem wholeChain_bind {α : Type} (r : Except Error α) (f : α → Except Error Chain) :
    wholeChain (r >>= f) = liftM r >>= fun x => wholeChain (f x) := by
  cases r <;> rfl

/-- A chain with one more operator reads the chain below it, then the right side. -/
theorem wholeChain_cons (link : Link) (below : Except Error Chain) :
    wholeChain (do let c ← below; return ⟨link :: c.links, c.base⟩) = (do
      let left ← wholeChain below
      let right ← link.right
      return .mk (.binary link.op left right) link.span) := by
  simp only [wholeChain_bind]
  simp only [wholeChain, liftM_pure, pure_bind, List.reverse_cons, build_concat, bind_assoc]

/-- Which error a reading ends in makes no difference. -/
theorem agree_of_fails {γ δ : Type} {S : γ → δ → Prop} {m : Reading γ} {m' : Reading δ} {e : Error}
    (h : Agree S m (throw e)) (hm' : ∀ depth, ∃ e', m' depth = .error e') : Agree S m m' := by
  intro depth depth'
  obtain ⟨e', he'⟩ := hm' depth'
  have hm : Alike S (m depth) (.error e) := h depth depth'
  rw [he']
  generalize m depth = result at hm ⊢
  cases hm with
  | error => exact .error
  | tooDeep he => exact .tooDeep he

/-- What a look at a node finds may be asked for later. -/
theorem agree_later {α β γ δ : Type} {S : γ → δ → Prop} {m : Reading γ} {m' : Reading α}
    {r : Except Error β} {f : α → β → Reading δ}
    (h : Agree S m (do let y ← r; let x ← m'; f x y)) :
    Agree S m (do let x ← m'; let y ← r; f x y) := by
  cases r with
  | ok => exact h
  | error e =>
    refine agree_of_fails h fun depth => ?_
    change ∃ e', (m' depth >>= fun _ => .error e) = .error e'
    cases m' depth with
    | ok => exact ⟨_, rfl⟩
    | error => exact ⟨_, rfl⟩

/-- The levels that a chain counts make no difference but for the limit. -/
theorem chainExpr_agree {r : Except Error Chain} {m : Reading Expr} {s : Site}
    (h : Agree Eq (wholeChain r) m) : Agree Eq (do (← r).expr src s) m := by
  cases r with
  | error => exact h
  | ok c => exact Agree.deeper (m := wholeChain (.ok c)) h src s _

namespace Site.Twin

variable {s s' : Site} (h : s.Twin s')
include h

/-- A chain reads like the operator that begins it, if what stands on its left side does. -/
theorem chain (hkind : s.kind = "binary_expression") (self : Reading Expr) :
    Agree Eq (wholeChain (s.chain src self)) (directBinary src s') := by
  unfold Site.chain directBinary
  rw [if_neg (not_not.2 hkind), wholeChain_bind]
  refine .bind h.field fun token token' htoken => ?_
  rw [htoken.text, apply_ite wholeChain]
  refine .ite (fun _ => ?_) fun _ => ?_
  · rw [wholeChain_pure]
    exact h.instanceOf
  cases BinaryOp.ofToken? (token'.text src) with
  | none => exact .throw
  | some op =>
    simp only [wholeChain_bind (s.field src _), wholeChain_cons, h.span]
    -- the right side is looked up before the chain below is read, not after the left side
    rw [← bind_assoc (liftM (s'.field src "left") : Reading Node)]
    refine agree_later (.bind h.field fun right right' hright => ?_)
    rw [bind_assoc]
    refine .bind h.field fun left left' hleft => ?_
    exact .next hleft.meaning.chain fun _ => .next hright.expr fun _ => .pure rfl

theorem chainExpr (hkind : s.kind = "binary_expression") :
    Agree Eq (chainExpr src s) (directBinary src s') := chainExpr_agree (h.chain hkind _)

theorem transparent? : Option.Rel (Agree Eq) (transparent? src s) (transparent? src s') := by
  unfold Concrete.transparent?
  rw [h.kind]
  generalize s'.kind = kind
  split
  case h_1 | h_3 => exact .some (.bind h.first fun _ _ hn => hn.expr)
  case h_2 => exact .some (.bind h.last fun _ _ hn => hn.expr)
  case h_4 => exact .none

theorem expr : Agree Eq (s.expr src) (s'.directExpr src) := by
  by_cases hkind : s.kind = "binary_expression"
  · rw [expr_of_binary hkind, directExpr_of_binary (h.kind.symm.trans hkind)]
    exact .deeper (h.chainExpr hkind) src s 1
  · have htransparent : Option.Rel (Agree Eq) (Concrete.transparent? src s)
        (Concrete.transparent? src s') := h.transparent?
    unfold Site.expr Site.directExpr
    refine .deeper ?_ src s 1
    generalize Concrete.transparent? src s = inner at htransparent ⊢
    generalize Concrete.transparent? src s' = inner' at htransparent ⊢
    cases htransparent with
    | some hinner => exact hinner
    | none =>
      dsimp only
      rw [← h.kind, h.span, if_neg hkind, if_neg hkind]
      exact .next h.exprKind fun _ => .pure rfl

theorem meaning (parent : String) :
    (Site.meaning src parent s).Agrees (Site.directMeaning src parent s') where
  expr := h.expr
  stmt := h.stmt parent
  sequence := h.sequence h.expr
  parts := h.stringParts
  chain := by
    change Agree Eq (wholeChain (s.chain src (s.expr src))) (s'.directExpr src)
    by_cases hkind : s.kind = "binary_expression"
    · rw [directExpr_of_binary (h.kind.symm.trans hkind)]
      exact h.chain hkind _
    · rw [Site.chain, if_pos hkind, wholeChain_pure]
      exact h.expr
  type := h.type src

end Site.Twin

/-! ## Whole trees -/

mutual

/-- The marks of a tree agree with its direct marks. -/
theorem twin_mark : ∀ (parent : String) (t : Tree Label),
    Twin (mark src parent t) (directMark src parent t)
  | parent, .node _ children =>
    have hchildren := twins_marks _ children
    have hsite : Site.Twin ⟨_, markAll src _ children⟩ ⟨_, directMarks src _ children⟩ :=
      ⟨rfl, hchildren⟩
    .node (hsite.meaning parent) hchildren

theorem twins_marks : ∀ (parent : String) (ts : List (Tree Label)),
    List.Forall₂ Twin (markAll src parent ts) (directMarks src parent ts)
  | _, [] => .nil
  | parent, t :: rest => .cons (twin_mark parent t) (twins_marks parent rest)

end

/-- Where the first of two results that are alike is a value, so is the second, and where the
second is a value, only the limit of nesting keeps the first from it. -/
theorem Alike.values {α : Type} {r r' : Except Error α} (h : Alike Eq r r') :
    (∀ x, r = .ok x → r' = .ok x) ∧
      ∀ x, r' = .ok x → r = .ok x ∨ ∃ e, IsTooDeep e ∧ r = .error e := by
  cases h with
  | ok hxy => exact hxy ▸ ⟨fun _ => id, fun _ => .inl⟩
  | error => exact ⟨nofun, nofun⟩
  | tooDeep he => exact ⟨nofun, fun _ _ => .inr ⟨_, he, rfl⟩⟩

/-- The chain of a binary operator gives the expression that direct recursion gives, and gives none
where recursion does only at the limit of nesting. -/
theorem chain_eq_direct {label : Label} (hkind : label.kind = "binary_expression")
    (children : List (Tree Label)) (depth : Nat) :
    let read := chainExpr src ⟨label, markAll src label.kind children⟩ depth
    (∀ e, read = .ok e → direct src (.node label children) = .ok e) ∧
      ∀ e, direct src (.node label children) = .ok e →
        read = .ok e ∨ ∃ error, IsTooDeep error ∧ read = .error error := by
  intro read
  have hsite : Site.Twin ⟨label, markAll src label.kind children⟩
      ⟨label, directMarks src label.kind children⟩ := ⟨rfl, twins_marks _ children⟩
  have hdirect : direct src (.node label children) =
      directBinary src ⟨label, directMarks src label.kind children⟩ 0 :=
    congrFun (Site.directExpr_of_binary
      (s := ⟨label, directMarks src label.kind children⟩) hkind) 0
  rw [hdirect]
  exact (hsite.chainExpr hkind depth 0).values

/-- The text `$a instanceof B.$c.($d.$e)`. -/
def chainSource : Source := ⟨"page.php", "$a instanceof B.$c.($d.$e)".toUTF8⟩

/-- A token that is spelt as its kind. -/
def tokenOf (field : Option String) (kind : String) (start : Nat) : Tree Label :=
  .node ⟨kind, field, false, start, start + kind.length, 0, 0⟩ []

/-- A variable on a side of an operator, whose name has one letter. -/
def sideAt (field : String) (start : Nat) : Tree Label :=
  .node ⟨"variable_name", some field, true, start, start + 2, 0, 0⟩
    [tokenOf none "$" start, .node ⟨"name", none, true, start + 1, start + 2, 0, 0⟩ []]

/-- The whole text. -/
def chainLabel : Label := ⟨"binary_expression", none, true, 0, 26, 0, 0⟩

/-- The two operators outside the parentheses go down to a type test. -/
def chainChildren : List (Tree Label) :=
  [.node ⟨"binary_expression", some "left", true, 0, 18, 0, 0⟩
      [.node ⟨"binary_expression", some "left", true, 0, 15, 0, 0⟩
          [sideAt "left" 0, tokenOf (some "operator") "instanceof" 3,
            .node ⟨"name", some "right", true, 14, 15, 0, 0⟩ []],
        tokenOf (some "operator") "." 15, sideAt "right" 16],
    tokenOf (some "operator") "." 18,
    .node ⟨"parenthesized_expression", some "right", true, 19, 26, 0, 0⟩
      [tokenOf none "(" 19,
        .node ⟨"binary_expression", none, true, 20, 25, 0, 0⟩
          [sideAt "left" 20, tokenOf (some "operator") "." 22, sideAt "right" 23],
        tokenOf none ")" 25]]

/-- What the whole text reads as. -/
def chainTest : Expr :=
  let var (name : String) (start : Nat) : Expr := .mk (.variable name) ⟨1, 1, start, start + 1⟩
  let test : Expr := .mk (.instanceOf (var "a" 0)
    (.mk (.name (.parse "B" ⟨1, 1, 14, 14⟩)) ⟨1, 1, 14, 14⟩)) ⟨1, 1, 0, 14⟩
  .mk (.binary .concat (.mk (.binary .concat test (var "c" 16)) ⟨1, 1, 0, 17⟩)
    (.mk (.binary .concat (var "d" 20) (var "e" 23)) ⟨1, 1, 20, 24⟩)) ⟨1, 1, 0, 25⟩

theorem chain_eq_direct_typeTest :
    chainExpr chainSource ⟨chainLabel, markAll chainSource chainLabel.kind chainChildren⟩ 0 =
        .ok chainTest ∧
      direct chainSource (.node chainLabel chainChildren) = .ok chainTest := by
  have hread : chainExpr chainSource
      ⟨chainLabel, markAll chainSource chainLabel.kind chainChildren⟩ 0 = .ok chainTest := by
    with_unfolding_all rfl
  exact ⟨hread, (chain_eq_direct rfl chainChildren 0).1 _ hread⟩

end QueryTaint.Concrete
