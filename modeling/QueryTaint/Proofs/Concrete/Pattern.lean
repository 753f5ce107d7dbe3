import QueryTaint.Concrete.File
import QueryTaint.Proofs.Lower.Pattern

/-!
# Reading list patterns

The targets of a list pattern are told apart by the commas of the text, so that a target stands at
the number of commas before it (`pattern?`). A tree that is a list pattern reads as an array whose
items count the same positions (`fits_pattern?`): an item for each comma that follows no item, and
none for the last hole. So whatever the pattern is assigned, its targets get the elements at their
positions in the text (`lower_listPattern`).
-/

namespace QueryTaint.Concrete

/-! ## Patterns of trees -/

mutual

/-- The list pattern that a tree stands for, or the target. There is none where a pattern has keys
or unpacks a value. -/
def pattern? (src : Source) : Tree Label → Option (Layout (Tree Label))
  | .node label children =>
    if label.kind ∈ ["list_literal", "array_creation_expression"] then
      (targets? src 0 children).map (.list label.span)
    else if label.kind ∈ ["by_ref", "parenthesized_expression"] then soleTarget? src children
    else if label.kind ∈ ["sequence_expression", "variadic_unpacking"] then none
    else some (.target (.node label children))

/-- The targets among the children of a pattern. The position of a target is the number of commas
before it, and a comma stands between any two of them. -/
def targets? (src : Source) (commas : Nat) :
    List (Tree Label) → Option (List (Nat × Layout (Tree Label)))
  | [] => some []
  | .node label children :: rest =>
    if label.kind = "comment" then targets? src commas rest
    else if label.named then do
      let target ← (if label.kind = "array_element_initializer" then soleTarget? src children
        else pattern? src (.node label children))
      let further ← targets? src commas rest
      if further.all (commas < ·.1) then some ((commas, target) :: further) else none
    else targets? src (if src.text label = "," then commas + 1 else commas) rest

/-- The target that is the only phrase among the children of a node. -/
def soleTarget? (src : Source) : List (Tree Label) → Option (Layout (Tree Label))
  | [] => none
  | .node label children :: rest =>
    if label.kind ≠ "comment" ∧ label.named then
      if rest.any fun t => t.label.kind ≠ "comment" && t.label.named then none
      else pattern? src (.node label children)
    else soleTarget? src rest

end

open Lower (outline? outlines? outlines?_append_hole)

variable {α β : Type} {src : Source}

/-! ## Readings -/

theorem ok_of_bind {m : Except Error α} {f : α → Except Error β} {y : β}
    (h : m >>= f = .ok y) : ∃ x, m = .ok x ∧ f x = .ok y := by
  cases m with
  | error e => cases h
  | ok x => exact ⟨x, rfl, h⟩

theorem exists_of_bind {m : Reading α} {f : α → Reading β} {depth : Nat} {y : β}
    (h : (m >>= f) depth = .ok y) : ∃ x, m depth = .ok x ∧ f x depth = .ok y := ok_of_bind h

theorem bind_of_ok {m : Reading α} {f : α → Reading β} {depth : Nat} {x : α}
    (h : m depth = .ok x) : (m >>= f) depth = f x depth := congrArg (· >>= fun x => f x depth) h

/-- Whatever a reading gives has a property. -/
def Meets (m : Reading α) (P : α → Prop) : Prop := ∀ depth x, m depth = .ok x → P x

theorem Meets.pure {P : α → Prop} {x : α} (h : P x) : Meets (pure x) P := by
  rintro depth _ ⟨⟩
  exact h

theorem Meets.bind {P : β → Prop} {m : Reading α} {f : α → Reading β} (h : ∀ x, Meets (f x) P) :
    Meets (m >>= f) P := by
  intro depth y hy
  obtain ⟨x, -, hx⟩ := exists_of_bind hy
  exact h x depth y hx

theorem Meets.throw {P : α → Prop} {e : Error} : Meets (throw e : Reading α) P := by
  intro depth x hx
  cases hx

theorem Meets.deeper {P : α → Prop} {m : Reading α} (h : Meets m P) (s : Site) (levels : Nat) :
    Meets (deeper src s levels m) P := by
  intro depth x hx
  unfold Concrete.deeper at hx
  split at hx
  · cases hx
  · exact h _ _ hx

theorem exists_of_deeper {m : Reading α} {s : Site} {levels depth : Nat} {x : α}
    (h : deeper src s levels m depth = .ok x) : m (depth + levels) = .ok x := by
  unfold deeper at h
  split at h
  · cases h
  · exact h

theorem transparent?_of_not_mem {s : Site}
    (h : s.kind ∉ ["by_ref", "parenthesized_expression", "sequence_expression"]) :
    transparent? src s = none := by
  rw [List.mem_cons, List.mem_cons, List.mem_singleton] at h
  unfold transparent?
  split
  case h_1 hkind => exact absurd (.inr (.inl hkind)) h
  case h_2 hkind => exact absurd (.inr (.inr hkind)) h
  case h_3 hkind => exact absurd (.inl hkind) h
  case h_4 => rfl

/-- What is no wrapper and no chain of operators reads as a form of expression with its span. -/
theorem exprKind_of_expr {s : Site}
    (h : s.kind ∉ ["by_ref", "parenthesized_expression", "sequence_expression"])
    (hchain : s.kind ≠ "binary_expression") {depth : Nat} {e : Expr}
    (he : s.expr src depth = .ok e) :
    ∃ kind, exprKind src s (depth + 1) = .ok kind ∧ e = .mk kind s.label.span := by
  have hinner := exists_of_deeper he
  rw [transparent?_of_not_mem h] at hinner
  dsimp only at hinner
  rw [if_neg hchain] at hinner
  obtain ⟨kind, hread, ⟨⟩⟩ := exists_of_bind hinner
  exact ⟨kind, hread, rfl⟩

/-! ## Leaves -/

/-- A form of expression that is no array and no list. -/
def IsPlain (kind : ExprKind) : Prop := kind.isArray = false

theorem interpolated_plain (s : Site) : Meets (interpolated src s) IsPlain := by
  refine .bind fun _ => ?_
  split <;> exact .pure rfl

theorem castExpr_plain (s : Site) : Meets (castExpr src s) IsPlain := by
  refine .bind fun _ => .bind fun _ => ?_
  dsimp only
  split
  · exact .throw
  · exact .bind fun _ => .pure rfl

theorem callExpr_plain (s : Site) : Meets (callExpr src s) IsPlain := by
  refine .bind fun _ => .bind fun _ => ?_
  repeat' with_reducible first
    | exact .throw
    | refine .bind fun _ => ?_
    | refine .pure ?_
    | split
    | dsimp only
  all_goals rfl

theorem closureExpr_plain (s : Site) : Meets (closureExpr src s) IsPlain :=
  .bind fun _ => .bind fun _ => .bind fun _ => .pure rfl

theorem arrowExpr_plain (s : Site) : Meets (arrowExpr src s) IsPlain :=
  .bind fun _ => .bind fun _ => .bind fun _ => .pure rfl

theorem yieldExpr_plain (s : Site) : Meets (yieldExpr src s) IsPlain := by
  rw [yieldExpr]
  repeat' with_reducible first
    | refine .bind fun _ => ?_
    | refine .pure ?_
    | split
    | dsimp only
  all_goals rfl

/-- No form of expression but arrays and lists reads as an array. -/
theorem exprKind_plain {s : Site} (h : s.kind ∉ ["list_literal", "array_creation_expression"]) :
    Meets (exprKind src s) IsPlain := by
  rw [exprKind]
  split
  case h_34 hkind | h_35 hkind => exact absurd (by simp [hkind]) h
  all_goals
    repeat' with_reducible first
      | refine .bind fun _ => ?_
      | refine .pure ?_
      | exact .throw
      | exact interpolated_plain s
      | exact castExpr_plain s
      | exact callExpr_plain s
      | exact closureExpr_plain s
      | exact arrowExpr_plain s
      | exact yieldExpr_plain s
      | split
      | dsimp only
  all_goals rfl

/-- An expression that is no array and no list. -/
def IsLeaf (e : Expr) : Prop := IsPlain e.kind

theorem outline?_of_isLeaf {e : Expr} (h : IsLeaf e) : outline? e = some (.target e) := by
  obtain ⟨kind, span⟩ := e
  exact Lower.outline?_of_isArray h span

theorem build_isLeaf (base : Expr) (link : Link) (outer : List Link) :
    Meets (Chain.build base (link :: outer)) IsLeaf := by
  induction outer generalizing base link with
  | nil => exact .bind fun _ => .pure rfl
  | cons next outer ih => exact .bind fun _ => ih _ next

/-- A binary operator makes a chain, and a type test stands for itself. -/
theorem links_of_chain {s : Site} (hkind : s.kind = "binary_expression") {self : Reading Expr}
    {c : Chain} (h : s.chain src self = .ok c) : c.links ≠ [] ∨ c = ⟨[], instanceOf src s⟩ := by
  rw [Site.chain, if_neg (not_not.2 hkind)] at h
  obtain ⟨token, -, h⟩ := ok_of_bind h
  split at h
  · cases h
    exact .inr rfl
  · split at h
    · cases h
    · obtain ⟨right, -, h⟩ := ok_of_bind h
      obtain ⟨left, -, h⟩ := ok_of_bind h
      obtain ⟨below, -, h⟩ := ok_of_bind h
      cases h
      exact .inl (List.cons_ne_nil _ _)

/-- A chain of binary operators reads as one of them, or as a type test. -/
theorem chain_isLeaf {s : Site} (hkind : s.kind = "binary_expression") (self : Reading Expr) :
    Meets (do (← s.chain src self).expr src s) IsLeaf := by
  intro depth e he
  obtain ⟨c, hc, he⟩ := exists_of_bind he
  refine Meets.deeper ?_ s _ depth e he
  rcases links_of_chain hkind hc with hlinks | rfl
  · obtain ⟨link, outer, hreverse⟩ := List.exists_cons_of_ne_nil (List.reverse_ne_nil_iff.2 hlinks)
    rw [hreverse]
    exact .bind fun base => build_isLeaf base link outer
  · intro depth e he
    obtain ⟨base, hbase, ⟨⟩⟩ := exists_of_bind he
    have hleaf : Meets (instanceOf src s) IsLeaf :=
      .bind fun _ => .bind fun _ => .bind fun _ => .bind fun _ => .pure rfl
    exact hleaf depth _ hbase

/-- What is no array, no list and nothing around one reads as a leaf. -/
theorem expr_isLeaf {s : Site} (h : s.kind ∉ ["list_literal", "array_creation_expression"])
    (hwrapper : s.kind ∉ ["by_ref", "parenthesized_expression", "sequence_expression"]) :
    Meets (s.expr src) IsLeaf := by
  intro depth e he
  by_cases hkind : s.kind = "binary_expression"
  · have hinner := exists_of_deeper he
    rw [transparent?_of_not_mem hwrapper] at hinner
    dsimp only at hinner
    rw [if_pos hkind] at hinner
    exact chain_isLeaf hkind _ _ _ hinner
  · obtain ⟨kind, hread, rfl⟩ := exprKind_of_expr hwrapper hkind he
    exact exprKind_plain h _ _ hread

/-! ## Patterns read as patterns -/

/-- A tree reads as an expression, wherever it stands. -/
def ReadsAs (src : Source) (t : Tree Label) (e : Expr) : Prop :=
  ∃ parent depth, (mark src parent t).expr depth = .ok e

/-- An expression has the targets of a pattern of trees, and its leaves are what those read as. -/
def Outlines (src : Source) (layout : Layout (Tree Label)) (e : Expr) : Prop :=
  ∃ outline, outline? e = some outline ∧ Layout.Rel (ReadsAs src) layout outline

/-- A tree reads as an expression with the targets of a pattern, as a value and as one that may be
taken by reference. -/
structure Fits (src : Source) (t : Tree Label) (layout : Layout (Tree Label)) : Prop where
  expr {parent : String} {depth : Nat} {e : Expr} (h : (mark src parent t).expr depth = .ok e) :
    Outlines src layout e
  refValue {parent : String} {depth : Nat} {byRef : Bool} {e : Expr}
    (h : refValue src (mark src parent t) depth = .ok (byRef, e)) : Outlines src layout e

theorem refValue_of_ne {n : Node} (hkind : n.kind ≠ "by_ref") {depth : Nat} {byRef : Bool}
    {e : Expr} (h : refValue src n depth = .ok (byRef, e)) : n.expr depth = .ok e := by
  rw [refValue, if_neg hkind] at h
  obtain ⟨e', he, heq⟩ := exists_of_bind h
  cases heq
  exact he

/-- What is taken by reference is the only phrase of its node. -/
theorem refValue_of_sole {n inner : Node} (hkind : n.kind = "by_ref")
    (hsole : n.site.phrases = [inner]) {depth : Nat} {byRef : Bool} {e : Expr}
    (h : refValue src n depth = .ok (byRef, e)) : inner.expr depth = .ok e := by
  rw [refValue, if_pos hkind, Site.firstPhrase?, hsole] at h
  obtain ⟨inner', hneed, h⟩ := exists_of_bind h
  cases hneed
  obtain ⟨e', he, heq⟩ := exists_of_bind h
  cases heq
  exact he

/-- A wrapper reads as the only phrase in it. -/
theorem expr_of_sole {label : Label} {children : List Node} {inner : Node}
    (hkind : label.kind ∈ ["by_ref", "parenthesized_expression"])
    (hsole : (Site.mk label children).phrases = [inner]) {depth : Nat} {e : Expr}
    (h : (Site.mk label children).expr src depth = .ok e) : inner.expr (depth + 1) = .ok e := by
  have hinner := exists_of_deeper h
  have hsome : transparent? src (Site.mk label children) = some inner.expr := by
    have hkind' : (Site.mk label children).kind = label.kind := rfl
    rw [transparent?, hkind', Site.firstPhrase?, hsole]
    rcases List.mem_cons.1 hkind with heq | heq
    · rw [heq]
      rfl
    · rw [List.mem_singleton.1 heq]
      rfl
  rw [hsome] at hinner
  exact hinner

/-- A list reads as an array of its items. -/
theorem expr_of_list {s : Site} (hkind : s.kind ∈ ["list_literal", "array_creation_expression"])
    {depth : Nat} {e : Expr} (h : s.expr src depth = .ok e) :
    ∃ items short, arrayItems src s (depth + 1) = .ok items ∧
      e = .mk (.array items short) s.label.span := by
  rw [List.mem_cons, List.mem_singleton] at hkind
  rcases hkind with hkind | hkind
  · obtain ⟨kind, hread, rfl⟩ := exprKind_of_expr (by rw [hkind]; decide) (by rw [hkind]; decide) h
    rw [exprKind, hkind] at hread
    obtain ⟨items, hitems, ⟨⟩⟩ := exists_of_bind hread
    exact ⟨items, true, hitems, rfl⟩
  · obtain ⟨kind, hread, rfl⟩ := exprKind_of_expr (by rw [hkind]; decide) (by rw [hkind]; decide) h
    rw [exprKind, hkind] at hread
    obtain ⟨items, hitems, ⟨⟩⟩ := exists_of_bind hread
    exact ⟨items, false, hitems, rfl⟩

theorem kind_mark (parent : String) (t : Tree Label) : (mark src parent t).kind = t.label.kind := by
  cases t
  rfl

theorem label_mark (parent : String) (t : Tree Label) :
    (mark src parent t).label.label = t.label := by
  cases t
  rfl

/-- A hole that is dropped from the end is none of the targets. -/
theorem outlines?_of_arrayItems {s : Site} {depth : Nat} {items : List (ArrayItem Expr)}
    (h : arrayItems src s depth = .ok items) : ∃ all last,
      arrayItemsFrom src true s.parts depth = .ok (all, last) ∧
        ∀ position, outlines? position items = outlines? position all := by
  obtain ⟨⟨all, last⟩, hall, h⟩ := exists_of_bind h
  refine ⟨all, last, hall, fun position => ?_⟩
  dsimp only at h
  rcases hlast : all.getLast? with _ | ⟨_ | _, _ | _, byRef, unpack⟩
  all_goals rw [hlast] at h
  case some.none.none =>
    cases last <;> cases h
    · rfl
    · obtain ⟨init, rfl⟩ := List.getLast?_eq_some_iff.1 hlast
      rw [List.dropLast_concat, if_pos rfl, outlines?_append_hole]
  all_goals
    cases h
    rfl

/-- One item of a pattern takes its only target. -/
theorem exists_of_arrayItem {t : Tree Label} {target : Layout (Tree Label)}
    (hplain : t.label.kind ≠ "array_element_initializer" → Fits src t target)
    (hwrapped : t.label.kind = "array_element_initializer" → ∀ parent, ∃ inner,
      (mark src parent t).site.phrases = [mark src "array_element_initializer" inner] ∧
        inner.label.kind ≠ "variadic_unpacking" ∧ Fits src inner target)
    {parent : String} {depth : Nat} {item : ArrayItem Expr}
    (h : arrayItem src (mark src parent t) depth = .ok item) :
    ∃ e byRef, item = ⟨none, some e, byRef, false⟩ ∧ Outlines src target e := by
  unfold arrayItem at h
  rw [kind_mark] at h
  split at h
  · rename_i hkind
    obtain ⟨⟨byRef, e⟩, he, heq⟩ := exists_of_bind h
    cases heq
    exact ⟨e, byRef, rfl, (hplain hkind).refValue he⟩
  · rename_i hkind
    obtain ⟨inner, hsole, hunpack, hfits⟩ := hwrapped (not_not.1 hkind) parent
    rw [hsole] at h
    dsimp only at h
    rw [kind_mark, if_neg hunpack] at h
    obtain ⟨⟨byRef, e⟩, he, heq⟩ := exists_of_bind h
    cases heq
    exact ⟨e, byRef, rfl, hfits.refValue he⟩

/-- A phrase among the items of an array makes an item. -/
theorem exists_of_phrase {n : Node} {rest : List Node} (hnamed : n.label.label.named = true)
    {waiting : Bool} {depth : Nat} {items : List (ArrayItem Expr)} {last : Bool}
    (h : arrayItemsFrom src waiting (n :: rest) depth = .ok (items, last)) :
    ∃ item others, arrayItem src n depth = .ok item ∧
      arrayItemsFrom src false rest depth = .ok (others, last) ∧ items = item :: others := by
  rw [arrayItemsFrom, if_pos hnamed] at h
  obtain ⟨item, hitem, h⟩ := exists_of_bind h
  obtain ⟨⟨others, last'⟩, hothers, heq⟩ := exists_of_bind h
  cases heq
  exact ⟨item, others, hitem, hothers, rfl⟩

/-- A comma that follows no item makes a hole. -/
theorem exists_of_comma {n : Node} {rest : List Node} (hnamed : ¬n.label.label.named = true)
    (hcomma : n.text src = ",") {waiting : Bool} {depth : Nat} {items : List (ArrayItem Expr)}
    {last : Bool} (h : arrayItemsFrom src waiting (n :: rest) depth = .ok (items, last)) :
    ∃ others, arrayItemsFrom src true rest depth = .ok (others, last) ∧
      items = if waiting then hole :: others else others := by
  rw [arrayItemsFrom, if_neg hnamed, if_pos hcomma] at h
  obtain ⟨⟨others, last'⟩, hothers, heq⟩ := exists_of_bind h
  cases heq
  exact ⟨others, hothers, rfl⟩

/-- The items from a target on have this target and those after it. -/
theorem outlines?_of_item {e : Expr} {byRef : Bool} {others : List (ArrayItem Expr)}
    {position : Nat} {target : Layout (Tree Label)} {further : List (Nat × Layout (Tree Label))}
    (htarget : Outlines src target e)
    (hothers : ∃ outline, outlines? (position + 1) others = some outline ∧
      Layout.RelAll (ReadsAs src) further outline) : ∃ outline,
      outlines? position (⟨none, some e, byRef, false⟩ :: others) = some outline ∧
        Layout.RelAll (ReadsAs src) ((position, target) :: further) outline := by
  obtain ⟨first, hfirst, hrel⟩ := htarget
  obtain ⟨rest, hrest, hrels⟩ := hothers
  refine ⟨(position, first) :: rest, ?_, .cons hrel hrels⟩
  rw [outlines?, hfirst, hrest]
  rfl

theorem kind_of_pattern? {t : Tree Label} {layout : Layout (Tree Label)}
    (h : pattern? src t = some layout) : t.label.kind ≠ "variadic_unpacking" := by
  obtain ⟨label, children⟩ := t
  intro hkind
  have hkind : label.kind = "variadic_unpacking" := hkind
  simp [pattern?, hkind] at h

/-- The phrases among marked children. -/
def phrasesOf (children : List Node) : List Node :=
  (children.filter (·.kind ≠ "comment")).filter (·.label.label.named)

/-- A phrase stands first among the phrases, and a comment or a mark is none of them. -/
theorem phrasesOf_cons (n : Node) (rest : List Node) : phrasesOf (n :: rest) =
    if n.kind ≠ "comment" ∧ n.label.label.named then n :: phrasesOf rest else phrasesOf rest := by
  by_cases hkind : n.kind = "comment" <;> by_cases hnamed : n.label.label.named <;>
    simp [phrasesOf, hkind, hnamed]

theorem phrasesOf_eq_nil (parent : String) : ∀ (children : List (Tree Label)),
    (children.any fun t => t.label.kind ≠ "comment" && t.label.named) = false →
      phrasesOf (markAll src parent children) = []
  | [], _ => rfl
  | t :: rest, h => by
    rw [List.any_cons, Bool.or_eq_false_iff] at h
    rw [markAll, phrasesOf_cons, kind_mark, label_mark, if_neg (by simpa using h.1)]
    exact phrasesOf_eq_nil parent rest h.2

theorem Fits.of_expr {t : Tree Label} {layout : Layout (Tree Label)}
    (hkind : t.label.kind ≠ "by_ref")
    (h : ∀ {parent : String} {depth : Nat} {e : Expr},
      (mark src parent t).expr depth = .ok e → Outlines src layout e) : Fits src t layout where
  expr := h
  refValue he := h (refValue_of_ne (by rwa [kind_mark]) he)

theorem Fits.of_leaf {t : Tree Label}
    (hlist : t.label.kind ∉ ["list_literal", "array_creation_expression"])
    (hwrapper : t.label.kind ∉ ["by_ref", "parenthesized_expression", "sequence_expression"]) :
    Fits src t (.target t) := by
  obtain ⟨label, children⟩ := t
  refine .of_expr (fun heq => hwrapper (heq ▸ List.mem_cons_self)) fun {parent depth e} he => ?_
  have hleaf := expr_isLeaf (s := ⟨label, _⟩) hlist hwrapper depth e he
  exact ⟨.target e, outline?_of_isLeaf hleaf, .target ⟨parent, depth, he⟩⟩

/-- A wrapper reads as what its only phrase reads as. -/
theorem Fits.of_sole {label : Label} {children : List (Tree Label)} {inner : Tree Label}
    {layout : Layout (Tree Label)} (hkind : label.kind ∈ ["by_ref", "parenthesized_expression"])
    (hsole : phrasesOf (markAll src label.kind children) = [mark src label.kind inner])
    (h : Fits src inner layout) : Fits src (.node label children) layout where
  expr he := h.expr (expr_of_sole hkind hsole he)
  refValue {parent _ _ _} he := by
    by_cases href : label.kind = "by_ref"
    · exact h.expr (refValue_of_sole (n := mark src parent (.node label children)) href hsole he)
    · have he := refValue_of_ne (n := mark src parent (.node label children)) href he
      exact h.expr (expr_of_sole hkind hsole he)

mutual

/-- A tree that is a list pattern reads as an array with the same targets. -/
theorem fits_pattern? : ∀ (t : Tree Label) {layout : Layout (Tree Label)},
    pattern? src t = some layout → Fits src t layout
  | .node label children, layout, h => by
    unfold pattern? at h
    split at h
    case isTrue hkind =>
      obtain ⟨targets, htargets, rfl⟩ := Option.map_eq_some_iff.1 h
      refine .of_expr (fun heq => ?_) fun he => ?_
      · have heq : label.kind = "by_ref" := heq
        simp [heq] at hkind
      · obtain ⟨items, short, hitems, rfl⟩ := expr_of_list (s := ⟨label, _⟩) hkind he
        obtain ⟨all, last, hall, hsame⟩ := outlines?_of_arrayItems hitems
        obtain ⟨outline, houtline, hrel⟩ := fits_targets? children htargets true (.inl rfl) hall
        rw [if_pos rfl, ← hsame] at houtline
        exact ⟨.list label.span outline, congrArg (Option.map _) houtline, .list hrel⟩
    case isFalse hlist =>
      split at h
      case isTrue hkind =>
        obtain ⟨inner, hsole, -, hfits⟩ := fits_soleTarget? children h label.kind
        exact .of_sole hkind hsole hfits
      case isFalse hwrapper =>
        split at h
        case isTrue => cases h
        case isFalse hnone =>
          cases h
          refine .of_leaf hlist ?_
          simp only [Tree.label, List.mem_cons, not_or] at hwrapper hnone ⊢
          exact ⟨hwrapper.1, hwrapper.2.1, hnone.1, List.not_mem_nil⟩

/-- Items are read from the children of a pattern with the positions of its targets. While no item
stands since the last comma, the next one is at the number of commas so far. -/
theorem fits_targets? : ∀ (children : List (Tree Label)) {commas : Nat}
    {targets : List (Nat × Layout (Tree Label))}, targets? src commas children = some targets →
    ∀ (waiting : Bool), (waiting = true ∨ ∀ t ∈ targets, commas < t.1) →
    ∀ {parent : String} {depth : Nat} {items : List (ArrayItem Expr)} {last : Bool},
      arrayItemsFrom src waiting ((markAll src parent children).filter (·.kind ≠ "comment")) depth =
        .ok (items, last) → ∃ outline,
      outlines? (if waiting then commas else commas + 1) items = some outline ∧
        Layout.RelAll (ReadsAs src) targets outline
  | [], _, _, h, _, _, _, _, _, _, hitems => by
    cases h
    cases hitems
    exact ⟨[], rfl, .nil⟩
  | .node label children :: rest, commas, targets, h, waiting, hapart, parent, depth, items, last,
      hitems => by
    unfold targets? at h
    rw [markAll, List.filter_cons, kind_mark, Tree.label] at hitems
    by_cases hcomment : label.kind = "comment"
    case pos =>
      rw [if_pos hcomment] at h
      rw [if_neg (by simpa using hcomment)] at hitems
      exact fits_targets? rest h waiting hapart hitems
    case neg =>
      rw [if_neg hcomment] at h
      rw [if_pos (by simpa using hcomment)] at hitems
      by_cases hphrase : label.named = true
      case pos =>
        rw [if_pos hphrase] at h
        obtain ⟨target, htarget, h⟩ := Option.bind_eq_some_iff.1 h
        obtain ⟨further, hfurther, h⟩ := Option.bind_eq_some_iff.1 h
        split at h
        case isFalse => cases h
        case isTrue hlater =>
          cases h
          -- a second item since the last comma would be a target at the same position
          have hwaiting : waiting = true := hapart.resolve_right fun hlt =>
            Nat.lt_irrefl _ (hlt _ List.mem_cons_self)
          obtain ⟨item, others, hitem, hothers, rfl⟩ := exists_of_phrase
            (n := mark src parent (.node label children)) hphrase hitems
          obtain ⟨e, byRef, rfl, hfits⟩ := exists_of_arrayItem (t := .node label children)
            (fun hne => fits_pattern? _ ((if_neg hne).symm.trans htarget))
            (fun heq parent => by
              have hchildren := (if_pos heq).symm.trans htarget
              obtain ⟨inner, hsole, hinner, hfits⟩ := fits_soleTarget? children hchildren label.kind
              have heq : label.kind = "array_element_initializer" := heq
              exact ⟨inner, heq ▸ hsole, kind_of_pattern? hinner, hfits⟩) hitem
          rw [if_pos hwaiting]
          exact outlines?_of_item hfits (fits_targets? rest hfurther false
            (.inr fun t ht => of_decide_eq_true (List.all_eq_true.1 hlater t ht)) hothers)
      case neg =>
        rw [if_neg hphrase] at h
        by_cases hcomma : src.text label = ","
        case pos =>
          rw [if_pos hcomma] at h
          obtain ⟨others, hothers, rfl⟩ := exists_of_comma
            (n := mark src parent (.node label children)) hphrase hcomma hitems
          obtain ⟨outline, houtline, hrel⟩ := fits_targets? rest h true (.inl rfl) hothers
          refine ⟨outline, ?_, hrel⟩
          cases waiting <;> exact houtline
        case neg =>
          rw [if_neg hcomma] at h
          have htext : (mark src parent (.node label children)).text src = src.text label := rfl
          rw [arrayItemsFrom, label_mark, Tree.label, htext, if_neg hphrase, if_neg hcomma]
            at hitems
          exact fits_targets? rest h waiting hapart hitems

theorem fits_soleTarget? : ∀ (children : List (Tree Label)) {target : Layout (Tree Label)},
    soleTarget? src children = some target → ∀ (parent : String), ∃ inner,
      phrasesOf (markAll src parent children) = [mark src parent inner] ∧
        pattern? src inner = some target ∧ Fits src inner target
  | [], _, h, _ => by cases h
  | .node label children :: rest, target, h, parent => by
    unfold soleTarget? at h
    by_cases hphrase : label.kind ≠ "comment" ∧ label.named
    case pos =>
      rw [if_pos hphrase] at h
      split at h
      case isTrue => cases h
      case isFalse hrest =>
        refine ⟨.node label children, ?_, h, fits_pattern? _ h⟩
        rw [markAll, phrasesOf_cons, kind_mark, label_mark, Tree.label, if_pos hphrase,
          phrasesOf_eq_nil parent rest (by simpa using hrest)]
    case neg =>
      rw [if_neg hphrase] at h
      obtain ⟨inner, hsole, hinner, hfits⟩ := fits_soleTarget? rest h parent
      refine ⟨inner, ?_, hinner, hfits⟩
      rwa [markAll, phrasesOf_cons, kind_mark, label_mark, Tree.label, if_neg hphrase]

end

/-! ## Assigning lists -/

theorem field?_of_field {s : Site} {name : String} {n : Node} {depth : Nat}
    (h : (liftM (s.field src name) : Reading Node) depth = .ok n) : s.field? name = some n := by
  have h : s.field src name = .ok n := h
  rw [Site.field] at h
  cases hfield : s.field? name with
  | none =>
    rw [hfield] at h
    cases h
  | some found =>
    rw [hfield] at h
    cases h
    rfl

/-- An assignment reads both of its sides. -/
theorem assign_of_expr {s : Site} (hkind : s.kind = "assignment_expression") {left : Node}
    (hleft : s.field? "left" = some left) {depth : Nat} {e : Expr}
    (h : s.expr src depth = .ok e) : ∃ dest right value,
      left.expr (depth + 1) = .ok dest ∧ s.field? "right" = some right ∧
        right.expr (depth + 1) = .ok value ∧ e = .mk (.assign dest value) s.label.span := by
  obtain ⟨kind, hread, rfl⟩ := exprKind_of_expr (by rw [hkind]; decide) (by rw [hkind]; decide) h
  rw [exprKind, hkind] at hread
  obtain ⟨left', hneed, hread⟩ := exists_of_bind hread
  cases hleft.symm.trans (field?_of_field hneed)
  obtain ⟨dest, hdest, hread⟩ := exists_of_bind hread
  obtain ⟨right, hright, hread⟩ := exists_of_bind hread
  obtain ⟨value, hvalue, ⟨⟩⟩ := exists_of_bind hread
  exact ⟨dest, right, value, hdest, field?_of_field hright, hvalue, rfl⟩

/-- What a foreach loop assigns the elements to, after the key if there is one. -/
def foreachTarget? (s : Site) : Option Node :=
  match s.phrases with
  | _ :: binding :: _ :: _ =>
    if binding.kind = "pair" then
      match binding.site.phrases with
      | [_, value] => some value
      | _ => none
    else some binding
  | _ => none

/-- A foreach loop reads what it assigns to, which may be taken by reference. -/
theorem foreach_of_stmt {s : Site} {target : Node} (htarget : foreachTarget? s = some target)
    {depth : Nat} {kind : StmtKind} (h : foreachStmt src s depth = .ok kind) :
    ∃ subject key byRef dest inside, refValue src target depth = .ok (byRef, dest) ∧
      kind = .foreach subject key dest byRef inside := by
  unfold foreachTarget? at htarget
  unfold foreachStmt at h
  split at htarget
  case h_2 => cases htarget
  case h_1 first binding third rest hphrases =>
    rw [hphrases] at h
    obtain ⟨subject, -, h⟩ := exists_of_bind h
    obtain ⟨⟨key, value⟩, hkey, h⟩ := exists_of_bind h
    obtain ⟨⟨byRef, inner⟩, hinner, h⟩ := exists_of_bind h
    obtain ⟨dest, hdest, h⟩ := exists_of_bind h
    obtain ⟨inside, -, ⟨⟩⟩ := exists_of_bind h
    have hvalue : value = target := by
      split at htarget
      case isTrue hpair =>
        dsimp only at hkey
        rw [if_pos hpair] at hkey
        split at htarget
        case h_1 parts =>
          rw [parts] at hkey
          obtain ⟨_, -, ⟨⟩⟩ := exists_of_bind hkey
          exact Option.some.inj htarget
        case h_2 => cases htarget
      case isFalse hpair =>
        dsimp only at hkey
        rw [if_neg hpair] at hkey
        cases hkey
        exact Option.some.inj htarget
    subst hvalue
    refine ⟨subject, key, byRef, dest, inside, ?_, rfl⟩
    unfold refValue
    dsimp only at hinner
    split at hinner
    case isTrue href =>
      rw [if_pos href]
      obtain ⟨_, hneed, ⟨⟩⟩ := exists_of_bind hinner
      rw [bind_of_ok hneed, bind_of_ok hdest]
      rfl
    case isFalse href =>
      rw [if_neg href]
      cases hinner
      rw [bind_of_ok hdest]
      rfl

section Lowering

open Lower (current keyTarget inOrder stmts TakesApart AssignsEach)

/-- An expression with the targets of a list pattern is an array that has them. -/
theorem array_of_outlines {e : Expr} {span : Span} {targets : List (Nat × Layout (Tree Label))}
    (h : Outlines src (.list span targets) e) : ∃ items short outline,
      e = .mk (.array items short) span ∧ outlines? 0 items = some outline ∧
        Layout.RelAll (ReadsAs src) targets outline := by
  obtain ⟨_, houtline, hrel⟩ := h
  cases hrel with
  | list hrel =>
    obtain ⟨kind, inner⟩ := e
    cases hkind : kind.isArray with
    | false => cases (Lower.outline?_of_isArray hkind inner).symm.trans houtline
    | true =>
      obtain ⟨items, short, rfl⟩ := ExprKind.exists_of_isArray hkind
      obtain ⟨outline, hitems, heq⟩ := Option.map_eq_some_iff.1 houtline
      cases heq
      exact ⟨_, _, _, rfl, hitems, hrel⟩

/-- A list pattern without keys is assigned the elements at the positions of its targets: by an
assignment those of its value, and by a foreach loop those of the value of the iterator, which is put
into the block of the loop's body before them. -/
theorem lower_listPattern {t : Tree Label} {span : Span}
    {targets : List (Nat × Layout (Tree Label))}
    (hpattern : pattern? src t = some (.list span targets)) :
    (∀ {s : Site} {parent : String} {depth : Nat} {e : Expr}, s.kind = "assignment_expression" →
      s.field? "left" = some (mark src parent t) → s.expr src depth = .ok e →
      ∃ right pattern value outline step,
        s.field? "right" = some right ∧ right.expr (depth + 1) = .ok value ∧
        e = .mk (.assign pattern value) s.label.span ∧
        Layout.RelAll (ReadsAs src) targets outline ∧
        TakesApart pattern s.label.span outline step ∧
        Lower.expr e = do
          let value ← current (Lower.expr value)
          step value
          return value) ∧
    (∀ {s : Site} {parent : String} {depth : Nat} {kind : StmtKind},
      foreachTarget? s = some (mark src parent t) → foreachStmt src s depth = .ok kind →
      ∃ subject key pattern byRef inside outline step,
        kind = .foreach subject key pattern byRef inside ∧
        Layout.RelAll (ReadsAs src) targets outline ∧ TakesApart pattern span outline step ∧
        ∀ whole, Lower.stmt (.mk kind whole) = Lower.foreach (Lower.expr subject) (keyTarget key)
            byRef span step (inOrder (stmts inside)) whole ∧
          ∀ {b b' : Lower.Builder}, (Lower.stmt (.mk kind whole)).run.run b = (.ok (), b') →
            AssignsEach (Lower.expr subject) (keyTarget key) byRef span (inOrder (stmts inside)) whole
              outline b b') := by
  have hfits := fits_pattern? t hpattern
  constructor
  · intro s parent depth e hkind hleft hread
    obtain ⟨pattern, right, value, hdest, hright, hvalue, rfl⟩ :=
      assign_of_expr hkind hleft hread
    obtain ⟨items, short, outline, rfl, hitems, hrel⟩ := array_of_outlines (hfits.expr hdest)
    exact ⟨right, _, value, outline, _, hright, hvalue, rfl, hrel,
      Lower.takesApart_destructure hitems short span s.label.span, rfl⟩
  · intro s parent depth kind htarget hread
    obtain ⟨subject, key, byRef, pattern, inside, hdest, rfl⟩ := foreach_of_stmt htarget hread
    obtain ⟨items, short, outline, rfl, hitems, hrel⟩ := array_of_outlines (hfits.refValue hdest)
    have hstep := Lower.takesApart_destructure hitems short span span
    exact ⟨subject, key, _, byRef, inside, outline, _, rfl, hrel, hstep,
      fun whole => ⟨rfl, fun hrun => Lower.assignsEach_of_foreach hstep hrun⟩⟩

/-- The text `[$a,,[$b]]=$v`. -/
def holeSource : Source := ⟨"page.php", "[$a,,[$b]]=$v".toUTF8⟩

/-- A token of one character, spelt as its kind. -/
def tokenAt (kind : String) (start : Nat) : Tree Label :=
  .node ⟨kind, none, false, start, start + 1, 0, 0⟩ []

/-- A variable whose name has one letter. -/
def variableAt (field : Option String) (start : Nat) : Tree Label :=
  .node ⟨"variable_name", field, true, start, start + 2, 0, 0⟩
    [tokenAt "$" start, .node ⟨"name", none, true, start + 1, start + 2, 0, 0⟩ []]

/-- The pattern `[$a,,[$b]]`. -/
def holePattern : Tree Label :=
  .node ⟨"list_literal", some "left", true, 0, 10, 0, 0⟩
    [tokenAt "[" 0, variableAt none 1, tokenAt "," 3, tokenAt "," 4,
      .node ⟨"list_literal", none, true, 5, 9, 0, 0⟩
        [tokenAt "[" 5, variableAt none 6, tokenAt "]" 8],
      tokenAt "]" 9]

/-- The assignment `[$a,,[$b]]=$v`. -/
def holeAssignment : Site where
  label := ⟨"assignment_expression", none, true, 0, 13, 0, 0⟩
  children := markAll holeSource "assignment_expression"
    [holePattern, tokenAt "=" 10, variableAt (some "right") 11]

theorem lower_listPattern_hole : ∃ e right pattern value outline step,
    holeAssignment.expr holeSource 0 = .ok e ∧
      e = .mk (.assign pattern value) holeAssignment.label.span ∧
      holeAssignment.field? "right" = some right ∧ right.expr 1 = .ok value ∧
      Layout.RelAll (ReadsAs holeSource)
        [(0, .target (variableAt none 1)),
          (2, .list ⟨1, 1, 5, 8⟩ [(0, .target (variableAt none 6))])] outline ∧
      TakesApart pattern holeAssignment.label.span outline step ∧
      Lower.expr e = do
        let value ← current (Lower.expr value)
        step value
        return value := by
  obtain ⟨e, hread⟩ : ∃ e, holeAssignment.expr holeSource 0 = .ok e := ⟨_, rfl⟩
  have hleft : holeAssignment.field? "left" =
      some (mark holeSource "assignment_expression" holePattern) := rfl
  obtain ⟨right, pattern, value, outline, step, hright, hvalue, heq, hrel, hstep, hlower⟩ :=
    (@lower_listPattern holeSource holePattern ⟨1, 1, 0, 9⟩
      [(0, .target (variableAt none 1)),
        (2, .list ⟨1, 1, 5, 8⟩ [(0, .target (variableAt none 6))])] rfl).1 rfl hleft hread
  exact ⟨e, right, pattern, value, outline, step, hread, heq, hright, hvalue, hrel, hstep, hlower⟩

end Lowering

end QueryTaint.Concrete
