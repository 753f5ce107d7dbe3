import QueryTaint.Syntax.Traversal

/-!
# The parts of syntax trees

What stands directly inside an expression or a statement is listed once, in `ExprKind.parts` and
`StmtKind.parts`, in the order of the text. Every other notion of something that occurs anywhere in a
tree is a recursion over parts, and every proof about a whole tree an induction over them
(`Part.induct`).
-/

namespace QueryTaint

/-- What stands directly inside an expression or a statement: an expression, or the statements of a
body. -/
inductive Part where
  | expr (e : Expr)
  | body (stmts : List Stmt)

/-- An expression that may be absent, as parts. -/
def optionParts (e : Option Expr) : List Part := e.toList.map .expr

/-- Expressions as parts. -/
def exprParts (es : List Expr) : List Part := es.map .expr

/-- The values of arguments. -/
def argParts (args : List (Arg Expr)) : List Part := args.map fun arg => .expr arg.value

/-- The keys and values of an array. -/
def itemParts (items : List (ArrayItem Expr)) : List Part :=
  items.flatMap fun item => optionParts item.key ++ optionParts item.value

/-- The defaults of parameters. -/
def paramParts (params : List (Param Expr)) : List Part :=
  params.flatMap fun param => optionParts param.default

/-- The first values of declared names. -/
def declaredParts (vars : List (Declared Expr)) : List Part :=
  vars.flatMap fun var => optionParts var.default

/-- The values of constants. -/
def constParts (consts : List (ConstDecl Expr)) : List Part := consts.map fun c => .expr c.value

/-- Statements that may be absent, as parts. -/
def bodyParts (body : Option (List Stmt)) : List Part := body.toList.map .body

/-- The conditions and bodies of further branches. -/
def elseIfParts (elseIfs : List (ElseIf Expr Stmt)) : List Part :=
  elseIfs.flatMap fun e => [.expr e.cond, .body e.body]

/-- The conditions and bodies of the cases of a switch. -/
def caseParts (cases : List (Case Expr Stmt)) : List Part :=
  cases.flatMap fun case => optionParts case.cond ++ [.body case.body]

/-- The bodies of handlers. -/
def catchParts (catches : List (Catch Stmt)) : List Part := catches.map fun c => .body c.body

/-- What stands directly inside an expression. -/
def ExprKind.parts : ExprKind → List Part
  | .variable _ | .literal _ | .constFetch _ | .magicConst _ | .name _ | .identifier _ => []
  | .dynamicVariable var => [.expr var]
  | .interpolated parts => exprParts parts
  | .array items _ => itemParts items
  | .element var dim => .expr var :: optionParts dim
  | .property var field _ => [.expr var, .expr field]
  | .staticProperty cls field => [.expr cls, .expr field]
  | .classConst cls _ => [.expr cls]
  | .assign var value => [.expr var, .expr value]
  | .assignRef var value => [.expr var, .expr value]
  | .assignOp _ var value => [.expr var, .expr value]
  | .binary _ left right => [.expr left, .expr right]
  | .unary _ arg => [.expr arg]
  | .cast _ arg => [.expr arg]
  | .incDec _ _ var => [.expr var]
  | .call callee args => .expr callee :: argParts args
  | .methodCall var callee args _ => .expr var :: .expr callee :: argParts args
  | .staticCall cls callee args => .expr cls :: .expr callee :: argParts args
  | .new cls args => .expr cls :: argParts args
  | .closure params _ _ _ _ body _ => paramParts params ++ [.body body]
  | .includeFile _ path => [.expr path]
  | .instanceOf arg cls => [.expr arg, .expr cls]
  | .isset vars => exprParts vars
  | .exit arg => optionParts arg
  | .errorSuppress arg => [.expr arg]
  | .ternary cond ifTrue ifFalse => .expr cond :: (optionParts ifTrue ++ [.expr ifFalse])
  | .yield key value => optionParts key ++ optionParts value
  | .yieldFrom arg => [.expr arg]
  | .shellExec parts => exprParts parts

/-- What stands directly inside a statement. -/
def StmtKind.parts : StmtKind → List Part
  | .expr arg => [.expr arg]
  | .echo args => exprParts args
  | .returns arg => optionParts arg
  | .ifElse cond thenBody elseIfs elseBody =>
    .expr cond :: .body thenBody :: (elseIfParts elseIfs ++ bodyParts elseBody)
  | .whileLoop cond body => [.expr cond, .body body]
  | .doWhile body cond => [.body body, .expr cond]
  | .forLoop init cond step body =>
    exprParts init ++ (exprParts cond ++ (exprParts step ++ [.body body]))
  | .foreach subject key value _ body =>
    .expr subject :: (optionParts key ++ [.expr value, .body body])
  | .switch cond cases => .expr cond :: caseParts cases
  | .breakLoop level => optionParts level
  | .continueLoop level => optionParts level
  | .tryCatch body catches finish => .body body :: (catchParts catches ++ bodyParts finish)
  | .throws arg => [.expr arg]
  | .global args => exprParts args
  | .static vars => declaredParts vars
  | .unset args => exprParts args
  | .function _ params _ _ body => paramParts params ++ [.body body]
  | .classDecl _ _ _ _ _ body => [.body body]
  | .method _ _ params _ _ body => paramParts params ++ bodyParts body
  | .properties _ _ props => declaredParts props
  | .classConsts decls => constParts decls
  | .consts decls => constParts decls
  | .namespaceDecl _ body => bodyParts body
  | .block body => [.body body]
  | .goto _ | .label _ | .traitUse .. | .useDecl .. | .inlineHtml _ | .nop => []

/-! ## Induction over parts -/

variable {p : Part}

theorem sizeOf_flatMap {α : Type} [SizeOf α] {f : α → List Part}
    (hf : ∀ x, ∀ p ∈ f x, sizeOf p ≤ sizeOf x) {l : List α} (h : p ∈ l.flatMap f) :
    sizeOf p ≤ sizeOf l := by
  obtain ⟨x, hx, hp⟩ := List.mem_flatMap.1 h
  exact Nat.le_of_lt (Nat.lt_of_le_of_lt (hf x p hp) (List.sizeOf_lt_of_mem hx))

theorem sizeOf_map {α : Type} [SizeOf α] {f : α → Part} (hf : ∀ x, sizeOf (f x) ≤ sizeOf x + 1)
    {l : List α} (h : p ∈ l.map f) : sizeOf p ≤ sizeOf l := by
  obtain ⟨x, hx, rfl⟩ := List.mem_map.1 h
  exact Nat.le_trans (hf x) (List.sizeOf_lt_of_mem hx)

theorem sizeOf_optionParts {e : Option Expr} (h : p ∈ optionParts e) : sizeOf p ≤ sizeOf e := by
  cases e with
  | none => exact nomatch h
  | some e =>
    cases List.mem_singleton.1 h
    exact Nat.le_refl _

theorem sizeOf_bodyParts {body : Option (List Stmt)} (h : p ∈ bodyParts body) :
    sizeOf p ≤ sizeOf body := by
  cases body with
  | none => exact nomatch h
  | some body =>
    cases List.mem_singleton.1 h
    exact Nat.le_refl _

theorem sizeOf_exprParts {es : List Expr} (h : p ∈ exprParts es) : sizeOf p ≤ sizeOf es :=
  sizeOf_map (fun x => by simp; omega) h

theorem sizeOf_argParts {args : List (Arg Expr)} (h : p ∈ argParts args) : sizeOf p ≤ sizeOf args :=
  sizeOf_map (fun ⟨_, _⟩ => by simp; omega) h

theorem sizeOf_itemParts {items : List (ArrayItem Expr)} (h : p ∈ itemParts items) :
    sizeOf p ≤ sizeOf items := by
  refine sizeOf_flatMap (fun item p hp => ?_) h
  obtain ⟨key, value, byRef, unpack⟩ := item
  rcases List.mem_append.1 hp with hp | hp <;> have := sizeOf_optionParts hp <;> simp at this ⊢ <;> omega

theorem sizeOf_paramParts {params : List (Param Expr)} (h : p ∈ paramParts params) :
    sizeOf p ≤ sizeOf params := by
  refine sizeOf_flatMap (fun ⟨_, default, _, _, _, _⟩ p hp => ?_) h
  have := sizeOf_optionParts (e := default) hp
  simp
  omega

theorem sizeOf_declaredParts {vars : List (Declared Expr)} (h : p ∈ declaredParts vars) :
    sizeOf p ≤ sizeOf vars := by
  refine sizeOf_flatMap (fun ⟨_, default, _⟩ p hp => ?_) h
  have := sizeOf_optionParts (e := default) hp
  simp
  omega

theorem sizeOf_constParts {consts : List (ConstDecl Expr)} (h : p ∈ constParts consts) :
    sizeOf p ≤ sizeOf consts :=
  sizeOf_map (fun ⟨_, _, _⟩ => by simp; omega) h

theorem sizeOf_elseIfParts {elseIfs : List (ElseIf Expr Stmt)} (h : p ∈ elseIfParts elseIfs) :
    sizeOf p ≤ sizeOf elseIfs := by
  refine sizeOf_flatMap (fun ⟨_, _, _⟩ p hp => ?_) h
  grind

theorem sizeOf_caseParts {cases : List (Case Expr Stmt)} (h : p ∈ caseParts cases) :
    sizeOf p ≤ sizeOf cases := by
  refine sizeOf_flatMap (fun ⟨_, _, _⟩ p hp => ?_) h
  grind [→ sizeOf_optionParts]

theorem sizeOf_catchParts {catches : List (Catch Stmt)} (h : p ∈ catchParts catches) :
    sizeOf p ≤ sizeOf catches :=
  sizeOf_map (fun ⟨_, _, _⟩ => by simp; omega) h

theorem ExprKind.sizeOf_part {kind : ExprKind} (h : p ∈ kind.parts) : sizeOf p ≤ sizeOf kind := by
  cases kind <;> grind [ExprKind.parts, → sizeOf_argParts, → sizeOf_optionParts, → sizeOf_exprParts,
    → sizeOf_itemParts, → sizeOf_paramParts]

theorem StmtKind.sizeOf_part {kind : StmtKind} (h : p ∈ kind.parts) : sizeOf p ≤ sizeOf kind := by
  cases kind <;> grind [StmtKind.parts, → sizeOf_optionParts, → sizeOf_exprParts, → sizeOf_bodyParts,
    → sizeOf_paramParts, → sizeOf_declaredParts, → sizeOf_constParts, → sizeOf_elseIfParts,
    → sizeOf_caseParts, → sizeOf_catchParts]

/-- What holds of every expression and every list of statements, by induction over their parts. -/
theorem Part.induct {P : Part → Prop}
    (expr : ∀ kind span, (∀ p ∈ kind.parts, P p) → P (.expr (.mk kind span))) (nil : P (.body []))
    (cons : ∀ kind span rest, (∀ p ∈ kind.parts, P p) → P (.body rest) →
      P (.body (.mk kind span :: rest))) : ∀ p, P p
  | .expr (.mk kind span) => expr kind span fun p _ => Part.induct expr nil cons p
  | .body [] => nil
  | .body (.mk kind span :: rest) =>
    cons kind span rest (fun p _ => Part.induct expr nil cons p)
      (Part.induct expr nil cons (.body rest))
termination_by p => sizeOf p
decreasing_by all_goals grind [→ ExprKind.sizeOf_part, → StmtKind.sizeOf_part]

end QueryTaint
