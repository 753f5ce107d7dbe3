import Mathlib.Tactic.Choose
import QueryTaint.Proofs.Syntax.Part

/-!
# What a traversal does to the parts

Whatever its hooks do, a traversal goes through the parts of a node in their order, once each, and puts
what becomes of them in their places (`Traversal.exprKind_covered`, `Traversal.stmtKind_covered`). The
rest of the node, its shape, stays. This is the only place that looks at all forms of expressions and
statements: what a pass does to a tree is said of parts, and `Traversal.visitExpr` and
`Traversal.visitStmt` are all that is left of a node.
-/

namespace QueryTaint

/-! ## Shapes -/

/-- Stands for any expression. -/
def hole : Expr := default

-- Each holder of expressions and statements without them: holes and empty bodies are in their places.

def Arg.blank (a : Arg Expr) : Arg Expr := { a with value := hole }

def ArrayItem.blank (i : ArrayItem Expr) : ArrayItem Expr :=
  { i with key := i.key.map fun _ => hole, value := i.value.map fun _ => hole }

def Param.blank (p : Param Expr) : Param Expr := { p with default := p.default.map fun _ => hole }

def Declared.blank (d : Declared Expr) : Declared Expr :=
  { d with default := d.default.map fun _ => hole }

def ConstDecl.blank (c : ConstDecl Expr) : ConstDecl Expr := { c with value := hole }

def ElseIf.blank (e : ElseIf Expr Stmt) : ElseIf Expr Stmt := { e with cond := hole, body := [] }

def Case.blank (c : Case Expr Stmt) : Case Expr Stmt :=
  { c with cond := c.cond.map fun _ => hole, body := [] }

def Catch.blank (c : Catch Stmt) : Catch Stmt := { c with body := [] }

/-- A form of expression without its parts. -/
def ExprKind.shape : ExprKind → ExprKind
  | .dynamicVariable _ => .dynamicVariable hole
  | .interpolated parts => .interpolated (parts.map fun _ => hole)
  | .array items isList => .array (items.map ArrayItem.blank) isList
  | .element _ dim => .element hole (dim.map fun _ => hole)
  | .property _ _ nullsafe => .property hole hole nullsafe
  | .staticProperty _ _ => .staticProperty hole hole
  | .classConst _ const => .classConst hole const
  | .assign _ _ => .assign hole hole
  | .assignRef _ _ => .assignRef hole hole
  | .assignOp op _ _ => .assignOp op hole hole
  | .binary op _ _ => .binary op hole hole
  | .unary op _ => .unary op hole
  | .cast kind _ => .cast kind hole
  | .incDec increment before _ => .incDec increment before hole
  | .call _ args => .call hole (args.map Arg.blank)
  | .methodCall _ _ args nullsafe => .methodCall hole hole (args.map Arg.blank) nullsafe
  | .staticCall _ _ args => .staticCall hole hole (args.map Arg.blank)
  | .new _ args => .new hole (args.map Arg.blank)
  | .closure params uses byRef isStatic returnType _ arrow =>
    .closure (params.map Param.blank) uses byRef isStatic returnType [] arrow
  | .includeFile kind _ => .includeFile kind hole
  | .instanceOf _ _ => .instanceOf hole hole
  | .isset vars => .isset (vars.map fun _ => hole)
  | .exit arg => .exit (arg.map fun _ => hole)
  | .errorSuppress _ => .errorSuppress hole
  | .ternary _ ifTrue _ => .ternary hole (ifTrue.map fun _ => hole) hole
  | .yield key value => .yield (key.map fun _ => hole) (value.map fun _ => hole)
  | .yieldFrom _ => .yieldFrom hole
  | .shellExec parts => .shellExec (parts.map fun _ => hole)
  | kind => kind

/-- A form of statement without its parts. -/
def StmtKind.shape : StmtKind → StmtKind
  | .expr _ => .expr hole
  | .echo args => .echo (args.map fun _ => hole)
  | .returns arg => .returns (arg.map fun _ => hole)
  | .ifElse _ _ elseIfs elseBody =>
    .ifElse hole [] (elseIfs.map ElseIf.blank) (elseBody.map fun _ => [])
  | .whileLoop _ _ => .whileLoop hole []
  | .doWhile _ _ => .doWhile [] hole
  | .forLoop init cond step _ =>
    .forLoop (init.map fun _ => hole) (cond.map fun _ => hole) (step.map fun _ => hole) []
  | .foreach _ key _ byRef _ => .foreach hole (key.map fun _ => hole) hole byRef []
  | .switch _ cases => .switch hole (cases.map Case.blank)
  | .breakLoop level => .breakLoop (level.map fun _ => hole)
  | .continueLoop level => .continueLoop (level.map fun _ => hole)
  | .tryCatch _ catches finish => .tryCatch [] (catches.map Catch.blank) (finish.map fun _ => [])
  | .throws _ => .throws hole
  | .global args => .global (args.map fun _ => hole)
  | .static vars => .static (vars.map Declared.blank)
  | .unset args => .unset (args.map fun _ => hole)
  | .function fn params byRef returnType _ =>
    .function fn (params.map Param.blank) byRef returnType []
  | .classDecl kind cls modifiers parent implements _ =>
    .classDecl kind cls modifiers parent implements []
  | .method fn modifiers params byRef returnType body =>
    .method fn modifiers (params.map Param.blank) byRef returnType (body.map fun _ => [])
  | .properties modifiers type props => .properties modifiers type (props.map Declared.blank)
  | .classConsts decls => .classConsts (decls.map ConstDecl.blank)
  | .consts decls => .consts (decls.map ConstDecl.blank)
  | .namespaceDecl path body => .namespaceDecl path (body.map fun _ => [])
  | .block _ => .block []
  | kind => kind

namespace Traversal

variable {m : Type → Type} [Monad m] [LawfulMonad m] {r : Traversal m} {α β : Type}
  {ps ps' : List Part} {A : α → List Part → Prop} {B : β → List Part → Prop} {x : m α} {f : α → m β}

/-- Goes through a part. -/
def part (r : Traversal m) : Part → m Part
  | .expr e => return .expr (← r.expr e)
  | .body stmts => return .body (← r.stmts stmts)

/-- Goes through parts in order. -/
def parts (r : Traversal m) (ps : List Part) : m (List Part) := ps.mapM r.part

omit [LawfulMonad m] in
theorem parts_nil : r.parts [] = pure [] := rfl

theorem parts_cons (p : Part) :
    r.parts (p :: ps) = (do let q ← r.part p; (q :: ·) <$> r.parts ps) := by
  simp only [parts, List.mapM_cons, map_eq_pure_bind]

theorem parts_append : r.parts (ps ++ ps') = (do let qs ← r.parts ps; (qs ++ ·) <$> r.parts ps') := by
  simp only [parts, List.mapM_append, map_eq_pure_bind]

/-- A step goes through given parts and does nothing else; its result agrees with what they become. One
run gives both, so that this holds in every monad. -/
def Covers (r : Traversal m) (ps : List Part) (x : m α) (A : α → List Part → Prop) : Prop :=
  ∃ both : m {y : α × List Part // A y.1 y.2},
    (fun y => y.1.1) <$> both = x ∧ (fun y => y.1.2) <$> both = r.parts ps

theorem Covers.pure {a : α} (h : A a []) : r.Covers [] (pure a) A :=
  ⟨Pure.pure ⟨(a, []), h⟩, map_pure .., map_pure ..⟩

theorem Covers.bind (hx : r.Covers ps x A)
    (hf : ∀ a qs, A a qs → r.Covers ps' (f a) fun b qs' => B b (qs ++ qs')) :
    r.Covers (ps ++ ps') (x >>= f) B := by
  obtain ⟨both, rfl, hps⟩ := hx
  choose next hnext hparts using hf
  refine ⟨both >>= fun y => (fun z => ⟨(z.1.1, y.1.2 ++ z.1.2), z.2⟩) <$> next y.1.1 y.1.2 y.2, ?_, ?_⟩
  · simp only [map_bind, Functor.map_map, hnext, bind_map_left]
  · have hlast (y : {y : α × List Part // A y.1 y.2}) :
        (fun z => y.1.2 ++ z.1.2) <$> next y.1.1 y.1.2 y.2 = (y.1.2 ++ ·) <$> r.parts ps' := by
      rw [← hparts _ _ y.2, Functor.map_map]
    simp only [map_bind, Functor.map_map, hlast, parts_append, ← hps, bind_map_left]

theorem Covers.last {g : α → β} (hx : r.Covers ps x A) (hg : ∀ a qs, A a qs → B (g a) qs) :
    r.Covers ps (do return g (← x)) B := by
  have h := hx.bind (f := fun a => Pure.pure (g a)) (B := B) fun a qs h =>
    .pure (by rw [List.append_nil]; exact hg a qs h)
  rwa [List.append_nil] at h

/-- A step follows from another one that goes through other parts, if what its parts become follows
from what those become, and what its parts become decides its result. -/
theorem Covers.eq_map [Nonempty β] {y : m β} {g : α → β} {h : List Part → List Part}
    (hx : r.Covers ps x A) (hy : r.Covers ps' y B) (hparts : r.parts ps' = h <$> r.parts ps)
    (hresult : ∀ a qs, A a qs → B (g a) (h qs)) (hunique : ∀ b b' qs, B b qs → B b' qs → b = b') :
    y = g <$> x := by
  obtain ⟨both, rfl, hps⟩ := hx
  obtain ⟨both', rfl, hps'⟩ := hy
  -- the result as a function of what the parts become
  obtain ⟨result, hresult'⟩ : ∃ result : List Part → β, ∀ b qs, B b qs → result qs = b :=
    ⟨fun qs => Classical.epsilon (B · qs), fun b qs hb =>
      hunique _ _ _ (Classical.epsilon_spec (p := (B · qs)) ⟨b, hb⟩) hb⟩
  calc (fun y => y.1.1) <$> both'
    _ = result <$> (fun y => y.1.2) <$> both' := by
      rw [Functor.map_map]
      exact congrArg (· <$> both') (funext fun y => (hresult' _ _ y.2).symm)
    _ = result <$> h <$> (fun y => y.1.2) <$> both := by
      rw [hps', hparts, hps]
    _ = g <$> (fun y => y.1.1) <$> both := by
      simp only [Functor.map_map]
      exact congrArg (· <$> both) (funext fun y => hresult' _ _ (hresult _ _ y.2))

-- A change of a part may be made before the part is gone through: then so may the change of all
-- parts, and of the part at one place.

theorem parts_map {f : Part → Part} (hf : ∀ p, r.part (f p) = f <$> r.part p) (ps : List Part) :
    r.parts (ps.map f) = List.map f <$> r.parts ps := by
  induction ps with
  | nil => simp only [List.map_nil, parts_nil, map_pure]
  | cons p ps ih =>
    simp only [List.map_cons, parts_cons, hf, ih, map_bind, Functor.map_map, bind_map_left]

theorem parts_modify {f : Part → Part} (hf : ∀ p, r.part (f p) = f <$> r.part p) (i : Nat)
    (ps : List Part) : r.parts (ps.modify i f) = (·.modify i f) <$> r.parts ps := by
  induction ps generalizing i with
  | nil => simp only [List.modify_nil, parts_nil, map_pure]
  | cons p ps ih =>
    cases i with
    | zero => simp only [List.modify_zero_cons, parts_cons, hf, map_bind, Functor.map_map, bind_map_left]
    | succ i => simp only [List.modify_succ_cons, parts_cons, ih, map_bind, Functor.map_map]

theorem Covers.expr {e : Expr} {f : Expr → m β}
    (h : ∀ e', r.Covers ps (f e') fun b qs => B b (.expr e' :: qs)) :
    r.Covers (.expr e :: ps) (r.expr e >>= f) B := by
  have hpart : r.Covers [.expr e] (r.expr e) fun e' qs => qs = [.expr e'] :=
    ⟨(fun e' => ⟨(e', [.expr e']), rfl⟩) <$> r.expr e, by simp, by simp [parts_cons, parts_nil, part]⟩
  exact hpart.bind fun e' qs hqs => hqs ▸ h e'

theorem Covers.body {stmts : List Stmt} {f : List Stmt → m β}
    (h : ∀ stmts', r.Covers ps (f stmts') fun b qs => B b (.body stmts' :: qs)) :
    r.Covers (.body stmts :: ps) (r.stmts stmts >>= f) B := by
  have hpart : r.Covers [.body stmts] (r.stmts stmts) fun stmts' qs => qs = [.body stmts'] :=
    ⟨(fun stmts' => ⟨(stmts', [.body stmts']), rfl⟩) <$> r.stmts stmts, by simp,
      by simp [parts_cons, parts_nil, part]⟩
  exact hpart.bind fun stmts' qs hqs => hqs ▸ h stmts'

/-! ## Lists of parts -/

theorem map_cons_congr {γ δ : Type} {g : γ → δ} {y z : γ} {ys zs : List γ} (hhead : g y = g z)
    (htail : ys.map g = zs.map g) : (y :: ys).map g = (z :: zs).map g :=
  congrArg₂ List.cons hhead htail

theorem exprs_covered (es : List Expr) : r.Covers (exprParts es) (r.exprs es) fun es' qs =>
    exprParts es' = qs ∧ (es'.map fun _ => hole) = es.map fun _ => hole := by
  induction es with
  | nil => exact .pure ⟨rfl, rfl⟩
  | cons e rest ih =>
    exact .expr fun _ => ih.last fun _ _ h => ⟨h.1 ▸ rfl, map_cons_congr rfl h.2⟩

theorem args_covered (args : List (Arg Expr)) : r.Covers (argParts args) (r.args args) fun args' qs =>
    argParts args' = qs ∧ args'.map Arg.blank = args.map Arg.blank := by
  induction args with
  | nil => exact .pure ⟨rfl, rfl⟩
  | cons arg rest ih =>
    exact .expr fun _ => ih.last fun _ _ h => ⟨h.1 ▸ rfl, map_cons_congr rfl h.2⟩

theorem items_covered : ∀ items : List (ArrayItem Expr), r.Covers (itemParts items) (r.items items)
    fun items' qs => itemParts items' = qs ∧ items'.map ArrayItem.blank = items.map ArrayItem.blank
  | [] => .pure ⟨rfl, rfl⟩
  | ⟨none, none, _, _⟩ :: rest => (items_covered rest).last fun _ _ ⟨hparts, hshape⟩ =>
      ⟨hparts ▸ rfl, map_cons_congr rfl hshape⟩
  | ⟨none, some _, _, _⟩ :: rest =>
    .expr fun _ => (items_covered rest).last fun _ _ ⟨hparts, hshape⟩ =>
      ⟨hparts ▸ rfl, map_cons_congr rfl hshape⟩
  | ⟨some _, none, _, _⟩ :: rest =>
    .expr fun _ => (items_covered rest).last fun _ _ ⟨hparts, hshape⟩ =>
      ⟨hparts ▸ rfl, map_cons_congr rfl hshape⟩
  | ⟨some _, some _, _, _⟩ :: rest =>
    .expr fun _ => .expr fun _ => (items_covered rest).last fun _ _ ⟨hparts, hshape⟩ =>
      ⟨hparts ▸ rfl, map_cons_congr rfl hshape⟩

theorem params_covered : ∀ params : List (Param Expr), r.Covers (paramParts params) (r.params params)
    fun params' qs => paramParts params' = qs ∧ params'.map Param.blank = params.map Param.blank
  | [] => .pure ⟨rfl, rfl⟩
  | ⟨_, none, _, _, _, _⟩ :: rest =>
    (params_covered rest).last fun _ _ ⟨hparts, hshape⟩ =>
      ⟨hparts ▸ rfl, map_cons_congr rfl hshape⟩
  | ⟨_, some _, _, _, _, _⟩ :: rest =>
    .expr fun _ => (params_covered rest).last fun _ _ ⟨hparts, hshape⟩ =>
      ⟨hparts ▸ rfl, map_cons_congr rfl hshape⟩

theorem declared_covered : ∀ vars : List (Declared Expr), r.Covers (declaredParts vars)
    (r.declared vars) fun vars' qs =>
      declaredParts vars' = qs ∧ vars'.map Declared.blank = vars.map Declared.blank
  | [] => .pure ⟨rfl, rfl⟩
  | ⟨_, none, _⟩ :: rest => (declared_covered rest).last fun _ _ ⟨hparts, hshape⟩ =>
      ⟨hparts ▸ rfl, map_cons_congr rfl hshape⟩
  | ⟨_, some _, _⟩ :: rest =>
    .expr fun _ => (declared_covered rest).last fun _ _ ⟨hparts, hshape⟩ =>
      ⟨hparts ▸ rfl, map_cons_congr rfl hshape⟩

theorem constDecls_covered (decls : List (ConstDecl Expr)) :
    r.Covers (constParts decls) (r.constDecls decls) fun decls' qs =>
      constParts decls' = qs ∧ decls'.map ConstDecl.blank = decls.map ConstDecl.blank := by
  induction decls with
  | nil => exact .pure ⟨rfl, rfl⟩
  | cons decl rest ih =>
    exact .expr fun _ => ih.last fun _ _ h => ⟨h.1 ▸ rfl, map_cons_congr rfl h.2⟩

theorem elseIfs_covered (further : List (ElseIf Expr Stmt)) :
    r.Covers (elseIfParts further) (r.elseIfs further) fun further' qs =>
      elseIfParts further' = qs ∧ further'.map ElseIf.blank = further.map ElseIf.blank := by
  induction further with
  | nil => exact .pure ⟨rfl, rfl⟩
  | cons next rest ih =>
    exact .expr fun _ => .body fun _ => ih.last fun _ _ h => ⟨h.1 ▸ rfl, map_cons_congr rfl h.2⟩

theorem cases_covered : ∀ cases : List (Case Expr Stmt), r.Covers (caseParts cases) (r.cases cases)
    fun cases' qs => caseParts cases' = qs ∧ cases'.map Case.blank = cases.map Case.blank
  | [] => .pure ⟨rfl, rfl⟩
  | ⟨none, _, _⟩ :: rest => .body fun _ => (cases_covered rest).last fun _ _ ⟨hparts, hshape⟩ =>
      ⟨hparts ▸ rfl, map_cons_congr rfl hshape⟩
  | ⟨some _, _, _⟩ :: rest =>
    .expr fun _ => .body fun _ => (cases_covered rest).last fun _ _ ⟨hparts, hshape⟩ =>
      ⟨hparts ▸ rfl, map_cons_congr rfl hshape⟩

theorem catches_covered (handlers : List (Catch Stmt)) :
    r.Covers (catchParts handlers) (r.catches handlers) fun handlers' qs =>
      catchParts handlers' = qs ∧ handlers'.map Catch.blank = handlers.map Catch.blank := by
  induction handlers with
  | nil => exact .pure ⟨rfl, rfl⟩
  | cons handler rest ih =>
    exact .body fun _ => ih.last fun _ _ h => ⟨h.1 ▸ rfl, map_cons_congr rfl h.2⟩

/-! ## Expressions and statements -/

/-- A traversal goes through the parts of an expression and keeps its shape. -/
theorem exprKind_covered : ∀ kind : ExprKind, r.Covers kind.parts (r.exprKind kind) fun kind' qs =>
    kind'.parts = qs ∧ kind'.shape = kind.shape
  | .variable _ | .literal _ | .constFetch _ | .magicConst _ | .name _ | .identifier _ =>
    .pure ⟨rfl, rfl⟩
  | .dynamicVariable _ => .expr fun _ => .pure ⟨rfl, rfl⟩
  | .interpolated parts => (exprs_covered parts).last fun _ _ ⟨hparts, hshape⟩ =>
      ⟨hparts, congrArg ExprKind.interpolated hshape⟩
  | .array items isList => (items_covered items).last fun _ _ ⟨hparts, hshape⟩ =>
      ⟨hparts, congrArg (ExprKind.array · isList) hshape⟩
  | .element _ none => .expr fun _ => .pure ⟨rfl, rfl⟩
  | .element _ (some _) => .expr fun _ => .expr fun _ => .pure ⟨rfl, rfl⟩
  | .property .. | .staticProperty .. | .assign .. | .assignRef .. | .assignOp .. | .binary ..
  | .instanceOf .. => .expr fun _ => .expr fun _ => .pure ⟨rfl, rfl⟩
  | .classConst .. | .unary .. | .cast .. | .incDec .. | .includeFile .. | .errorSuppress ..
  | .yieldFrom .. => .expr fun _ => .pure ⟨rfl, rfl⟩
  | .call _ args => .expr fun _ => (args_covered args).last fun _ _ ⟨hparts, hshape⟩ =>
      ⟨hparts ▸ rfl, congrArg (ExprKind.call hole) hshape⟩
  | .methodCall _ _ args nullsafe =>
    .expr fun _ => .expr fun _ => (args_covered args).last fun _ _ ⟨hparts, hshape⟩ =>
      ⟨hparts ▸ rfl, congrArg (ExprKind.methodCall hole hole · nullsafe) hshape⟩
  | .staticCall _ _ args =>
    .expr fun _ => .expr fun _ => (args_covered args).last fun _ _ ⟨hparts, hshape⟩ =>
      ⟨hparts ▸ rfl, congrArg (ExprKind.staticCall hole hole) hshape⟩
  | .new _ args => .expr fun _ => (args_covered args).last fun _ _ ⟨hparts, hshape⟩ =>
      ⟨hparts ▸ rfl, congrArg (ExprKind.new hole) hshape⟩
  | .closure params uses byRef isStatic returnType _ arrow =>
    (params_covered params).bind fun _ _ ⟨hparts, hshape⟩ => .body fun _ => .pure
      ⟨hparts ▸ rfl, congrArg (ExprKind.closure · uses byRef isStatic returnType [] arrow) hshape⟩
  | .isset vars => (exprs_covered vars).last fun _ _ ⟨hparts, hshape⟩ =>
      ⟨hparts, congrArg ExprKind.isset hshape⟩
  | .exit none => .pure ⟨rfl, rfl⟩
  | .exit (some _) => .expr fun _ => .pure ⟨rfl, rfl⟩
  | .ternary _ none _ => .expr fun _ => .expr fun _ => .pure ⟨rfl, rfl⟩
  | .ternary _ (some _) _ => .expr fun _ => .expr fun _ => .expr fun _ => .pure ⟨rfl, rfl⟩
  | .yield none none => .pure ⟨rfl, rfl⟩
  | .yield none (some _) => .expr fun _ => .pure ⟨rfl, rfl⟩
  | .yield (some _) none => .expr fun _ => .pure ⟨rfl, rfl⟩
  | .yield (some _) (some _) => .expr fun _ => .expr fun _ => .pure ⟨rfl, rfl⟩
  | .shellExec parts => (exprs_covered parts).last fun _ _ ⟨hparts, hshape⟩ =>
      ⟨hparts, congrArg ExprKind.shellExec hshape⟩

/-- A traversal goes through the parts of a statement and keeps its shape. -/
theorem stmtKind_covered : ∀ kind : StmtKind, r.Covers kind.parts (r.stmtKind kind) fun kind' qs =>
    kind'.parts = qs ∧ kind'.shape = kind.shape
  | .goto _ | .label _ | .traitUse .. | .useDecl .. | .inlineHtml _ | .nop => .pure ⟨rfl, rfl⟩
  | .expr _ | .throws _ => .expr fun _ => .pure ⟨rfl, rfl⟩
  | .echo args => (exprs_covered args).last fun _ _ ⟨hparts, hshape⟩ =>
      ⟨hparts, congrArg StmtKind.echo hshape⟩
  | .global args => (exprs_covered args).last fun _ _ ⟨hparts, hshape⟩ =>
      ⟨hparts, congrArg StmtKind.global hshape⟩
  | .unset args => (exprs_covered args).last fun _ _ ⟨hparts, hshape⟩ =>
      ⟨hparts, congrArg StmtKind.unset hshape⟩
  | .returns none | .breakLoop none | .continueLoop none => .pure ⟨rfl, rfl⟩
  | .returns (some _) | .breakLoop (some _) | .continueLoop (some _) =>
    .expr fun _ => .pure ⟨rfl, rfl⟩
  | .ifElse _ _ elseIfs none =>
    .expr fun _ => .body fun _ => ((elseIfs_covered elseIfs).bind fun _ _ ⟨hparts, hshape⟩ =>
      .pure ⟨hparts ▸ rfl, congrArg (StmtKind.ifElse hole [] · none) hshape⟩)
  | .ifElse _ _ elseIfs (some _) =>
    .expr fun _ => .body fun _ => ((elseIfs_covered elseIfs).bind fun _ _ ⟨hparts, hshape⟩ =>
      .body fun _ => .pure
        ⟨hparts ▸ rfl, congrArg (StmtKind.ifElse hole [] · (some [])) hshape⟩)
  | .whileLoop .. => .expr fun _ => .body fun _ => .pure ⟨rfl, rfl⟩
  | .doWhile .. => .body fun _ => .expr fun _ => .pure ⟨rfl, rfl⟩
  | .forLoop init cond step _ =>
    (exprs_covered init).bind fun _ _ ⟨hinit, hinit'⟩ =>
      (exprs_covered cond).bind fun _ _ ⟨hcond, hcond'⟩ =>
        (exprs_covered step).bind fun _ _ ⟨hstep, hstep'⟩ => .body fun _ => .pure
          ⟨hinit ▸ hcond ▸ hstep ▸ rfl, by simp only [StmtKind.shape, hinit', hcond', hstep']⟩
  | .foreach _ none _ _ _ => .expr fun _ => .expr fun _ => .body fun _ => .pure ⟨rfl, rfl⟩
  | .foreach _ (some _) _ _ _ =>
    .expr fun _ => .expr fun _ => .expr fun _ => .body fun _ => .pure ⟨rfl, rfl⟩
  | .switch _ cases => .expr fun _ => (cases_covered cases).last fun _ _ ⟨hparts, hshape⟩ =>
      ⟨hparts ▸ rfl, congrArg (StmtKind.switch hole) hshape⟩
  | .tryCatch _ catches none =>
    .body fun _ => (catches_covered catches).bind fun _ _ ⟨hparts, hshape⟩ =>
      .pure ⟨hparts ▸ rfl, congrArg (StmtKind.tryCatch [] · none) hshape⟩
  | .tryCatch _ catches (some _) =>
    .body fun _ => (catches_covered catches).bind fun _ _ ⟨hparts, hshape⟩ => .body fun _ =>
      .pure ⟨hparts ▸ rfl, congrArg (StmtKind.tryCatch [] · (some [])) hshape⟩
  | .static vars => (declared_covered vars).last fun _ _ ⟨hparts, hshape⟩ =>
      ⟨hparts, congrArg StmtKind.static hshape⟩
  | .function fn params byRef returnType _ =>
    (params_covered params).bind fun _ _ ⟨hparts, hshape⟩ => .body fun _ => .pure
      ⟨hparts ▸ rfl, congrArg (StmtKind.function fn · byRef returnType []) hshape⟩
  | .classDecl .. | .block _ => .body fun _ => .pure ⟨rfl, rfl⟩
  | .method fn modifiers params byRef returnType none =>
    (params_covered params).bind fun _ _ ⟨hparts, hshape⟩ => .pure
      ⟨hparts ▸ rfl, congrArg (StmtKind.method fn modifiers · byRef returnType none) hshape⟩
  | .method fn modifiers params byRef returnType (some _) =>
    (params_covered params).bind fun _ _ ⟨hparts, hshape⟩ => .body fun _ => .pure
      ⟨hparts ▸ rfl, congrArg (StmtKind.method fn modifiers · byRef returnType (some [])) hshape⟩
  | .properties modifiers type props => (declared_covered props).last fun _ _ ⟨hparts, hshape⟩ =>
      ⟨hparts, congrArg (StmtKind.properties modifiers type) hshape⟩
  | .classConsts decls => (constDecls_covered decls).last fun _ _ ⟨hparts, hshape⟩ =>
      ⟨hparts, congrArg StmtKind.classConsts hshape⟩
  | .consts decls => (constDecls_covered decls).last fun _ _ ⟨hparts, hshape⟩ =>
      ⟨hparts, congrArg StmtKind.consts hshape⟩
  | .namespaceDecl _ none => .pure ⟨rfl, rfl⟩
  | .namespaceDecl _ (some _) => .body fun _ => .pure ⟨rfl, rfl⟩

/-! ## One at a time -/

/-- What is done with one expression: the edit, its parts, and what comes last. -/
def visitExpr (r : Traversal m) (kind : ExprKind) (span : Span) : m ExprKind := do
  let edit ← r.enterExpr (.mk kind span)
  let kind := edit (← r.exprKind kind)
  r.leaveExpr kind
  return kind

/-- What is done with one statement: the edit, its parts, and what comes last. -/
def visitStmt (r : Traversal m) (kind : StmtKind) (span : Span) : m (StmtKind × List Stmt) := do
  let edit ← r.enterStmt (.mk kind span)
  let kind := edit (← r.stmtKind kind)
  r.leaveStmt kind span

theorem part_expr (kind : ExprKind) (span : Span) :
    r.part (.expr (.mk kind span)) = (fun kind' => .expr (.mk kind' span)) <$> r.visitExpr kind span := by
  rw [part, expr, visitExpr]
  simp only [map_eq_pure_bind, bind_assoc, pure_bind]

omit [LawfulMonad m] in
theorem part_body (stmts : List Stmt) :
    r.part (.body stmts) = (do return .body (← r.stmts stmts)) := rfl

theorem part_cons (kind : StmtKind) (span : Span) (rest : List Stmt) :
    r.part (.body (.mk kind span :: rest)) = (do
      let (kind', added) ← r.visitStmt kind span
      return .body (.mk kind' span :: (added ++ (← r.stmts rest)))) := by
  rw [part, stmts, visitStmt]
  simp only [bind_assoc, pure_bind]

end Traversal

end QueryTaint
