import QueryTaint.Ir.Operand
import QueryTaint.Syntax.Tree

/-!
# Operations

One type for every operation of the intermediate language. `OpKind.slots` lists the operands of an
operation with the fields they stand in, and `OpKind.mapOperands` replaces them; everything that
reads or replaces operands goes through these two.
-/

namespace QueryTaint

/-- A declared type. -/
inductive DeclaredType where
  | mixed
  | void
  | builtin (name : String) (nullable : Bool)
  | reference (name : String) (nullable : Bool)
  | union (types : List DeclaredType)
deriving Repr, Inhabited

namespace DeclaredType

mutual

/-- How a declared type is written. -/
def text : DeclaredType → String
  | mixed => "mixed"
  | void => "void"
  | builtin name nullable => if nullable then "?" ++ name else name
  | reference name nullable => if nullable then "?" ++ name else name
  | union types => "|".intercalate (texts types)

/-- How declared types are written. -/
def texts : List DeclaredType → List String
  | [] => []
  | type :: rest => text type :: texts rest

end

end DeclaredType

/-- A field of an operation that holds operands. -/
inductive Field where
  | var | expr | result | left | right | keys | values | dim | list | name | cls | args | uses
  | vars | default | key | value | exprs | parent | implements | traits | cond | cases
deriving DecidableEq, Repr, Inhabited

/-- The name of a field. -/
def Field.text : Field → String
  | var => "var"
  | expr => "expr"
  | result => "result"
  | left => "left"
  | right => "right"
  | keys => "keys"
  | values => "values"
  | dim => "dim"
  | list => "list"
  | name => "name"
  | cls => "class"
  | args => "args"
  | uses => "use_vars"
  | vars => "vars"
  | default => "default_var"
  | key => "key"
  | value => "value"
  | exprs => "exprs"
  | parent => "extends"
  | implements => "implements"
  | traits => "traits"
  | cond => "cond"
  | cases => "cases"

/-- The place of an operand in an operation: a field and, in a list, a position. -/
structure Slot where
  field : Field
  index : Option Nat
deriving DecidableEq, Repr, Inhabited

/-- An operation. A key of an array that was not given is a null operand; a switch leads to the
target at the position of the first case that matches. -/
inductive OpKind where
  | assign (var expr result : OperandId)
  | assignRef (var expr result : OperandId)
  | binary (op : BinaryOp) (left right result : OperandId)
  | unary (op : UnaryOp) (expr result : OperandId)
  | cast (kind : CastKind) (expr result : OperandId)
  | array (keys values : List OperandId) (byRef : List Bool) (result : OperandId)
  | element (var : OperandId) (dim : Option OperandId) (result : OperandId)
  | concatList (list : List OperandId) (result : OperandId)
  | constFetch (name result : OperandId)
  | classConst (cls name result : OperandId)
  | property (var name result : OperandId)
  | staticProperty (cls name result : OperandId)
  | functionCall (name : OperandId) (args : List OperandId) (result : OperandId)
  | methodCall (var name : OperandId) (args : List OperandId) (nullsafe : Bool)
      (result : OperandId)
  | staticCall (cls name : OperandId) (args : List OperandId) (result : OperandId)
  | new (cls : OperandId) (args : List OperandId) (result : OperandId)
  | closure (func : FuncId) (uses : List OperandId) (result : OperandId)
  | includeFile (kind : IncludeKind) (expr result : OperandId)
  | instanceOf (expr cls result : OperandId)
  | isset (vars : List OperandId) (result : OperandId)
  | param (name : OperandId) (default : Option OperandId) (defaultBlock : Option BlockId)
      (byRef variadic : Bool) (type : DeclaredType) (func : FuncId) (result : OperandId)
  | phi (vars : List OperandId) (result : OperandId)
  | assertion (expr : OperandId) (assertion : Assertion) (result : OperandId)
  | yield (key value : Option OperandId) (result : OperandId)
  | yieldFrom (expr result : OperandId)
  | reset (var : OperandId)
  | iterValid (var result : OperandId)
  | iterKey (var result : OperandId)
  | iterValue (var : OperandId) (byRef : Bool) (result : OperandId)
  | next (var : OperandId)
  | echo (expr : OperandId)
  | unset (exprs results : List OperandId)
  | globalVar (var : OperandId)
  | staticVar (var : OperandId) (default : Option OperandId) (defaultBlock : Option BlockId)
  | constDecl (name value : OperandId) (valueBlock : Option BlockId)
  | classDecl (kind : ClassKind) (name : OperandId) (body : BlockId) (flags : Nat)
      (parent : Option OperandId) (implements : List OperandId)
  | classMethod (func : FuncId) (flags : Nat)
  | function (func : FuncId)
  | propertyDecl (name : OperandId) (flags : Nat) (type : DeclaredType)
      (default : Option OperandId) (defaultBlock : Option BlockId)
  | traitUse (traits : List OperandId) (adaptations : List String)
  | jump (target : BlockId)
  | jumpIf (cond : OperandId) (ifTarget elseTarget : BlockId)
  | switch (cond : OperandId) (cases : List OperandId) (targets : List BlockId)
      (defaultTarget : BlockId)
  | returns (expr : Option OperandId)
  | exit (expr : Option OperandId)
  | throws (expr : OperandId)
deriving Repr

/-- In the place of an operation that was never made stands one that mentions no entry. -/
instance : Inhabited OpKind := ⟨.unset [] []⟩

namespace OpKind

/-- The slot of a single operand. -/
def one (field : Field) (id : OperandId) : List (Slot × OperandId) := [(⟨field, none⟩, id)]

/-- The slot of an operand that may be absent. -/
def optional (field : Field) (id : Option OperandId) : List (Slot × OperandId) :=
  match id with
  | some id => one field id
  | none => []

/-- The slots of a list of operands. -/
def many (field : Field) (ids : List OperandId) : List (Slot × OperandId) :=
  ids.mapIdx fun i id => (⟨field, some i⟩, id)

/-- The operands of an operation with their slots. -/
def slots : OpKind → List (Slot × OperandId)
  | assign v e r | assignRef v e r => one .var v ++ one .expr e ++ one .result r
  | binary _ a b r => one .left a ++ one .right b ++ one .result r
  | unary _ e r | cast _ e r | includeFile _ e r | yieldFrom e r =>
    one .expr e ++ one .result r
  | array ks vs _ r => many .keys ks ++ many .values vs ++ one .result r
  | element v d r => one .var v ++ optional .dim d ++ one .result r
  | concatList l r => many .list l ++ one .result r
  | constFetch n r => one .name n ++ one .result r
  | classConst c n r | staticProperty c n r => one .cls c ++ one .name n ++ one .result r
  | property v n r => one .var v ++ one .name n ++ one .result r
  | functionCall n as r => one .name n ++ many .args as ++ one .result r
  | methodCall v n as _ r => one .var v ++ one .name n ++ many .args as ++ one .result r
  | staticCall c n as r => one .cls c ++ one .name n ++ many .args as ++ one .result r
  | new c as r => one .cls c ++ many .args as ++ one .result r
  | closure _ us r => many .uses us ++ one .result r
  | instanceOf e c r => one .expr e ++ one .cls c ++ one .result r
  | isset vs r | phi vs r => many .vars vs ++ one .result r
  | param n d _ _ _ _ _ r => one .name n ++ optional .default d ++ one .result r
  | assertion e _ r => one .expr e ++ one .result r
  | yield k v r => optional .key k ++ optional .value v ++ one .result r
  | reset v | next v | globalVar v => one .var v
  | iterValid v r | iterKey v r | iterValue v _ r => one .var v ++ one .result r
  | echo e | throws e => one .expr e
  | unset es rs => many .exprs es ++ many .result rs
  | staticVar v d _ => one .var v ++ optional .default d
  | constDecl n v _ => one .name n ++ one .value v
  | classDecl _ n _ _ p is => one .name n ++ optional .parent p ++ many .implements is
  | propertyDecl n _ _ d _ => one .name n ++ optional .default d
  | traitUse ts _ => many .traits ts
  | jumpIf c _ _ => one .cond c
  | switch c cs _ _ => one .cond c ++ many .cases cs
  | returns e | exit e => optional .expr e
  | classMethod .. | function _ | jump _ => []

/-- The operation with every operand replaced. -/
def mapOperands (f : OperandId → OperandId) : OpKind → OpKind
  | assign v e r => assign (f v) (f e) (f r)
  | assignRef v e r => assignRef (f v) (f e) (f r)
  | binary op a b r => binary op (f a) (f b) (f r)
  | unary op e r => unary op (f e) (f r)
  | cast k e r => cast k (f e) (f r)
  | array ks vs bs r => array (ks.map f) (vs.map f) bs (f r)
  | element v d r => element (f v) (d.map f) (f r)
  | concatList l r => concatList (l.map f) (f r)
  | constFetch n r => constFetch (f n) (f r)
  | classConst c n r => classConst (f c) (f n) (f r)
  | property v n r => property (f v) (f n) (f r)
  | staticProperty c n r => staticProperty (f c) (f n) (f r)
  | functionCall n as r => functionCall (f n) (as.map f) (f r)
  | methodCall v n as b r => methodCall (f v) (f n) (as.map f) b (f r)
  | staticCall c n as r => staticCall (f c) (f n) (as.map f) (f r)
  | new c as r => new (f c) (as.map f) (f r)
  | closure fn us r => closure fn (us.map f) (f r)
  | includeFile k e r => includeFile k (f e) (f r)
  | instanceOf e c r => instanceOf (f e) (f c) (f r)
  | isset vs r => isset (vs.map f) (f r)
  | param n d db br va t fn r => param (f n) (d.map f) db br va t fn (f r)
  | phi vs r => phi (vs.map f) (f r)
  | assertion e a r => assertion (f e) a (f r)
  | yield k v r => yield (k.map f) (v.map f) (f r)
  | yieldFrom e r => yieldFrom (f e) (f r)
  | reset v => reset (f v)
  | iterValid v r => iterValid (f v) (f r)
  | iterKey v r => iterKey (f v) (f r)
  | iterValue v b r => iterValue (f v) b (f r)
  | next v => next (f v)
  | echo e => echo (f e)
  | unset es rs => unset (es.map f) (rs.map f)
  | globalVar v => globalVar (f v)
  | staticVar v d db => staticVar (f v) (d.map f) db
  | constDecl n v vb => constDecl (f n) (f v) vb
  | classDecl k n b fl p is => classDecl k (f n) b fl (p.map f) (is.map f)
  | classMethod fn fl => classMethod fn fl
  | function fn => function fn
  | propertyDecl n fl t d db => propertyDecl (f n) fl t (d.map f) db
  | traitUse ts as => traitUse (ts.map f) as
  | jump b => jump b
  | jumpIf c a b => jumpIf (f c) a b
  | switch c cs ts d => switch (f c) (cs.map f) ts d
  | returns e => returns (e.map f)
  | exit e => exit (e.map f)
  | throws e => throws (f e)

/-- Whether the operation writes the operand in a slot: the result, and the variable that is
assigned. -/
def writes (kind : OpKind) (slot : Slot) : Bool :=
  match slot.field with
  | .result => true
  | .var =>
    match kind with
    | assign .. | assignRef .. | staticVar .. => true
    | _ => false
  | _ => false

/-- The operands that the operation reads. -/
def reads (kind : OpKind) : List OperandId :=
  (kind.slots.filter fun (slot, _) => !kind.writes slot).map (·.2)

/-- The operand in a single field. -/
def operand? (kind : OpKind) (field : Field) : Option OperandId :=
  (kind.slots.find? fun (slot, _) => slot = ⟨field, none⟩).map (·.2)

/-- The operands in a list field. -/
def operandList (kind : OpKind) (field : Field) : List OperandId :=
  (kind.slots.filter fun (slot, _) => slot.field = field && slot.index.isSome).map (·.2)

/-- The operand that holds the operation's value. -/
def result? (kind : OpKind) : Option OperandId := kind.operand? .result

/-- The blocks that an operation names, with the names they have in it. -/
def subBlocks : OpKind → List (String × BlockId)
  | jump target => [("target", target)]
  | jumpIf _ a b => [("if", a), ("else", b)]
  | switch _ _ targets d => targets.map (("targets", ·)) ++ [("default", d)]
  | param _ _ b .. | staticVar _ _ b | propertyDecl _ _ _ _ b =>
    (b.map (("default_block", ·))).toList
  | constDecl _ _ b => (b.map (("value_block", ·))).toList
  | classDecl _ _ body .. => [("stmts", body)]
  | _ => []

/-- The operation with every block it names replaced. -/
def mapBlocks (f : BlockId → BlockId) : OpKind → OpKind
  | jump target => jump (f target)
  | jumpIf c a b => jumpIf c (f a) (f b)
  | switch c cs targets d => switch c cs (targets.map f) (f d)
  | param n d b br va t fn r => param n d (b.map f) br va t fn r
  | staticVar v d b => staticVar v d (b.map f)
  | propertyDecl n fl t d b => propertyDecl n fl t d (b.map f)
  | constDecl n v b => constDecl n v (b.map f)
  | classDecl k n body fl p is => classDecl k n (f body) fl p is
  | other => other

/-- The blocks where execution may go on after the operation. -/
def successors : OpKind → List BlockId
  | jump target => [target]
  | jumpIf _ a b => [a, b]
  | switch _ _ targets d => targets ++ [d]
  | _ => []

/-- Whether the operation ends a block. -/
def isTerminator : OpKind → Bool
  | jump _ | jumpIf .. | switch .. | returns _ | exit _ | throws _ => true
  | _ => false

/-- Whether the operation calls a function or method. -/
def isCall : OpKind → Bool
  | functionCall .. | methodCall .. | staticCall .. => true
  | _ => false

/-- The name of an operation. -/
def name : OpKind → String
  | assign .. => "Assign"
  | assignRef .. => "AssignRef"
  | binary .. => "Binary"
  | unary .. => "Unary"
  | cast .. => "Cast"
  | array .. => "Array"
  | element .. => "ArrayDimFetch"
  | concatList .. => "ConcatList"
  | constFetch .. => "ConstFetch"
  | classConst .. => "ClassConstFetch"
  | property .. => "PropertyFetch"
  | staticProperty .. => "StaticPropertyFetch"
  | functionCall .. => "FunctionCall"
  | methodCall .. => "MethodCall"
  | staticCall .. => "StaticCall"
  | new .. => "New"
  | closure .. => "Closure"
  | includeFile .. => "Include"
  | instanceOf .. => "InstanceOf"
  | isset .. => "Isset"
  | param .. => "Param"
  | phi .. => "Phi"
  | assertion .. => "Assertion"
  | yield .. => "Yield"
  | yieldFrom .. => "YieldFrom"
  | reset _ => "Reset"
  | iterValid .. => "IterValid"
  | iterKey .. => "IterKey"
  | iterValue .. => "IterValue"
  | next _ => "Next"
  | echo _ => "Echo"
  | unset .. => "Unset"
  | globalVar _ => "GlobalVar"
  | staticVar .. => "StaticVar"
  | constDecl .. => "Const"
  | classDecl .. => "Class"
  | classMethod .. => "ClassMethod"
  | function _ => "Function"
  | propertyDecl .. => "Property"
  | traitUse .. => "TraitUse"
  | jump _ => "Jump"
  | jumpIf .. => "JumpIf"
  | switch .. => "Switch"
  | returns _ => "Return"
  | exit _ => "Exit"
  | throws _ => "Throw"

end OpKind

/-- An operation with its place in the source and the block that holds it. -/
structure Op where
  kind : OpKind
  span : Span
  file : Option String := none
  block : Option BlockId := none
deriving Repr, Inhabited

end QueryTaint
