import Mathlib.Data.List.Forall2
import QueryTaint.Concrete.File

/-!
# Trees marked twice

A grammar rule sees of a node its label, the nodes below it and what those mean. Here two markings
of one tree are compared. Meanings agree (`Agree`) if both give the same value or both fail, at
whatever depths of nesting they are read; only the first of them may also stop at the limit of
nesting. Nodes are twins (`Twin`) if they have the same label, their meanings agree and their
children are twins. Every rule then reads twins alike: `Site.Twin.exprKind` and
`Site.Twin.stmt` put together what the rules for the parts of expressions and statements keep.
-/

namespace QueryTaint.Concrete

variable {α β γ δ : Type} {R : α → β → Prop} {S : γ → δ → Prop}

/-! ## Readings that agree -/

/-- The error that expressions nest too deeply. -/
def IsTooDeep (e : Error) : Prop := ∃ path line kind, e = .parse path .tooDeep line kind

/-- Two results are alike: related values or an error each, or the first is stopped by the limit of
nesting. -/
inductive Alike (R : α → β → Prop) : Except Error α → Except Error β → Prop
  | ok {x : α} {y : β} : R x y → Alike R (.ok x) (.ok y)
  | error {e e' : Error} : Alike R (.error e) (.error e')
  | tooDeep {e : Error} {r : Except Error β} : IsTooDeep e → Alike R (.error e) r

/-- Two readings are alike wherever they begin. -/
def Agree (R : α → β → Prop) (m : Reading α) (m' : Reading β) : Prop :=
  ∀ depth depth', Alike R (m depth) (m' depth')

theorem Alike.bind {r : Except Error α} {r' : Except Error β} {f : α → Except Error γ}
    {f' : β → Except Error δ} (h : Alike R r r') (hf : ∀ x y, R x y → Alike S (f x) (f' y)) :
    Alike S (r >>= f) (r' >>= f') := by
  cases h with
  | ok hxy => exact hf _ _ hxy
  | error => exact .error
  | tooDeep he => exact .tooDeep he

namespace Agree

theorem pure {x : α} {y : β} (h : R x y) : Agree R (pure x) (pure y) := fun _ _ => .ok h

theorem throw {e e' : Error} : Agree R (throw e) (throw e') := fun _ _ => .error

theorem bind {m : Reading α} {m' : Reading β} {f : α → Reading γ} {f' : β → Reading δ}
    (h : Agree R m m') (hf : ∀ x y, R x y → Agree S (f x) (f' y)) :
    Agree S (m >>= f) (m' >>= f') := fun depth depth' =>
  (h depth depth').bind fun x y hxy => hf x y hxy depth depth'

/-- What comes after the same value agrees. -/
theorem next {m m' : Reading α} {f : α → Reading γ} {f' : α → Reading δ} (h : Agree Eq m m')
    (hf : ∀ x, Agree S (f x) (f' x)) : Agree S (m >>= f) (m' >>= f') :=
  h.bind fun x _ hxy => hxy ▸ hf x

theorem lift {r : Except Error α} {r' : Except Error β} (h : Alike R r r') :
    Agree R (liftM r : Reading α) (liftM r' : Reading β) := fun _ _ => h

/-- The limit of nesting makes no other difference. -/
theorem deeper {m : Reading α} {m' : Reading β} (h : Agree R m m') (src : Source) (s : Site)
    (levels : Nat) : Agree R (deeper src s levels m) m' := by
  intro depth depth'
  unfold Concrete.deeper
  split
  · exact .tooDeep ⟨_, _, _, rfl⟩
  · exact h _ _

theorem ite {c : Prop} [Decidable c] {m n : Reading α} {m' n' : Reading β}
    (hpos : c → Agree R m m') (hneg : ¬c → Agree R n n') :
    Agree R (if c then m else n) (if c then m' else n') := by
  split
  · exact hpos ‹_›
  · exact hneg ‹_›

theorem optionMapM {x : Option α} {y : Option β} {f : α → Reading γ} {f' : β → Reading γ}
    (h : Option.Rel R x y) (hf : ∀ x y, R x y → Agree Eq (f x) (f' y)) :
    Agree Eq (x.mapM f) (y.mapM f') := by
  cases h with
  | none => exact .pure rfl
  | some hxy => exact .next (hf _ _ hxy) fun _ => .pure rfl

variable {xs : List α} {ys : List β}

theorem mapM {f : α → Reading γ} {f' : β → Reading γ} (h : List.Forall₂ R xs ys)
    (hf : ∀ x y, R x y → Agree Eq (f x) (f' y)) : Agree Eq (xs.mapM f) (ys.mapM f') := by
  induction h with
  | nil => exact .pure rfl
  | cons hxy _ ih =>
    rw [List.mapM_cons, List.mapM_cons]
    exact .next (hf _ _ hxy) fun _ => .next ih fun _ => .pure rfl

theorem filterMapM {f : α → Reading (Option γ)} {f' : β → Reading (Option γ)}
    (h : List.Forall₂ R xs ys) (hf : ∀ x y, R x y → Agree Eq (f x) (f' y)) :
    Agree Eq (xs.filterMapM f) (ys.filterMapM f') := by
  induction h with
  | nil => exact .pure rfl
  | cons hxy _ ih =>
    rw [List.filterMapM_cons, List.filterMapM_cons]
    refine .next (hf _ _ hxy) fun found => ?_
    cases found with
    | none => exact ih
    | some _ => exact .next ih fun _ => .pure rfl

theorem foldlM {f : γ → α → Reading γ} {f' : γ → β → Reading γ} (h : List.Forall₂ R xs ys)
    (hf : ∀ z x y, R x y → Agree Eq (f z x) (f' z y)) (z : γ) :
    Agree Eq (xs.foldlM f z) (ys.foldlM f' z) := by
  induction h generalizing z with
  | nil => exact .pure rfl
  | cons hxy _ ih => exact .next (hf z _ _ hxy) ih

end Agree

/-! ## Related lists -/

section Lists

variable {xs : List α} {ys : List β} (h : List.Forall₂ R xs ys)
include h

theorem map_eq_of_rel {f : α → γ} {g : β → γ} (hf : ∀ x y, R x y → f x = g y) :
    xs.map f = ys.map g := by
  have hmap := List.rel_map (P := Eq) hf h
  rwa [List.forall₂_eq_eq_eq] at hmap

theorem filterMap_eq_of_rel {f : α → Option γ} {g : β → Option γ}
    (hf : ∀ x y, R x y → f x = g y) : xs.filterMap f = ys.filterMap g := by
  induction h with
  | nil => rfl
  | cons hxy _ ih => rw [List.filterMap_cons, List.filterMap_cons, hf _ _ hxy, ih]

theorem flatMap_eq_of_rel {f : α → List γ} {g : β → List γ} (hf : ∀ x y, R x y → f x = g y) :
    xs.flatMap f = ys.flatMap g := by
  rw [List.flatMap_def, List.flatMap_def, map_eq_of_rel h hf]

theorem foldl_eq_of_rel {f : γ → α → γ} {g : γ → β → γ} (hf : ∀ z x y, R x y → f z x = g z y)
    (z : γ) : xs.foldl f z = ys.foldl g z :=
  List.rel_foldl (P := Eq) (fun z _ hz x y hxy => hz ▸ hf z x y hxy) rfl h

theorem rel_filter_of_eq {p : α → Bool} {q : β → Bool} (hp : ∀ x y, R x y → p x = q y) :
    List.Forall₂ R (xs.filter p) (ys.filter q) :=
  List.rel_filter (fun x y hxy => Iff.of_eq (congrArg (· = true) (hp x y hxy))) h

theorem rel_takeWhile {p : α → Bool} {q : β → Bool} (hp : ∀ x y, R x y → p x = q y) :
    List.Forall₂ R (xs.takeWhile p) (ys.takeWhile q) := by
  induction h with
  | nil => exact .nil
  | @cons x y _ _ hxy _ ih =>
    rw [List.takeWhile_cons, List.takeWhile_cons, hp x y hxy]
    cases q y with
    | true => exact .cons hxy ih
    | false => exact .nil

theorem rel_eraseP {p : α → Bool} {q : β → Bool} (hp : ∀ x y, R x y → p x = q y) :
    List.Forall₂ R (xs.eraseP p) (ys.eraseP q) := by
  induction h with
  | nil => exact .nil
  | @cons x y _ _ hxy hrest ih =>
    rw [List.eraseP_cons, List.eraseP_cons, hp x y hxy]
    cases q y with
    | true => exact hrest
    | false => exact .cons hxy ih

theorem rel_head? : Option.Rel R xs.head? ys.head? := by
  cases h with
  | nil => exact .none
  | cons hxy _ => exact .some hxy

theorem rel_getLast? : Option.Rel R xs.getLast? ys.getLast? := by
  rw [List.getLast?_eq_head?_reverse, List.getLast?_eq_head?_reverse]
  exact rel_head? (List.rel_reverse h)

theorem rel_find? {p : α → Bool} {q : β → Bool} (hp : ∀ x y, R x y → p x = q y) :
    Option.Rel R (xs.find? p) (ys.find? q) := by
  rw [← List.head?_filter, ← List.head?_filter]
  exact rel_head? (rel_filter_of_eq h hp)

end Lists

theorem rel_or {x x' : Option α} {y y' : Option β} (h : Option.Rel R x y)
    (h' : Option.Rel R x' y') : Option.Rel R (x.or x') (y.or y') := by
  cases h with
  | none => exact h'
  | some hxy => exact .some hxy

theorem rel_bind {x : Option α} {y : Option β} {f : α → Option γ} {g : β → Option δ}
    (h : Option.Rel R x y) (hf : ∀ x y, R x y → Option.Rel S (f x) (g y)) :
    Option.Rel S (x.bind f) (y.bind g) := by
  cases h with
  | none => exact .none
  | some hxy => exact hf _ _ hxy

theorem rel_getD {x : Option α} {y : Option β} {a : α} {b : β} (h : Option.Rel R x y)
    (hab : R a b) : R (x.getD a) (y.getD b) := by
  cases h with
  | none => exact hab
  | some hxy => exact hxy

theorem optionMap_eq_of_rel {x : Option α} {y : Option β} {f : α → γ} {g : β → γ}
    (h : Option.Rel R x y) (hf : ∀ x y, R x y → f x = g y) : x.map f = y.map g := by
  cases h with
  | none => rfl
  | some hxy => exact congrArg some (hf _ _ hxy)

theorem isSome_eq_of_rel {x : Option α} {y : Option β} (h : Option.Rel R x y) :
    x.isSome = y.isSome := by
  cases h <;> rfl

theorem optionBind_eq_of_rel {x : Option α} {y : Option β} {f : α → Option γ} {g : β → Option γ}
    (h : Option.Rel R x y) (hf : ∀ x y, R x y → f x = g y) : x.bind f = y.bind g := by
  cases h with
  | none => rfl
  | some hxy => exact hf _ _ hxy

/-! ## Twins -/

/-- Reads a chain of binary operators without counting its links as levels of nesting. -/
def wholeChain (c : Except Error Chain) : Reading Expr := do
  let c ← c
  Chain.build (← c.base) c.links.reverse

/-- Two meanings agree in each place where a rule may use them. The chain that ends in a node agrees
with the expression that the other node is. -/
structure Meaning.Agrees (m m' : Meaning) : Prop where
  expr : Agree Eq m.expr m'.expr
  stmt : Agree Eq m.stmt m'.stmt
  sequence : Agree Eq m.sequence m'.sequence
  parts : Agree Eq m.parts m'.parts
  chain : Agree Eq (wholeChain m.chain) m'.expr
  type : m.type.get = m'.type.get

/-- Two marked trees with the same labels whose nodes mean the same. -/
inductive Twin : Node → Node → Prop
  | node {label : Label} {meaning meaning' : Meaning} {children children' : List Node} :
    meaning.Agrees meaning' → List.Forall₂ Twin children children' →
    Twin (.node ⟨label, meaning⟩ children) (.node ⟨label, meaning'⟩ children')

/-- Two places with the same label and with twins for children. -/
structure Site.Twin (s s' : Site) : Prop where
  label : s.label = s'.label
  children : List.Forall₂ Concrete.Twin s.children s'.children

namespace Twin

variable {n n' : Node} (h : Twin n n')
include h

theorem label : n.label.label = n'.label.label := by
  cases h
  rfl

theorem meaning : n.label.meaning.Agrees n'.label.meaning := by
  cases h
  assumption

theorem site : n.site.Twin n'.site := by
  cases h with
  | node _ hchildren => exact ⟨rfl, hchildren⟩

theorem kind : n.kind = n'.kind := congrArg Label.kind h.label

theorem named : n.label.label.named = n'.label.label.named := congrArg Label.named h.label

theorem span : n.span = n'.span := congrArg Label.span h.label

theorem text (src : Source) : n.text src = n'.text src := congrArg src.text h.label

theorem varText (src : Source) : n.varText src = n'.varText src :=
  congrArg (dropStart (· == '$')) (h.text src)

theorem nameText (src : Source) : n.nameText src = n'.nameText src :=
  congrArg₂ Name.parse (h.text src) h.span

theorem type : n.type = n'.type := h.meaning.type

theorem expr : Agree Eq n.expr n'.expr := h.meaning.expr

theorem stmt : Agree Eq n.stmt n'.stmt := h.meaning.stmt

end Twin

theorem optionalExpr_agree {n n' : Option Node} (h : Option.Rel Twin n n') :
    Agree Eq (optionalExpr n) (optionalExpr n') := .optionMapM h fun _ _ hn => hn.expr

namespace Site.Twin

variable {s s' : Site} (h : s.Twin s') {src : Source}
include h

theorem kind : s.kind = s'.kind := congrArg Label.kind h.label

theorem span : s.span = s'.span := congrArg Label.span h.label

theorem parts : List.Forall₂ Concrete.Twin s.parts s'.parts :=
  rel_filter_of_eq h.children fun _ _ hn => by rw [hn.kind]

theorem phrases : List.Forall₂ Concrete.Twin s.phrases s'.phrases :=
  rel_filter_of_eq h.parts fun _ _ hn => hn.named

theorem firstPhrase? : Option.Rel Concrete.Twin s.firstPhrase? s'.firstPhrase? :=
  rel_head? h.phrases

theorem lastPhrase? : Option.Rel Concrete.Twin s.lastPhrase? s'.lastPhrase? :=
  rel_getLast? h.phrases

theorem field? (name : String) : Option.Rel Concrete.Twin (s.field? name) (s'.field? name) :=
  rel_find? h.children fun _ _ hn => by rw [hn.label]

/-- The phrases of a kind. -/
theorem ofKind (kind : String) : List.Forall₂ Concrete.Twin (s.phrases.filter (·.kind = kind))
    (s'.phrases.filter (·.kind = kind)) :=
  rel_filter_of_eq h.phrases fun _ _ hn => by rw [hn.kind]

theorem any_parts {p : Node → Bool} (hp : ∀ n n', Concrete.Twin n n' → p n = p n') :
    s.parts.any p = s'.parts.any p := by
  rw [← List.isSome_find?, ← List.isSome_find?]
  exact isSome_eq_of_rel (rel_find? h.parts hp)

theorem hasKind (kind : String) : s.hasKind kind = s'.hasKind kind :=
  h.any_parts fun _ _ hn => by rw [hn.kind]

omit h in
theorem need_agree {n n' : Option Node} (hn : Option.Rel Concrete.Twin n n') {fault : ParseFault} :
    Agree Concrete.Twin (liftM (s.need src n fault) : Reading Node) (s'.need src n' fault) := by
  cases hn with
  | none => exact .lift .error
  | some hn => exact .lift (.ok hn)

theorem first {fault : ParseFault} :
    Agree Concrete.Twin (liftM (s.need src s.firstPhrase? fault) : Reading Node)
      (s'.need src s'.firstPhrase? fault) := need_agree h.firstPhrase?

theorem last {fault : ParseFault} :
    Agree Concrete.Twin (liftM (s.need src s.lastPhrase? fault) : Reading Node)
      (s'.need src s'.lastPhrase? fault) := need_agree h.lastPhrase?

theorem field {name : String} :
    Agree Concrete.Twin (liftM (s.field src name) : Reading Node) (s'.field src name) :=
  need_agree (h.field? name)

/-- What comes after the expression in the first phrase. -/
theorem firstExpr {f : Expr → Reading γ} {f' : Expr → Reading δ} {fault : ParseFault}
    (hf : ∀ e, Agree S (f e) (f' e)) :
    Agree S (liftM (s.need src s.firstPhrase? fault) >>= fun n => n.expr >>= f)
      (liftM (s'.need src s'.firstPhrase? fault) >>= fun n => n.expr >>= f') :=
  .bind h.first fun _ _ hn => .next hn.expr hf

/-- What comes after the expression that fills a field. -/
theorem fieldExpr {f : Expr → Reading γ} {f' : Expr → Reading δ} {name : String}
    (hf : ∀ e, Agree S (f e) (f' e)) :
    Agree S (liftM (s.field src name) >>= fun n => n.expr >>= f)
      (liftM (s'.field src name) >>= fun n => n.expr >>= f') :=
  .bind h.field fun _ _ hn => .next hn.expr hf

/-- The type that fills a field. -/
theorem fieldType (name : String) :
    (s.field? name).bind (·.type) = (s'.field? name).bind (·.type) :=
  optionBind_eq_of_rel (h.field? name) fun _ _ hn => hn.type

end Site.Twin

/-! ## Types -/

theorem Site.Twin.type {s s' : Site} (h : s.Twin s') (src : Source) : s.type src = s'.type src := by
  have hfirst : s.firstPhrase?.bind (·.type) = s'.firstPhrase?.bind (·.type) :=
    optionBind_eq_of_rel h.firstPhrase? fun _ _ hn => hn.type
  have hall : s.phrases.filterMap (·.type) = s'.phrases.filterMap (·.type) :=
    filterMap_eq_of_rel h.phrases fun _ _ hn => hn.type
  unfold Site.type
  rw [h.kind, h.label, h.span, hfirst, hall]
  generalize s'.kind = kind
  split
  case h_5 =>
    have hphrases := h.phrases
    generalize s.phrases = ns at hphrases ⊢
    generalize s'.phrases = ns' at hphrases ⊢
    match ns, ns', hphrases with
    | _, _, .nil => rfl
    | _, _, .cons hn .nil => exact hn.type
    | _, _, .cons _ (.cons _ _) => rfl
  all_goals rfl

/-! ## Parts of expressions -/

variable {src : Source}

namespace Twin

variable {n n' : Node} (h : Twin n n')
include h

theorem classRef : Agree Eq (classRef src n) (classRef src n') := by
  unfold Concrete.classRef
  rw [h.kind, h.text, h.span]
  exact .ite (fun _ => .pure rfl) fun _ => h.expr

theorem memberName {parent parent' : Site} (hparent : parent.Twin parent') :
    Agree Eq (memberName src parent n) (memberName src parent' n') := by
  unfold Concrete.memberName
  rw [h.kind, h.text, h.span, h.varText, hparent.kind]
  exact .ite (fun _ => .pure rfl) fun _ => .ite (fun _ => .pure rfl) fun _ => h.expr

theorem refValue : Agree Eq (refValue src n) (refValue src n') := by
  unfold Concrete.refValue
  rw [h.kind]
  exact .ite (fun _ => h.site.firstExpr fun _ => .pure rfl) fun _ => .next h.expr fun _ =>
    .pure rfl

theorem arrayItem : Agree Eq (arrayItem src n) (arrayItem src n') := by
  have harrow : (n.site.parts.any (·.text src = "=>")) = n'.site.parts.any (·.text src = "=>") :=
    h.site.any_parts fun _ _ hn => by rw [hn.text]
  unfold Concrete.arrayItem
  rw [h.kind, harrow]
  refine .ite (fun _ => .next h.refValue fun _ => .pure rfl) fun _ => ?_
  have hphrases := h.site.phrases
  generalize n.site.phrases = ns at hphrases ⊢
  generalize n'.site.phrases = ns' at hphrases ⊢
  match ns, ns', hphrases with
  | _, _, .nil => exact .throw
  | _, _, .cons hvalue .nil =>
    dsimp only
    rw [hvalue.kind]
    exact .ite (fun _ => hvalue.site.firstExpr fun _ => .pure rfl) fun _ =>
      .next hvalue.refValue fun _ => .pure rfl
  | _, _, .cons hkey (.cons hvalue .nil) =>
    exact .ite
      (fun _ => .next hvalue.refValue fun _ => .next hkey.expr fun _ => .pure rfl)
      fun _ => .throw
  | _, _, .cons _ (.cons _ (.cons _ _)) => exact .throw

theorem stringElement : Agree Eq (stringElement n src) (stringElement n' src) := by
  have hphrases := h.site.phrases
  unfold Concrete.stringElement
  rw [h.span]
  generalize n.site.phrases = ns at hphrases ⊢
  generalize n'.site.phrases = ns' at hphrases ⊢
  match ns, ns', hphrases with
  | _, _, .nil => exact h.expr
  | _, _, .cons _ .nil => exact h.expr
  | _, _, .cons hvar (.cons hdim .nil) =>
    dsimp only
    rw [hdim.kind, hdim.text, hdim.span]
    exact .ite (fun _ => .next hvar.expr fun _ => .pure rfl) fun _ => h.expr
  | _, _, .cons _ (.cons _ (.cons _ _)) => exact h.expr

theorem body : Agree Eq (body n) (body n') := by
  unfold Concrete.body
  rw [h.kind]
  exact .ite (fun _ => .filterMapM h.site.phrases fun _ _ hp => hp.stmt) fun _ =>
    .next h.stmt fun _ => .pure rfl

end Twin

theorem args_agree {n n' : Option Node} (h : Option.Rel Twin n n') :
    Agree Eq (args src n) (args src n') := by
  cases h with
  | none => exact .pure rfl
  | some h =>
    refine .filterMapM h.site.phrases fun n n' hn => ?_
    rw [hn.kind]
    generalize n'.kind = kind
    split
    · exact .pure rfl
    · refine .bind hn.site.last fun value value' hvalue => ?_
      rw [hvalue.kind]
      exact .ite (fun _ => hvalue.site.firstExpr fun _ => .pure rfl) fun _ =>
        .next hvalue.expr fun _ => .pure rfl
    · exact .next hn.expr fun _ => .pure rfl

theorem params_agree {n n' : Option Node} (h : Option.Rel Twin n n') :
    Agree Eq (params src n) (params src n') := by
  cases h with
  | none => exact .pure rfl
  | some h =>
    refine .filterMapM h.site.phrases fun n n' hn => ?_
    have hsite := hn.site
    dsimp only
    rw [hn.kind, hn.span, hsite.hasKind, hsite.fieldType, isSome_eq_of_rel (hsite.field? _)]
    refine .ite (fun _ => .bind hsite.field fun name name' hname => ?_) fun _ => .pure rfl
    rw [hname.varText]
    exact .next (optionalExpr_agree (hsite.field? _)) fun _ => .pure rfl

theorem arrayItemsFrom_agree {ns ns' : List Node} (h : List.Forall₂ Twin ns ns') (waiting : Bool) :
    Agree Eq (arrayItemsFrom src waiting ns) (arrayItemsFrom src waiting ns') := by
  induction h generalizing waiting with
  | nil => exact .pure rfl
  | cons hn _ ih =>
    unfold arrayItemsFrom
    rw [hn.named, hn.text]
    exact .ite (fun _ => .next hn.arrayItem fun _ => .next (ih _) fun _ => .pure rfl)
      fun _ => .ite (fun _ => .next (ih _) fun _ => .pure rfl) fun _ => ih _

theorem newParts_agree {ns ns' : List Node} (h : List.Forall₂ Twin ns ns') (cls : Option Expr)
    (found : List (Arg Expr)) :
    Agree Eq (newParts src cls found ns) (newParts src cls found ns') := by
  induction h generalizing cls found with
  | nil => exact .pure rfl
  | cons hn _ ih =>
    unfold newParts
    rw [hn.kind, hn.span]
    generalize (Tree.kind _) = kind
    split
    · exact .next (args_agree (.some hn)) fun _ => ih _ _
    · exact .next (args_agree (rel_find? hn.site.phrases fun _ _ hp => by rw [hp.kind])) fun _ =>
        ih _ _
    · cases cls with
      | none => exact .next hn.classRef fun _ => ih _ _
      | some _ => exact ih _ _

/-! ## Expressions -/

namespace Site.Twin

variable {s s' : Site} (h : s.Twin s')
include h

theorem stmtList : Agree Eq (stmtList s) (stmtList s') :=
  .filterMapM h.phrases fun _ _ hn => hn.stmt

theorem arrayItems : Agree Eq (arrayItems src s) (arrayItems src s') := by
  refine .next (arrayItemsFrom_agree h.parts true) fun (items, waiting) => ?_
  dsimp only
  split <;> exact .pure rfl

theorem stringParts : Agree Eq (s.stringParts src) (s'.stringParts src) := by
  refine .next (.mapM h.parts fun n n' hn => ?_) fun _ => .pure rfl
  rw [hn.kind, hn.text, hn.span, hn.named]
  generalize n'.kind = kind
  split
  case h_6 | h_7 => exact hn.meaning.parts
  case h_12 =>
    exact .ite (fun _ => .next hn.stringElement fun _ => .pure rfl) fun _ => .pure rfl
  case h_13 => exact .ite (fun _ => .next hn.expr fun _ => .pure rfl) fun _ => .pure rfl
  all_goals exact .pure rfl

theorem interpolated : Agree Eq (interpolated src s) (interpolated src s') := by
  refine .next h.stringParts fun parts => ?_
  split <;> exact .pure rfl

theorem instanceOf : Agree Eq (instanceOf src s) (instanceOf src s') := by
  unfold Concrete.instanceOf
  rw [h.span]
  exact h.fieldExpr fun _ => .bind h.field fun _ _ hcls =>
    .next hcls.classRef fun _ => .pure rfl

theorem castExpr : Agree Eq (castExpr src s) (castExpr src s') := by
  unfold Concrete.castExpr
  refine .bind (need_agree (rel_or (h.field? _) h.firstPhrase?)) fun type type' htype => ?_
  refine .bind (need_agree (rel_or (h.field? _) h.lastPhrase?)) fun value value' hvalue => ?_
  dsimp only
  rw [htype.text]
  split
  · exact .throw
  · exact .next hvalue.expr fun _ => .pure rfl

theorem callExpr : Agree Eq (callExpr src s) (callExpr src s') := by
  refine .bind h.field fun function function' hfunction => ?_
  refine .next (args_agree (h.field? _)) fun args => ?_
  dsimp only
  rw [hfunction.kind, hfunction.nameText, hfunction.span]
  refine .ite (fun _ => ?_) fun _ => .next hfunction.expr fun _ => .pure rfl
  refine .ite (fun _ => .pure rfl) fun _ => .ite (fun _ => ?_) fun _ =>
    .ite (fun _ => .pure rfl) fun _ => .pure rfl
  cases args with
  | nil => exact .throw
  | cons => exact .pure rfl

theorem captures : captures src s = captures src s' := by
  refine flatMap_eq_of_rel (rel_filter_of_eq h.phrases fun _ _ hn => by rw [hn.kind])
    fun clause clause' hclause => map_eq_of_rel hclause.site.phrases fun var var' hvar => ?_
  rw [hvar.kind, hvar.varText, (rel_getD hvar.site.firstPhrase? hvar).varText]

theorem closureExpr : Agree Eq (closureExpr src s) (closureExpr src s') := by
  unfold Concrete.closureExpr
  rw [h.captures, h.hasKind, h.hasKind, h.fieldType]
  exact .next (params_agree (h.field? _)) fun _ => .bind h.field fun _ _ hbody =>
    .next hbody.body fun _ => .pure rfl

theorem arrowExpr : Agree Eq (arrowExpr src s) (arrowExpr src s') := by
  unfold Concrete.arrowExpr
  rw [h.hasKind, h.hasKind, h.fieldType]
  refine .bind h.field fun body body' hbody => ?_
  rw [hbody.span]
  exact .next hbody.expr fun _ => .next (params_agree (h.field? _)) fun _ => .pure rfl

theorem yieldExpr : Agree Eq (yieldExpr src s) (yieldExpr src s') := by
  unfold Concrete.yieldExpr
  rw [h.label]
  dsimp only
  refine .ite (fun _ => h.firstExpr fun _ => .pure rfl) fun _ => ?_
  have hfirst := h.firstPhrase?
  generalize s.firstPhrase? = value at hfirst ⊢
  generalize s'.firstPhrase? = value' at hfirst ⊢
  cases hfirst with
  | none => exact .pure rfl
  | @some value value' hvalue =>
    dsimp only
    rw [hvalue.kind]
    refine .ite (fun _ => ?_) fun _ => .next hvalue.expr fun _ => .pure rfl
    have hphrases := hvalue.site.phrases
    generalize value.site.phrases = ns at hphrases ⊢
    generalize value'.site.phrases = ns' at hphrases ⊢
    match ns, ns', hphrases with
    | _, _, .nil => exact .pure rfl
    | _, _, .cons hn .nil => exact .next (optionalExpr_agree (.some hn)) fun _ => .pure rfl
    | _, _, .cons hkey (.cons hvalue .nil) =>
      exact .next hkey.expr fun _ => .next hvalue.expr fun _ => .pure rfl
    | _, _, .cons hn (.cons _ (.cons _ _)) =>
      exact .next (optionalExpr_agree (.some hn)) fun _ => .pure rfl

/-- The rule of every kind of expression reads twins alike. -/
theorem exprKind : Agree Eq (exprKind src s) (exprKind src s') := by
  unfold Concrete.exprKind
  rw [h.kind, h.label, h.span]
  have hbefore : s.parts.head?.map (·.text src) = s'.parts.head?.map (·.text src) :=
    optionMap_eq_of_rel (rel_head? h.parts) fun _ _ hn => hn.text src
  have htoken : (s.parts.find? (!·.label.label.named)).map (·.text src) =
      (s'.parts.find? (!·.label.label.named)).map (·.text src) :=
    optionMap_eq_of_rel (rel_find? h.parts fun _ _ hn => by rw [hn.named]) fun _ _ hn => hn.text src
  dsimp only
  rw [hbefore, htoken]
  -- the cases are numbered as the kinds stand in the rule
  generalize s'.kind = kind
  split
  case h_8 | h_9 | h_10 => exact h.interpolated
  case h_11 => exact .next h.interpolated fun kind => by split <;> exact .pure rfl
  case h_12 | h_13 => split <;> exact .pure rfl
  case h_19 =>
    refine .bind h.field fun token token' htoken => ?_
    rw [htoken.text]
    split
    · exact .throw
    · exact h.fieldExpr fun _ => h.fieldExpr fun _ => .pure rfl
  case h_20 =>
    refine .bind h.last fun _ _ hoperand => ?_
    split
    · exact .throw
    · exact .next hoperand.expr fun _ => .pure rfl
  case h_22 => exact h.castExpr
  case h_23 =>
    exact h.fieldExpr fun _ => .next (optionalExpr_agree (h.field? _)) fun _ =>
      h.fieldExpr fun _ => .pure rfl
  case h_24 | h_25 =>
    exact h.fieldExpr fun _ => .bind h.field fun _ _ hname =>
      .next (hname.memberName h) fun _ => .pure rfl
  case h_26 | h_27 =>
    exact h.fieldExpr fun _ => .bind h.field fun _ _ hname =>
      .next (hname.memberName h) fun _ => .next (args_agree (h.field? _)) fun _ => .pure rfl
  case h_28 =>
    exact .bind h.field fun _ _ hcls => .next hcls.classRef fun _ =>
      .bind h.field fun _ _ hname => .next (hname.memberName h) fun _ =>
      .next (args_agree (h.field? _)) fun _ => .pure rfl
  case h_29 =>
    exact .bind h.field fun _ _ hcls => .next hcls.classRef fun _ =>
      .bind h.field fun _ _ hname => .next (hname.memberName h) fun _ => .pure rfl
  case h_30 =>
    have hphrases := h.phrases
    generalize s.phrases = ns at hphrases ⊢
    generalize s'.phrases = ns' at hphrases ⊢
    match ns, ns', hphrases with
    | _, _, .nil => exact .throw
    | _, _, .cons _ .nil => exact .throw
    | _, _, .cons hcls (.cons hname .nil) =>
      dsimp only
      rw [hname.text]
      exact .next hcls.classRef fun _ => .pure rfl
    | _, _, .cons _ (.cons _ (.cons _ _)) => exact .throw
  case h_31 => exact h.callExpr
  case h_32 =>
    refine .next (newParts_agree h.phrases none []) fun (cls, args) => ?_
    cases cls with
    | none => exact .throw
    | some _ => exact .pure rfl
  case h_33 =>
    have hphrases := h.phrases
    generalize s.phrases = ns at hphrases ⊢
    generalize s'.phrases = ns' at hphrases ⊢
    cases hphrases with
    | nil => exact .throw
    | cons hvar hrest =>
      exact .next hvar.expr fun _ => .next (optionalExpr_agree (rel_head? hrest)) fun _ => .pure rfl
  case h_34 | h_35 => exact .next h.arrayItems fun _ => .pure rfl
  case h_43 | h_44 => exact h.closureExpr
  case h_45 => exact h.arrowExpr
  case h_46 => exact h.yieldExpr
  -- what is left is said by the text alone, by one phrase or by the two sides of an assignment
  all_goals first
    | exact .pure rfl
    | exact h.firstExpr fun _ => .pure rfl
    | exact h.fieldExpr fun _ => h.fieldExpr fun _ => .pure rfl

/-- Twins are alike as sequences if they are alike as expressions. -/
theorem sequence {self self' : Reading Expr} (hself : Agree Eq self self') :
    Agree Eq (s.sequence self) (s'.sequence self') := by
  unfold Site.sequence
  rw [h.kind]
  exact .ite (fun _ => .next (.mapM h.phrases fun _ _ hn => hn.meaning.sequence) fun _ => .pure rfl)
    fun _ => .next hself fun _ => .pure rfl

/-! ## Control structures -/

theorem labelName : Agree Eq (labelName src s) (labelName src s') :=
  .bind h.first fun _ _ hn => .pure (hn.text src)

theorem fieldBody : Agree Eq (fieldBody src s) (fieldBody src s') :=
  .bind h.field fun _ _ hn => hn.body

theorem fieldCondition : Agree Eq (fieldCondition src s) (fieldCondition src s') :=
  .bind h.field fun _ _ hn => hn.expr

end Site.Twin

theorem elseBranches_agree {ns ns' : List Node} (h : List.Forall₂ Twin ns ns')
    (found : List (ElseIf Expr Stmt)) (last : Option (List Stmt)) :
    Agree Eq (elseBranches src found last ns) (elseBranches src found last ns') := by
  induction h generalizing found last with
  | nil => exact .pure rfl
  | cons hn _ ih =>
    unfold elseBranches
    rw [hn.kind, hn.span]
    generalize (Tree.kind _) = kind
    split
    · exact .next hn.site.fieldCondition fun _ => .next hn.site.fieldBody fun _ => ih _ _
    · exact .next hn.site.fieldBody fun _ => ih _ _
    · exact ih _ _

namespace Twin

variable {n n' : Node} (h : Twin n n')
include h

theorem forSections (sections : ForSections) : Agree Eq (sections.next n) (sections.next n') := by
  unfold ForSections.next
  rw [h.kind, h.named]
  exact .ite (fun _ => .pure rfl) fun _ => .ite (fun _ => .pure rfl) fun _ =>
    .ite (fun _ => .pure rfl) fun _ =>
    .ite (fun _ => .next h.meaning.sequence fun _ => .pure rfl) fun _ => .pure rfl

theorem switchCase : Agree Eq (switchCase src n) (switchCase src n') := by
  have hothers : Site.Twin
      ⟨n.site.label, n.site.children.eraseP (·.label.label.field = some "value")⟩
      ⟨n'.site.label, n'.site.children.eraseP (·.label.label.field = some "value")⟩ :=
    ⟨h.site.label, rel_eraseP h.site.children fun _ _ hn => by rw [hn.label]⟩
  unfold Concrete.switchCase
  rw [h.kind, h.span]
  generalize n'.kind = kind
  split
  · exact .bind h.site.field fun _ _ hvalue => .next hothers.stmtList fun _ =>
      .next hvalue.expr fun _ => .pure rfl
  · exact .next h.site.stmtList fun _ => .pure rfl
  · exact .pure rfl

end Twin

theorem handlers_agree {ns ns' : List Node} (h : List.Forall₂ Twin ns ns')
    (found : List (Catch Stmt)) (last : Option (List Stmt)) :
    Agree Eq (handlers src found last ns) (handlers src found last ns') := by
  induction h generalizing found last with
  | nil => exact .pure rfl
  | @cons n n' _ _ hn _ ih =>
    have hlist := hn.site.field? "type"
    have hvar : (n.site.field? "name").map (·.varText src) =
        (n'.site.field? "name").map (·.varText src) :=
      optionMap_eq_of_rel (hn.site.field? _) fun _ _ hp => hp.varText src
    unfold handlers
    dsimp only
    rw [hn.kind, hvar]
    generalize n.site.field? "type" = list at hlist ⊢
    generalize n'.site.field? "type" = list' at hlist ⊢
    generalize n'.kind = kind
    split
    · cases hlist with
      | none => exact .next hn.site.fieldBody fun _ => ih _ _
      | some hlist =>
        dsimp only
        rw [map_eq_of_rel hlist.site.phrases fun _ _ hp => hp.nameText src]
        exact .next hn.site.fieldBody fun _ => ih _ _
    · exact .next hn.site.fieldBody fun _ => ih _ _
    · exact ih _ _

/-- The same value with twins. -/
def WithTwin (p p' : α × Node) : Prop := p.1 = p'.1 ∧ Twin p.2 p'.2

namespace Site.Twin

variable {s s' : Site} (h : s.Twin s')
include h

theorem ifStmt : Agree Eq (ifStmt src s) (ifStmt src s') :=
  .next h.fieldCondition fun _ => .next h.fieldBody fun _ =>
    .next (elseBranches_agree h.phrases [] none) fun _ => .pure rfl

theorem forStmt : Agree Eq (forStmt src s) (forStmt src s') :=
  .next (.foldlM h.parts (fun sections _ _ hn => hn.forSections sections) {}) fun _ =>
    .bind (need_agree (rel_or (h.field? _) h.lastPhrase?)) fun _ _ hn =>
    .next hn.body fun _ => .pure rfl

theorem foreachStmt : Agree Eq (foreachStmt src s) (foreachStmt src s') := by
  have hphrases := h.phrases
  unfold Concrete.foreachStmt
  generalize s.phrases = ns at hphrases ⊢
  generalize s'.phrases = ns' at hphrases ⊢
  match ns, ns', hphrases with
  | _, _, .nil => exact .throw
  | _, _, .cons _ .nil => exact .throw
  | _, _, .cons _ (.cons _ .nil) => exact .throw
  | _, _, .cons hsubject (.cons hbinding (.cons hthird hrest)) =>
    have hbody := rel_getD (h.field? "body") (rel_getD (rel_getLast? (.cons hthird hrest)) hthird)
    refine .next hsubject.expr fun subject => ?_
    dsimp only
    rw [hbinding.kind]
    refine .bind (R := WithTwin) (.ite (fun _ => ?_) fun _ => .pure ⟨rfl, hbinding⟩) ?_
    · have hpair := hbinding.site.phrases
      generalize (Tree.site _).phrases = ns at hpair ⊢
      generalize (Tree.site _).phrases = ns' at hpair ⊢
      match ns, ns', hpair with
      | _, _, .nil => exact .throw
      | _, _, .cons _ .nil => exact .throw
      | _, _, .cons hkey (.cons hvalue .nil) => exact .next hkey.expr fun _ => .pure ⟨rfl, hvalue⟩
      | _, _, .cons _ (.cons _ (.cons _ _)) => exact .throw
    · rintro ⟨key, value⟩ ⟨_, value'⟩ ⟨rfl, hvalue⟩
      dsimp only at hvalue ⊢
      rw [hvalue.kind]
      refine .bind (R := WithTwin) (.ite (fun _ => .bind hvalue.site.first fun _ _ hinner =>
        .pure ⟨rfl, hinner⟩) fun _ => .pure ⟨rfl, hvalue⟩) ?_
      rintro ⟨byRef, value⟩ ⟨_, value'⟩ ⟨rfl, hvalue⟩
      exact .next hvalue.expr fun _ => .next hbody.body fun _ => .pure rfl

theorem switchStmt : Agree Eq (switchStmt src s) (switchStmt src s') :=
  .next h.fieldCondition fun _ => .bind h.field fun _ _ hblock =>
    .next (.filterMapM hblock.site.phrases fun _ _ hn => hn.switchCase) fun _ => .pure rfl

theorem tryStmt : Agree Eq (tryStmt src s) (tryStmt src s') :=
  .next h.fieldBody fun _ => .next (handlers_agree h.phrases [] none) fun _ => .pure rfl

end Site.Twin

/-! ## Declarations -/

namespace Twin

variable {n n' : Node} (h : Twin n n')
include h

theorem nameList : nameList src n = nameList src n' :=
  map_eq_of_rel h.site.phrases fun _ _ hp => hp.nameText src

theorem useStep (found : Option QueryTaint.Name × Option String) :
    useStep src found n = useStep src found n' := by
  unfold Concrete.useStep
  rw [h.kind, h.nameText, h.text,
    optionMap_eq_of_rel h.site.firstPhrase? fun _ _ hp => hp.text src]

end Twin

namespace Site.Twin

variable {s s' : Site} (h : s.Twin s')
include h

theorem modifiers : modifiers src s = modifiers src s' :=
  foldl_eq_of_rel h.parts (fun bits _ _ hn => by rw [hn.kind, hn.text]) 0

theorem useKind? : useKind? src s = useKind? src s' := by
  unfold Concrete.useKind?
  rw [← List.head?_filterMap, ← List.head?_filterMap]
  refine congrArg List.head? (filterMap_eq_of_rel (rel_takeWhile h.parts ?_) ?_)
  · exact fun _ _ hn => by rw [hn.named]
  · exact fun _ _ hn => by rw [hn.text]

theorem classStmt : Agree Eq (classStmt src s) (classStmt src s') := by
  have hparent : ((s.phrases.filter (·.kind = "base_clause")).getLast?.bind fun n =>
      (nameList src n).head?) = (s'.phrases.filter (·.kind = "base_clause")).getLast?.bind fun n =>
      (nameList src n).head? :=
    optionBind_eq_of_rel (rel_getLast? (h.ofKind _)) fun _ _ hn => by rw [hn.nameList]
  have himplements (kind : ClassKind) : (s.phrases.flatMap fun n =>
      if n.kind = "class_interface_clause" || (n.kind = "base_clause" && kind = .interface)
      then nameList src n else []) = s'.phrases.flatMap fun n =>
      if n.kind = "class_interface_clause" || (n.kind = "base_clause" && kind = .interface)
      then nameList src n else [] :=
    flatMap_eq_of_rel h.phrases fun _ _ hn => by rw [hn.kind, hn.nameList]
  have hbody := h.field? "body"
  unfold Concrete.classStmt
  refine .bind h.field fun name name' hname => ?_
  dsimp only
  rw [hparent, himplements, h.kind, h.modifiers, hname.nameText]
  generalize s.field? "body" = body at hbody ⊢
  generalize s'.field? "body" = body' at hbody ⊢
  cases hbody with
  | none => exact .next (.pure rfl) fun _ => .pure rfl
  | some hbody => exact .next hbody.site.stmtList fun _ => .pure rfl

theorem propertyStmt : Agree Eq (propertyStmt src s) (propertyStmt src s') := by
  unfold Concrete.propertyStmt
  rw [h.modifiers, h.fieldType]
  refine .next (.mapM (h.ofKind _) fun n n' hn => ?_) fun _ => .pure rfl
  refine .bind hn.site.field fun name name' hname => ?_
  have hvalue : Option.Rel Concrete.Twin
      ((n.site.field? "default_value").or
        ((n.site.phrases.find? (·.kind = "property_initializer")).bind (·.site.firstPhrase?)))
      ((n'.site.field? "default_value").or
        ((n'.site.phrases.find? (·.kind = "property_initializer")).bind (·.site.firstPhrase?))) :=
    rel_or (hn.site.field? _) (rel_bind
      (rel_find? hn.site.phrases fun _ _ hp => by rw [hp.kind]) fun _ _ hp => hp.site.firstPhrase?)
  dsimp only
  rw [hname.varText, hn.span]
  exact .next (optionalExpr_agree hvalue) fun _ => .pure rfl

theorem constElements : Agree Eq (constElements src s) (constElements src s') := by
  refine .mapM (h.ofKind _) fun n n' hn => ?_
  rw [hn.span]
  have hphrases := hn.site.phrases
  generalize n.site.phrases = ns at hphrases ⊢
  generalize n'.site.phrases = ns' at hphrases ⊢
  match ns, ns', hphrases with
  | _, _, .nil => exact .throw
  | _, _, .cons _ .nil => exact .throw
  | _, _, .cons hname (.cons hsecond hrest) =>
    have hvalue := rel_getD (rel_getLast? (.cons hsecond hrest)) hsecond
    dsimp only
    rw [hname.nameText]
    exact .next hvalue.expr fun _ => .pure rfl

theorem staticStmt : Agree Eq (staticStmt src s) (staticStmt src s') := by
  refine .next (.mapM h.phrases fun n n' hn => ?_) fun _ => .pure rfl
  refine .bind hn.site.field fun name name' hname => ?_
  rw [hname.varText, hn.span]
  exact .next (optionalExpr_agree (hn.site.field? _)) fun _ => .pure rfl

end Site.Twin

theorem Twin.useItem {n n' : Node} (h : Twin n n') : useItem src n = useItem src n' := by
  have hfound (start : Option QueryTaint.Name × Option String) :
      n.site.phrases.foldl (Concrete.useStep src) start =
        n'.site.phrases.foldl (Concrete.useStep src) start :=
    foldl_eq_of_rel h.site.phrases (fun found _ _ hp => hp.useStep found) start
  have halias :
      (n.site.field? "alias").map (·.text src) = (n'.site.field? "alias").map (·.text src) :=
    optionMap_eq_of_rel (h.site.field? _) fun _ _ hp => hp.text src
  unfold Concrete.useItem
  dsimp only
  rw [h.nameText, h.site.useKind?, halias, hfound]

namespace Site.Twin

variable {s s' : Site} (h : s.Twin s')
include h

theorem useStmt : useStmt src s = useStmt src s' := by
  unfold Concrete.useStmt
  rw [h.useKind?, optionMap_eq_of_rel (rel_getLast? (h.ofKind _)) fun _ _ hn => hn.nameText src]
  refine congrArg _ (flatMap_eq_of_rel h.phrases fun n n' hn => ?_)
  rw [hn.kind, hn.useItem, map_eq_of_rel hn.site.phrases fun _ _ hp => hp.useItem]

theorem traitStmt : traitStmt src s = traitStmt src s' := by
  unfold Concrete.traitStmt
  refine congrArg₂ _ (map_eq_of_rel (rel_filter_of_eq h.phrases fun _ _ hn => ?_) fun _ _ hn =>
    hn.nameText src) (map_eq_of_rel (rel_filter_of_eq h.phrases fun _ _ hn => ?_) fun _ _ hn =>
    hn.text src)
  · rw [hn.kind]
  · dsimp only
    rw [hn.kind]

theorem exprStmt : Agree Eq (exprStmt src s) (exprStmt src s') := by
  refine .bind h.first fun inner inner' hinner => ?_
  rw [hinner.kind]
  exact .ite (fun _ => hinner.site.firstExpr fun _ => .pure rfl) fun _ =>
    .next hinner.expr fun _ => .pure rfl

/-- The rule of every kind of statement reads twins alike. -/
theorem stmtKind? (parent : String) :
    Agree Eq (stmtKind? src parent s) (stmtKind? src parent s') := by
  have hname : (s.field? "name").map (·.nameText src) = (s'.field? "name").map (·.nameText src) :=
    optionMap_eq_of_rel (h.field? _) fun _ _ hn => hn.nameText src
  unfold Concrete.stmtKind?
  dsimp only
  rw [h.kind, h.label, h.span, hname, h.modifiers, h.traitStmt, h.useStmt]
  generalize s'.kind = kind
  split
  case h_2 => exact .next h.exprStmt fun _ => .pure rfl
  case h_3 => exact .next (.mapM h.phrases fun _ _ hn => hn.meaning.sequence) fun _ => .pure rfl
  case h_6 => exact .next h.stmtList fun _ => .pure rfl
  case h_7 => exact .next h.ifStmt fun _ => .pure rfl
  case h_8 => exact .next h.fieldCondition fun _ => .next h.fieldBody fun _ => .pure rfl
  case h_9 => exact .next h.fieldBody fun _ => .next h.fieldCondition fun _ => .pure rfl
  case h_10 => exact .next h.forStmt fun _ => .pure rfl
  case h_11 => exact .next h.foreachStmt fun _ => .pure rfl
  case h_12 => exact .next h.switchStmt fun _ => .pure rfl
  case h_4 | h_5 | h_13 | h_14 =>
    exact .next (optionalExpr_agree h.firstPhrase?) fun _ => .pure rfl
  case h_15 | h_16 => exact .next h.labelName fun _ => .pure rfl
  case h_17 => exact .next h.tryStmt fun _ => .pure rfl
  case h_18 | h_20 => exact .next (.mapM h.phrases fun _ _ hn => hn.expr) fun _ => .pure rfl
  case h_19 => exact .next h.staticStmt fun _ => .pure rfl
  case h_21 =>
    refine .bind h.field fun name name' hname => ?_
    rw [hname.text, h.hasKind, h.fieldType]
    exact .next (params_agree (h.field? _)) fun _ => .next h.fieldBody fun _ => .pure rfl
  case h_22 | h_23 | h_24 | h_25 => exact .next h.classStmt fun _ => .pure rfl
  case h_26 =>
    refine .bind h.field fun name name' hname => ?_
    rw [hname.text, h.hasKind, h.fieldType]
    exact .next (params_agree (h.field? _)) fun _ =>
      .next (.optionMapM (h.field? _) fun _ _ hn => hn.body) fun _ => .pure rfl
  case h_27 => exact .next h.propertyStmt fun _ => .pure rfl
  case h_28 => exact .next h.constElements fun _ => .pure rfl
  case h_30 =>
    exact .next (.optionMapM (h.field? _) fun _ _ hn => hn.site.stmtList) fun _ => .pure rfl
  all_goals exact .pure rfl

theorem stmt (parent : String) : Agree Eq (s.stmt src parent) (s'.stmt src parent) := by
  unfold Site.stmt
  rw [h.span]
  exact .next (h.stmtKind? parent) fun _ => .pure rfl

end Site.Twin

end QueryTaint.Concrete
