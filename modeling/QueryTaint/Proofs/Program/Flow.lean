import QueryTaint.Program
import QueryTaint.Proofs.Flow.Body
import QueryTaint.Proofs.Flow.Search
import QueryTaint.Proofs.Simplify.Shape

/-!
# Control flow of programs

`Arena.FlowFits` is what the rest of the program relies on when it follows control flow: where a
block ends, where live blocks lead, and how many operands φ operations have. It holds after any files
were lowered, after folding and after simplifying (`flowFits_of_files`).
-/

namespace QueryTaint

/-- Live blocks end where control leaves them, they lead to live blocks that know them, and their φ
operations have an operand for each live predecessor. -/
structure Arena.FlowFits (a : Arena) : Prop where
  ends {block : BlockId} {before after : List OpId} {op : OpId} :
    (a.block block).dead = false → (a.block block).ops = before ++ op :: after →
      (a.op op).kind.isTerminator = true → after = []
  known {block target : BlockId} {op : OpId} : (a.block block).dead = false →
    a.terminator? block = some op → target ∈ (a.op op).kind.successors →
      block ∈ (a.block target).preds
  live {block target : BlockId} {op : OpId} : (a.block block).dead = false →
    a.terminator? block = some op → target ∈ (a.op op).kind.successors →
      (a.block target).dead = false
  merges {block : BlockId} {phi : OpId} : (a.block block).dead = false →
    phi ∈ (a.block block).phis → ∃ vars result, (a.op phi).kind = .phi vars result ∧
      vars.length = (a.livePreds block).length

theorem Arena.mem_ops_of_terminator? {a : Arena} {block : BlockId} {op : OpId}
    (h : a.terminator? block = some op) : op ∈ (a.block block).ops :=
  List.mem_of_getLast? (Option.filter_eq_some_iff.1 h).1

theorem Arena.Shaped.flowFits {a : Arena} (h : a.Shaped) : a.FlowFits where
  ends {block before after op} _ hops hterm := by
    have hends := h.ends block
    rw [hops] at hends
    cases after with
    | nil => rfl
    | cons next rest =>
      have hpair := (List.pairwise_append.1 hends).2.1
      have hgoes := (List.pairwise_cons.1 hpair).1 next List.mem_cons_self
      rw [hterm] at hgoes
      cases hgoes
  known hlive hop htarget := (h.edges hlive _ (mem_ops_of_terminator? hop) _ htarget).2
  live hlive hop htarget := (h.edges hlive _ (mem_ops_of_terminator? hop) _ htarget).1
  merges _ hphi := h.merged _ _ hphi

/-- Without blocks there is nothing to be well formed. -/
theorem Arena.shaped_empty : ({} : Arena).Shaped := by
  have hblock (block : BlockId) : ({} : Arena).block block = default :=
    block_of_le _ (Nat.zero_le _)
  refine ⟨⟨fun block => ?_, fun {block} _ op hop => ?_, fun {block _} hpred => ?_,
    fun {block _} hpred => ?_, fun block op hop => ?_⟩, fun block phi hphi => ?_⟩
  · rw [hblock]
    exact List.Pairwise.nil
  · rw [hblock] at hop
    cases hop
  · rw [hblock] at hpred
    cases hpred
  · rw [hblock] at hpred
    cases hpred
  · rw [members, hblock] at hop
    cases hop
  · rw [hblock] at hphi
    cases hphi

namespace Program

theorem shaped_add {p : Program} (h : p.arena.Shaped) (path : String)
    (prepared : Except Error (List Stmt × Labels)) : (p.add path prepared).arena.Shaped := by
  unfold add
  split
  · exact h
  · rename_i stmts labels
    have hfile := shaped_lowerFile h path labels stmts
    split
    all_goals
      rename_i heq
      rw [heq] at hfile
      exact hfile

theorem shaped_of_files (files : List (String × Except Error (List Stmt × Labels))) :
    (files.foldl (fun p file => p.add file.1 file.2) ({} : Program)).arena.Shaped := by
  generalize hstart : ({} : Program) = start
  have h : start.arena.Shaped := hstart ▸ Arena.shaped_empty
  clear hstart
  induction files generalizing start with
  | nil => exact h
  | cons file rest ih => exact ih _ (shaped_add h file.1 file.2)

/-- Control flow fits after lowering, folding and simplifying any files. -/
theorem flowFits_of_files (files : List (String × Except Error (List Stmt × Labels))) :
    let lowered := files.foldl (fun p file => p.add file.1 file.2) ({} : Program)
    lowered.arena.FlowFits ∧ lowered.optimize.2.arena.FlowFits ∧
      lowered.simplify.2.arena.FlowFits ∧ lowered.optimize.2.simplify.2.arena.FlowFits := by
  intro lowered
  have h : lowered.arena.Shaped := shaped_of_files files
  have hfolded : lowered.optimize.2.arena.Shaped :=
    Arena.enduring_shaped.optimizeAll h lowered.funcs
  have hsimple : lowered.simplify.2.arena.Shaped :=
    Arena.enduring_shaped.simplifyAll h lowered.funcs
  have hboth : lowered.optimize.2.simplify.2.arena.Shaped :=
    Arena.enduring_shaped.simplifyAll hfolded lowered.optimize.2.funcs
  exact ⟨h.flowFits, hfolded.flowFits, hsimple.flowFits, hboth.flowFits⟩

end Program

end QueryTaint

/-!
# Completing the bodies of programs

`Reaches` says which states the builder comes to between two statements when files are lowered, in
particular where bodies end (`body_stops`). First predecessors are in no circle then, in the whole
arena (`ranked_of_reaches`), since they are in none in the files before and in none in the one that is
lowered (`Footing.ranked_all`). So all searches end that complete the body, for any variable and in
any block (`completePhis_ends`).
-/

namespace QueryTaint

namespace Lower

variable {S : Site} {a : Arena} {b b' : Builder}

/-! ## The end of a body -/

/-- Ends a body up to its φ operations, and gives those that waited. -/
def closeBody : Build (List PendingPhi) := do
  if !(← isDead (← get).block) then
    let _ ← emit (.returns none) .none
  let pending := (← get).scope.pending
  changeScope fun s => { s with complete := true, pending := #[] }
  return pending.toList

theorem finishBody_eq : finishBody = closeBody >>= completePhis := by
  unfold finishBody closeBody
  simp only [bind_assoc]
  refine bind_congr fun b => bind_congr fun dead => ?_
  cases dead <;> rfl

theorem closeBody_surveys (h : b.arena.Ranked fun _ => True) :
    Gives closeBody b fun _ b' => Surveyed b' := by
  refine Gives.get (Gives.look ?_)
  split
  · refine Gives.bind (emit_places (.returns none) .none b) ?_
    rintro _ _ ⟨-, f, -, rfl⟩
    exact ⟨rfl, h.congr (Arena.block_append_keep Block.preds (fun _ _ => rfl) _ _)⟩
  · exact ⟨rfl, h⟩

/-- What stops lowering at the end of a body stops in the state in which the body would be ended. -/
theorem body_stops {func : FuncId} {captured : List (String × OperandId)}
    {params : List (Param (Lowering OperandId))} {steps : List (Lowering Unit)}
    {stop : Lowering Unit} (hstop : ∀ b, ∃ e, stop.run.run b = (.error e, b))
    (h : (body func captured params steps).run.run b = (.ok (), b')) :
    ∃ e b₁, (body func captured params (steps ++ [stop])).run.run b = (.error e, b₁) ∧
      b' = { (finishBody.run b₁).2 with func := b.func, scope := b.scope, block := b.block } := by
  let entry := (b.arena.func func).entry
  let front : Lowering Unit := do
    captured.forM fun c => bindIn entry c.1 c.2
    params.forM (param func entry)
  let rest (steps : List (Lowering Unit)) : Lowering Unit := do
    inOrder steps
    finishBody
    modify fun b₁ => { b₁ with func := b.func, scope := b.scope, block := b.block }
  have hbody (steps : List (Lowering Unit)) : (body func captured params steps).run.run b =
      (front >>= fun _ => rest steps).run.run { b with func, scope := {}, block := entry } := by
    simp only [front, bind_assoc]
    rfl
  rw [hbody] at h
  obtain ⟨⟨⟩, b₁, hfront, h⟩ := exists_of_run_bind h
  obtain ⟨⟨⟩, b₂, hsteps, h⟩ := exists_of_run_bind h
  obtain ⟨e, he⟩ := hstop b₂
  have hstops : (inOrder (steps ++ [stop])).run.run b₁ = (.error e, b₂) := by
    rw [show inOrder (steps ++ [stop]) = inOrder steps >>= fun _ => inOrder [stop] from
      List.forM_append, run_bind_of_ok hsteps]
    exact run_bind_of_error he _
  refine ⟨e, b₂, ?_, (Prod.mk.inj h).2.symm⟩
  rw [hbody, run_bind_of_ok hfront]
  exact run_bind_of_error hstops _

theorem exists_error {α : Type} {r : Except Error α × Builder} (h : r.1.isOk = false) :
    ∃ e, r = (.error e, r.2) :=
  match r, h with
  | (.error e, _), _ => ⟨e, rfl⟩

/-- A `break` outside of loops stops lowering. -/
theorem stmt_breakLoop_stops (level : Option Expr) (span : Span) (b : Builder) :
    ∃ e, (stmt (.mk (.breakLoop level) span)).run.run b = (.error e, b) := ⟨_, rfl⟩

/-! ## Circles of first predecessors -/

theorem Footing.ranked_all (h : Footing S a) (hs : S.strict)
    (hbefore : S.before.Ranked fun _ => True) : a.Ranked fun _ => True := by
  have hkeeps {block : BlockId} (hout : ¬S.Owns block) :
      (a.block block).preds = (S.before.block block).preds := by
    have hshape := h.past.shape block hout
    simp only [Block.shape, Prod.mk.injEq] at hshape
    exact hshape.2.2.1
  refine (h.ranked.join hbefore (fun block hin source hsource =>
    (h.closed block hin source hsource).1) (fun block => hkeeps) fun block _ hout source hsource =>
    h.apart hs block hout source ?_).mono fun _ _ => .inr trivial
  rw [hkeeps hout]
  exact hsource

theorem ranked_start (h : a.Ranked fun _ => True) (path : String) (labels : Labels) :
    (Builder.start a path labels).arena.Ranked fun _ => True :=
  have hcalm : Calm a (Builder.start a path labels).arena :=
    (Calm.newFunc a Func.mainName).trans (Calm.modifyFunc _ _ fun _ => rfl)
  h.congr hcalm.blocks.preds

/-- The builder comes to a state between two statements of a file that is lowered into an arena. A
statement that cannot be lowered stops there and leaves the state as it is, so these are the states
in which lowering stops. -/
def Reaches (a : Arena) (b : Builder) : Prop :=
  ∃ path labels file e, let start := Builder.start a path labels
    (body start.func [] [] (stmts file)).run.run start = (.error e, b)

theorem ranked_of_reaches (hshaped : a.Shaped) (hranked : a.Ranked fun _ => True)
    (h : Reaches a b) : b.arena.Ranked fun _ => True := by
  obtain ⟨path, labels, file, e, hrun⟩ := h
  exact ((file_grounds hshaped path labels file).error e b hrun).ranked_all trivial
    (ranked_start hranked path labels)

end Lower

theorem Arena.ranked_empty : ({} : Arena).Ranked fun _ => True := by
  refine ⟨fun _ => 0, fun block _ source rest hpreds => ?_⟩
  rw [Arena.block_of_le _ (Nat.zero_le _)] at hpreds
  cases hpreds

theorem ranked_lowerFile {a : Arena} (hshaped : a.Shaped) (h : a.Ranked fun _ => True)
    (path : String) (labels : Labels) (stmts : List Stmt) :
    (lowerFile a path labels stmts).2.Ranked fun _ => True := by
  have hbody := Lower.file_grounds hshaped path labels stmts
  have hstart := Lower.ranked_start h path labels
  rw [lowerFile]
  rcases hrun : (Lower.body (Lower.Builder.start a path labels).func [] []
    (Lower.stmts stmts)).run.run (Lower.Builder.start a path labels) with ⟨e | _, b⟩
  · exact (hbody.error e b hrun).ranked_all trivial hstart
  · exact (hbody.ok _ b hrun).ranked_all trivial hstart

namespace Program

theorem ranked_add {p : Program} (hshaped : p.arena.Shaped) (h : p.arena.Ranked fun _ => True)
    (path : String) (prepared : Except Error (List Stmt × Labels)) :
    (p.add path prepared).arena.Ranked fun _ => True := by
  unfold add
  split
  · exact h
  · rename_i stmts labels
    have hfile := ranked_lowerFile hshaped h path labels stmts
    split
    all_goals
      rename_i heq
      rw [heq] at hfile
      exact hfile

/-- First predecessors are in no circle after any files were lowered. -/
theorem ranked_of_files (files : List (String × Except Error (List Stmt × Labels))) :
    (files.foldl (fun p file => p.add file.1 file.2) ({} : Program)).arena.Ranked fun _ => True := by
  induction files using List.reverseRecOn with
  | nil => exact Arena.ranked_empty
  | append_singleton files file ih =>
    rw [List.foldl_append]
    exact ranked_add (shaped_of_files files) ih file.1 file.2

/-- At the end of any body of a file, lowered after any other files, completing the φ operations that
waited comes to an end. Whenever some of them are complete, there is no circle of blocks that have no
version of a variable and one predecessor, a live one, and every search ends, for any variable and in
any block. -/
theorem completePhis_ends (files : List (String × Except Error (List Stmt × Labels)))
    {b : Lower.Builder}
    (h : Lower.Reaches (files.foldl (fun p file => p.add file.1 file.2) ({} : Program)).arena b) :
    ∃ pending start, Lower.closeBody.run b = (pending, start) ∧
      Lower.finishBody.run b = (Lower.completePhis pending).run start ∧
      Lower.Completes pending start (Lower.finishBody.run b).2 ∧
      ∀ done rest, pending = done ++ rest → ∀ name block,
        let now := ((Lower.completePhis done).run start).2
        ¬Relation.TransGen (Lower.PassesTo name now) block block ∧
          ∃ x after, (Lower.readName name block).run now = (x, after) ∧
            Lower.Answers name block now x after := by
  have hstart := Lower.closeBody_surveys (Lower.ranked_of_reaches (shaped_of_files files)
    (ranked_of_files files) h)
  have hfinish : Lower.finishBody.run b =
      (Lower.completePhis (Lower.closeBody.run b).1).run (Lower.closeBody.run b).2 := by
    rw [Lower.finishBody_eq]
    rfl
  refine ⟨_, _, rfl, hfinish, hfinish ▸ (Lower.completes_completePhis hstart _).1, ?_⟩
  intro done rest _ name block now
  have hnow : Lower.Surveyed now := (Lower.completes_completePhis hstart done).2
  exact ⟨Lower.not_passesTo_itself hnow.ranked name block, _, _, rfl,
    (Lower.answers_readName hnow name block).1⟩

/-- A function with a loop under a label that is jumped back to, and an end that nothing leads to. -/
def circling : List Stmt :=
  let var : Expr := .mk (.variable "x") .none
  let inside : List Stmt := [.mk (.label "again") .none,
    .mk (.whileLoop var [.mk (.echo [var]) .none]) .none, .mk (.goto "again") .none,
    .mk (.breakLoop none) .none]
  [.mk (.function (.parse "f" .none) [] false none inside) .none]

/-- The builder at the end of the function. -/
def circlingStop : Except Error Unit × Lower.Builder :=
  let start := Lower.Builder.start {} "" ⟨"", 0, 0⟩
  (Lower.body start.func [] [] (Lower.stmts circling)).run.run start

theorem reaches_circling : Lower.Reaches {} circlingStop.2 := by
  obtain ⟨e, he⟩ := Lower.exists_error (r := circlingStop) (by decide +kernel)
  exact ⟨"", ⟨"", 0, 0⟩, circling, e, he⟩

/-- Two φ operations wait at the end of the function, and completing them comes to an end. -/
theorem completePhis_ends_circling :
    let closed := Lower.closeBody.run circlingStop.2
    closed.1.length = 2 ∧
      Lower.Completes closed.1 closed.2 (Lower.finishBody.run circlingStop.2).2 := by
  obtain ⟨pending, start, hclose, -, hcompletes, -⟩ := completePhis_ends [] reaches_circling
  refine ⟨by decide +kernel, ?_⟩
  rw [hclose]
  exact hcompletes

end Program

end QueryTaint
