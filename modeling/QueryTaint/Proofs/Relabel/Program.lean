import QueryTaint.Program
import QueryTaint.Proofs.Relabel.Simplify
import QueryTaint.Proofs.Relabel.Tree
import QueryTaint.Proofs.Relabel.Weave

/-!
# Two programs in one

Two lists of files that are lowered into one arena in turns give the scripts that each list gives
alone, with new numbers (`Program.Woven`). This stays so when the functions are folded and simplified.
-/

namespace QueryTaint

/-- A program holds two others. -/
structure Program.Woven (ρ : Bool → Relabel) (tagged : List (Bool × Script)) (p : Bool → Program)
    (q : Program) (layout : List (Bool × Arena.Extent)) : Prop where
  arena : Arena.Woven ρ (fun t => (p t).arena) q.arena layout
  own (t : Bool) : (p t).scripts = ofSide tagged t
  twins : List.Forall₂ (fun e s => e.2.Twin (ρ e.1) s) tagged q.scripts

/-- Doing something to functions one after the other. -/
theorem Arena.forFuncs_snd {σ : Type} (step : Arena → FuncId → σ × Arena) (a : Arena)
    (funcs : List FuncId) :
    (forFuncs step a funcs).2 = funcs.foldl (fun a f => (step a f).2) a := by
  induction funcs generalizing a with
  | nil => rfl
  | cons f rest ih => exact ih _

namespace Program

/-- A file and what preparing it gave. -/
abbrev Prepared := String × Except Error (List Stmt × Labels)

/-- Lowers one more file. -/
def addPrepared (p : Program) (file : Prepared) : Program := p.add file.1 file.2

/-- A program with what lowering a file gave. -/
def addResult (p : Program) (path : String) (made : Except Error Script × Arena) : Program :=
  match made.1 with
  | .error e => { p with arena := made.2, errors := p.errors ++ [(path, e)] }
  | .ok script => { p with arena := made.2, scripts := p.scripts ++ [script] }

theorem addPrepared_ok (p : Program) (path : String) (stmts : List Stmt) (labels : Labels) :
    p.addPrepared (path, .ok (stmts, labels)) =
      p.addResult path (lowerFile p.arena path labels stmts) := by
  rw [addPrepared]
  unfold add
  dsimp only
  rcases lowerFile p.arena path labels stmts with ⟨e | script, arena⟩ <;> rfl

theorem scripts_addResult_error {p : Program} {path : String} {made : Except Error Script × Arena}
    {e : Error} (h : made.1 = .error e) : (p.addResult path made).scripts = p.scripts := by
  rw [addResult, h]

theorem scripts_addResult_ok {p : Program} {path : String} {made : Except Error Script × Arena}
    {s : Script} (h : made.1 = .ok s) : (p.addResult path made).scripts = p.scripts ++ [s] := by
  rw [addResult, h]

theorem arena_addResult (p : Program) (path : String) (made : Except Error Script × Arena) :
    (p.addResult path made).arena = made.2 := by
  unfold addResult
  split <;> rfl

/-- A graft with no place for further entries. -/
def noGraft : Graft :=
  { operands := id, ops := id, blocks := id, funcs := id, operands_mono := strictMono_id,
    ops_mono := strictMono_id, blocks_mono := strictMono_id, funcs_mono := strictMono_id, host := {},
    limit := {} }

theorem below_addPrepared (p : Program) (file : Prepared) : p.arena.Below (p.addPrepared file).arena := by
  obtain ⟨path, e | ⟨stmts, labels⟩⟩ := file
  · exact .refl _
  · rw [addPrepared_ok, arena_addResult]
    exact .lowerFile _ path labels stmts noGraft

namespace Woven

variable {ρ : Bool → Relabel} {tagged : List (Bool × Script)} {p : Bool → Program} {q : Program}
  {layout : List (Bool × Arena.Extent)} {side : Bool}

theorem empty (layout : List (Bool × Arena.Extent)) :
    Program.Woven (Arena.layoutRelabel layout) [] (fun _ => {}) {} layout :=
  ⟨.empty layout, fun _ => rfl, .nil⟩

/-- A side takes its turn and makes some scripts. -/
theorem own_turn (h : ∀ t, (p t).scripts = ofSide tagged t) {file : Prepared} {made : List Script}
    (hmade : ((p side).addPrepared file).scripts = (p side).scripts ++ made) (t : Bool) :
    (turn Program.addPrepared p (side, file) t).scripts =
      ofSide (tagged ++ made.map (side, ·)) t := by
  rw [ofSide_append, ← h, turn, ofSide_map]
  by_cases ht : t = side
  · subst ht
    rw [Function.update_self, if_pos rfl, hmade]
  · rw [Function.update_of_ne ht, if_neg (Ne.symm ht), List.append_nil]

theorem arena_turn {file : Prepared}
    (h : Program.Woven ρ tagged p q
      ((side, (p side).arena.growth ((p side).addPrepared file).arena) :: layout)) {b' : Arena}
    (h' : Arena.Embeds (Arena.Woven.graft (ρ side) q.arena ((p side).addPrepared file).arena)
      ((p side).addPrepared file).arena b') :
    Arena.Woven ρ (fun t => (turn Program.addPrepared p (side, file) t).arena) b' layout := by
  have hupdate : (fun t => (turn Program.addPrepared p (side, file) t).arena) =
      Function.update (fun t => (p t).arena) side ((p side).addPrepared file).arena :=
    Function.comp_update Program.arena p side _
  rw [hupdate]
  exact h.arena.step (below_addPrepared (p side) file) h'

/-- A file that is lowered adds matching scripts to both programs. -/
theorem addResult {path : String} {stmts : List Stmt} {labels : Labels}
    (h : Program.Woven ρ tagged p q
      ((side, (p side).arena.growth ((p side).addPrepared (path, .ok (stmts, labels))).arena) :: layout))
    {made made' : List Script}
    (hmade : ((p side).addPrepared (path, .ok (stmts, labels))).scripts = (p side).scripts ++ made)
    (hmade' : (q.addPrepared (path, .ok (stmts, labels))).scripts = q.scripts ++ made')
    (htwins : List.Forall₂ (Script.Twin (ρ side)) made made') :
    Program.Woven ρ (tagged ++ made.map (side, ·))
      (turn Program.addPrepared p (side, (path, .ok (stmts, labels))))
      (q.addPrepared (path, .ok (stmts, labels))) layout := by
  have hbelow := below_addPrepared (p side) (path, .ok (stmts, labels))
  have hembeds := h.arena.embeds hbelow
  rw [addPrepared_ok, arena_addResult] at hembeds
  have hlowered := (lowerFile_embeds hembeds path labels stmts (.refl _)).2
  refine ⟨h.arena_turn ?_, own_turn h.own hmade, ?_⟩
  · rw [addPrepared_ok, arena_addResult, addPrepared_ok, arena_addResult]
    exact hlowered
  · rw [hmade']
    refine List.rel_append h.twins ?_
    rw [List.forall₂_map_left_iff]
    exact htwins

/-- Lowering a file adds matching scripts to both programs, and which ones does not depend on the
numbers. -/
theorem addPrepared (p : Bool → Program) (side : Bool) (file : Prepared) :
    ∃ made : List Script, ∀ {ρ tagged q layout},
      Program.Woven ρ tagged p q
        ((side, (p side).arena.growth ((p side).addPrepared file).arena) :: layout) →
      Program.Woven ρ (tagged ++ made.map (side, ·)) (turn Program.addPrepared p (side, file))
        (q.addPrepared file) layout := by
  obtain ⟨path, e | ⟨stmts, labels⟩⟩ := file
  · refine ⟨[], fun h => ⟨h.arena_turn (h.arena.embeds (.refl _)), ?_, ?_⟩⟩
    · exact own_turn h.own (List.append_nil _).symm
    · rw [List.map_nil, List.append_nil]
      exact h.twins
  · have hresult {ρ tagged q layout} (h : Program.Woven ρ tagged p q
        ((side, (p side).arena.growth ((p side).addPrepared (path, .ok (stmts, labels))).arena) ::
          layout)) : Script.TwinResults (ρ side) (lowerFile (p side).arena path labels stmts).1
          (lowerFile q.arena path labels stmts).1 := by
      have hembeds := h.arena.embeds (below_addPrepared (p side) (path, .ok (stmts, labels)))
      rw [addPrepared_ok, arena_addResult] at hembeds
      exact (lowerFile_embeds hembeds path labels stmts (.refl _)).1
    cases hown : (lowerFile (p side).arena path labels stmts).1 with
    | error e =>
      refine ⟨[], fun h => h.addResult ?_ ?_ .nil⟩
      · rw [addPrepared_ok, scripts_addResult_error hown, List.append_nil]
      · have hboth := hresult h
        rw [hown] at hboth
        cases hq : (lowerFile _ path labels stmts).1 with
        | error e' => rw [addPrepared_ok, scripts_addResult_error hq, List.append_nil]
        | ok s => rw [hq] at hboth; cases hboth
    | ok s =>
      refine ⟨[s], fun h => ?_⟩
      have hboth := hresult h
      rw [hown] at hboth
      cases hq : (lowerFile _ path labels stmts).1 with
      | error e' => rw [hq] at hboth; cases hboth
      | ok s' =>
        rw [hq] at hboth
        cases hboth with
        | ok htwin =>
          refine h.addResult ?_ ?_ (.cons htwin .nil)
          · rw [addPrepared_ok, scripts_addResult_ok hown]
          · rw [addPrepared_ok, scripts_addResult_ok hq]

/-- Lowering files in turns into one program gives the scripts of two programs. -/
theorem addAll (files : List (Bool × Prepared)) (p : Bool → Program) :
    ∃ made : List (Bool × Script), ∀ {ρ tagged q layout},
      Program.Woven ρ tagged p q (growths Program.arena Program.addPrepared files p ++ layout) →
      Program.Woven ρ (tagged ++ made) (fun t => (ofSide files t).foldl Program.addPrepared (p t))
        ((files.map (·.2)).foldl Program.addPrepared q) layout := by
  induction files generalizing p with
  | nil => exact ⟨[], fun h => by rwa [List.append_nil]⟩
  | cons item rest ih =>
    obtain ⟨side, file⟩ := item
    obtain ⟨first, hfirst⟩ := addPrepared p side file
    obtain ⟨made, hmade⟩ := ih (turn Program.addPrepared p (side, file))
    refine ⟨first.map (side, ·) ++ made, fun h => ?_⟩
    have hall := hmade (hfirst h)
    rw [List.append_assoc] at hall
    have hfold : (fun t => (ofSide ((side, file) :: rest) t).foldl Program.addPrepared (p t)) =
        fun t => (ofSide rest t).foldl Program.addPrepared
          (turn Program.addPrepared p (side, file) t) := by
      rw [← foldl_turn, ← foldl_turn, List.foldl_cons]
    rw [hfold]
    exact hall

/-! ## Folding and simplifying -/

/-- The functions of scripts, each with the side of its script. -/
def sidedFuncs (tagged : List (Bool × Script)) : List (Bool × FuncId) :=
  tagged.flatMap fun e => e.2.ordered.map (e.1, ·)

theorem ofSide_sidedFuncs (tagged : List (Bool × Script)) (t : Bool) :
    ofSide (sidedFuncs tagged) t = (ofSide tagged t).flatMap (·.ordered) := by
  induction tagged with
  | nil => rfl
  | cons e rest ih =>
    obtain ⟨side, s⟩ := e
    rw [sidedFuncs, List.flatMap_cons, ofSide_append, ofSide_map, ofSide_cons]
    split
    · rw [List.flatMap_cons]
      exact congrArg _ ih
    · exact ih

theorem funcs_own (h : Program.Woven ρ tagged p q layout) (t : Bool) :
    (p t).funcs = ofSide (sidedFuncs tagged) t := by
  rw [ofSide_sidedFuncs, funcs, h.own]

theorem funcs_both (h : Program.Woven ρ tagged p q layout) :
    q.funcs = (sidedFuncs tagged).map fun e => (ρ e.1).func e.2 := by
  have htwins := h.twins
  rw [funcs, sidedFuncs]
  clear h
  generalize q.scripts = scripts at htwins ⊢
  induction htwins with
  | nil => rfl
  | cons htwin _ ih =>
    rw [List.flatMap_cons, List.flatMap_cons, List.map_append, ih, htwin.ordered, List.map_map]
    rfl

/-- Doing something to the functions of both programs, if it does the same to functions that are the
same up to numbers. -/
theorem eachFunc {σ : Type} {step : Arena → FuncId → σ × Arena}
    (hbelow : ∀ a f, Arena.Below a (step a f).2)
    (hembeds : ∀ (g : Graft) a b f, Arena.Embeds g a b → (step a f).2.Below g.limit →
      Arena.Embeds g (step a f).2 (step b (g.func f)).2)
    (h : Program.Woven ρ tagged p q
      (growths id (fun a f => (step a f).2) (sidedFuncs tagged) (fun t => (p t).arena) ++ layout)) :
    Program.Woven ρ tagged
      (fun t => { p t with arena := (Arena.forFuncs step (p t).arena (p t).funcs).2 })
      { q with arena := (Arena.forFuncs step q.arena q.funcs).2 } layout := by
  refine ⟨?_, h.own, h.twins⟩
  let step' (side : Bool) (b : Arena) (f : FuncId) : Arena := (step b ((ρ side).func f)).2
  have hembeds' (side : Bool) (g : Graft) (hg : g.toRelabel = ρ side) (a b : Arena) (f : FuncId)
      (hab : a.Embeds g b) (hlimit : (step a f).2.Below g.limit) :
      Arena.Embeds g (step a f).2 (step' side b f) := by
    have hstep : step' side b f = (step b (g.func f)).2 := by rw [hg]
    exact hstep ▸ hembeds g a b f hab hlimit
  have hfold := Arena.Woven.foldl hbelow hembeds' h.arena
  simp only [Arena.forFuncs_snd, h.funcs_both, List.foldl_map]
  have hown : (fun t => (p t).funcs.foldl (fun a f => (step a f).2) (p t).arena) =
      fun t => (ofSide (sidedFuncs tagged) t).foldl (fun a f => (step a f).2) (p t).arena :=
    funext fun t => by rw [h.funcs_own]
  rw [hown]
  exact hfold

end Woven

/-- Lowers files, folds constants and simplifies. -/
def ofFiles (files : List Prepared) : Program :=
  (files.foldl Program.addPrepared {}).optimize.2.simplify.2

/-- Two lists of files that are lowered in turns give the programs that each list gives alone, in
one. -/
theorem exists_woven (files : List (Bool × Prepared)) :
    ∃ (ρ : Bool → Relabel) (tagged : List (Bool × Script)),
      Program.Woven ρ tagged (fun t => ofFiles (ofSide files t)) (ofFiles (files.map (·.2))) [] := by
  obtain ⟨tagged, hlowered⟩ := Woven.addAll files fun _ => {}
  let optimized : Arena → FuncId → Arena := fun a f => (a.optimize f).2
  let simplified : Arena → FuncId → Arena := fun a f => (a.simplify f).2
  let lowered (t : Bool) : Program := (ofSide files t).foldl Program.addPrepared {}
  let layout := growths Program.arena Program.addPrepared files (fun _ => {}) ++
    (growths id optimized (Woven.sidedFuncs tagged) (fun t => (lowered t).arena) ++
      (growths id simplified (Woven.sidedFuncs tagged) (fun t => (lowered t).optimize.2.arena) ++ []))
  have hfiles := hlowered (Woven.empty layout)
  rw [List.nil_append] at hfiles
  have hfolded := hfiles.eachFunc Arena.Below.optimize fun g a b f hab hlimit =>
    hab.optimize f hlimit
  have hsimple := hfolded.eachFunc (fun a f => .of_extent (Arena.extent_simplify a f))
    fun g a b f hab _ => hab.simplify f
  exact ⟨_, tagged, hsimple⟩

end Program

end QueryTaint
