import Mathlib.Data.List.Induction
import QueryTaint.Lower.Value
import QueryTaint.Proofs.Text.Segment

/-!
# Where paths lead

Following a path segment by segment, without looking anything up, leads to a `Location`: names
below the root, or, for a relative path, some directories up from its start and then names. The
normal text of a path spells the location that the path leads to (`normalizePath_eq`), and a
location can be read back from its spelling (`Location.of_text`). So normal texts are equal exactly
if the paths lead to one place, also for paths that are read in the directory of a file
(`includedPath_eq`).
-/

namespace QueryTaint

/-- Whether a segment of a path leads to an entry of the directory that it is read in. -/
def IsName (segment : String) : Prop :=
  segment ≠ "" ∧ segment ≠ "." ∧ segment ≠ ".." ∧ '/' ∉ segment.toList

instance (segment : String) : Decidable (IsName segment) :=
  inferInstanceAs (Decidable (_ ∧ _ ∧ _ ∧ _))

/-- An ordinary component of a path, the name of an entry. -/
structure Component where
  name : String
  isName : IsName name

theorem isName_of_mem {down : List Component} {segment : String}
    (h : segment ∈ down.map Component.name) : IsName segment := by
  obtain ⟨component, -, rfl⟩ := List.mem_map.1 h
  exact component.isName

/-- A place that a path leads to: `down` from the root, or, seen from where relative paths start,
`up` that many directories and then `down` from there. -/
inductive Location where
  | absolute (down : List Component)
  | relative (up : Nat) (down : List Component)

/-- Whether a segment names nothing. -/
def IsVoid (segment : String) : Prop := segment = "" ∨ segment = "."

/-- The segments that name something. -/
def leading (segments : List String) : List String :=
  segments.filter fun segment => segment ≠ "" && segment ≠ "."

section Leading

variable {segment : String} {segments : List String}

theorem leading_cons_of_isVoid (h : IsVoid segment) :
    leading (segment :: segments) = leading segments :=
  List.filter_cons_of_neg (by simpa [or_iff_not_imp_left, IsVoid] using h)

theorem leading_cons_of_not_isVoid (h : ¬IsVoid segment) :
    leading (segment :: segments) = segment :: leading segments :=
  List.filter_cons_of_pos (by simpa [IsVoid] using h)

theorem leading_append (segments rest : List String) :
    leading (segments ++ rest) = leading segments ++ leading rest := List.filter_append ..

theorem leading_eq_nil (h : ∀ s ∈ segments, IsVoid s) : leading segments = [] :=
  List.filter_eq_nil_iff.2 fun s hs => by simpa [or_iff_not_imp_left, IsVoid] using h s hs

theorem mem_leading : segment ∈ leading segments ↔ segment ∈ segments ∧ ¬IsVoid segment := by
  simp [leading, IsVoid]

theorem parts_parse (text : String) : (Path.parse text).parts = leading (text.splitOn "/") := rfl

end Leading

namespace Location

/-- The root. -/
def root : Location := absolute []

/-- Where relative paths start. -/
def here : Location := relative 0 []

/-- The directory that a location is in. There is none above the root. -/
def parent : Location → Location
  | absolute down => absolute down.dropLast
  | relative up down =>
    if down.isEmpty then relative (up + 1) [] else relative up down.dropLast

/-- A location below another one. -/
def below : Location → List Component → Location
  | absolute down, components => absolute (down ++ components)
  | relative up down, components => relative up (down ++ components)

/-- Where a segment leads. A segment has no separator in it, so each one goes up, names an entry or
names nothing. -/
def enter (l : Location) (segment : String) : Location :=
  if segment = ".." then l.parent
  else if h : IsName segment then l.below [⟨segment, h⟩]
  else l

/-- Where a path starts that is read at a location. -/
def start (l : Location) (text : String) : Location := if text.startsWith "/" then root else l

/-- Where a path leads that is read at a location. -/
def follow (l : Location) (text : String) : Location :=
  (text.splitOn "/").foldl enter (l.start text)

/-- Where a path leads. -/
def of (text : String) : Location := here.follow text

/-- The path that leads to a location. -/
def path : Location → Path
  | absolute down => ⟨true, down.map Component.name⟩
  | relative up down => ⟨false, List.replicate up ".." ++ down.map Component.name⟩

/-- The text of the path that leads to a location. -/
def text (l : Location) : String := l.path.text

/-! ## Following segments -/

theorem enter_parent (l : Location) : l.enter ".." = l.parent := if_pos rfl

theorem enter_component (l : Location) (component : Component) :
    l.enter component.name = l.below [component] := by
  rw [enter, if_neg component.isName.2.2.1, dif_pos component.isName]

theorem enter_isVoid {l : Location} {segment : String} (h : IsVoid segment) :
    l.enter segment = l := by
  rcases h with rfl | rfl
  · exact (if_neg (by decide)).trans (dif_neg (by decide))
  · exact (if_neg (by decide)).trans (dif_neg (by decide))

theorem foldl_enter_isVoid {l : Location} {segments : List String} (h : ∀ s ∈ segments, IsVoid s) :
    segments.foldl enter l = l := by
  induction segments with
  | nil => rfl
  | cons s segments ih =>
    rw [List.foldl_cons, enter_isVoid (h s List.mem_cons_self),
      ih fun t ht => h t (List.mem_cons_of_mem s ht)]

theorem foldl_enter_leading (l : Location) (segments : List String) :
    (leading segments).foldl enter l = segments.foldl enter l := by
  induction segments generalizing l with
  | nil => rfl
  | cons s segments ih =>
    by_cases h : IsVoid s
    · rw [leading_cons_of_isVoid h, List.foldl_cons, enter_isVoid h, ih]
    · rw [leading_cons_of_not_isVoid h, List.foldl_cons, List.foldl_cons, ih]

theorem foldl_enter_components (l : Location) (components : List Component) :
    (components.map Component.name).foldl enter l = l.below components := by
  induction components generalizing l with
  | nil => cases l <;> simp [below]
  | cons component components ih =>
    rw [List.map_cons, List.foldl_cons, enter_component, ih]
    cases l <;> simp [below]

theorem foldl_enter_parents (up k : Nat) :
    (List.replicate k "..").foldl enter (relative up []) = relative (up + k) [] := by
  induction k generalizing up with
  | zero => rfl
  | succ k ih =>
    rw [List.replicate_succ, List.foldl_cons, enter_parent]
    exact (ih (up + 1)).trans (by rw [Nat.add_right_comm]; rfl)

/-! ## The normal path

`Path.normal` keeps the components of the path to a location, the last one first; one of its steps
is entering one segment. -/

theorem rooted_enter (l : Location) (segment : String) :
    (l.enter segment).path.rooted = l.path.rooted := by
  unfold enter
  split
  · cases l with
    | absolute down => rfl
    | relative up down => cases down <;> rfl
  · split
    · cases l <;> rfl
    · rfl

theorem rooted_foldl_enter (l : Location) (segments : List String) :
    (segments.foldl enter l).path.rooted = l.path.rooted := by
  induction segments generalizing l with
  | nil => rfl
  | cons s segments ih => rw [List.foldl_cons, ih, rooted_enter]

theorem step_parent (l : Location) :
    Path.step l.path.rooted l.path.parts.reverse ".." = l.parent.path.parts.reverse := by
  cases l with
  | absolute down =>
    cases down using List.reverseRecOn with
    | nil => rfl
    | append_singleton down last => simp [Path.step, path, parent, last.isName.2.2.1]
  | relative up down =>
    cases down using List.reverseRecOn with
    | nil =>
      simp only [path, parent, List.map_nil, List.append_nil, List.reverse_replicate,
        List.isEmpty_nil, if_true]
      cases up <;> simp [Path.step, List.replicate_succ]
    | append_singleton down last => simp [Path.step, path, parent, last.isName.2.2.1]

theorem step_component (l : Location) (component : Component) :
    Path.step l.path.rooted l.path.parts.reverse component.name
      = (l.below [component]).path.parts.reverse := by
  cases l <;> simp [Path.step, path, below, component.isName.2.2.1]

theorem step_enter (l : Location) {segment : String} (hvoid : ¬IsVoid segment)
    (hslash : '/' ∉ segment.toList) :
    Path.step l.path.rooted l.path.parts.reverse segment
      = (l.enter segment).path.parts.reverse := by
  by_cases hup : segment = ".."
  · rw [hup, enter_parent, step_parent]
  · obtain ⟨hempty, hdot⟩ := not_or.1 hvoid
    let component : Component := ⟨segment, hempty, hdot, hup, hslash⟩
    exact (step_component l component).trans (by rw [← enter_component])

/-- Folding the components of a path follows them. -/
theorem foldl_step {l : Location} {segments : List String}
    (h : ∀ s ∈ segments, ¬IsVoid s ∧ '/' ∉ s.toList) :
    segments.foldl (Path.step l.path.rooted) l.path.parts.reverse
      = (segments.foldl enter l).path.parts.reverse := by
  induction segments generalizing l with
  | nil => rfl
  | cons s segments ih =>
    obtain ⟨hvoid, hslash⟩ := h s List.mem_cons_self
    rw [List.foldl_cons, List.foldl_cons, step_enter l hvoid hslash, ← rooted_enter l s,
      ih fun t ht => h t (List.mem_cons_of_mem s ht)]

theorem slash : "/" = String.singleton '/' := rfl

theorem path_start_here (text : String) : (here.start text).path = ⟨text.startsWith "/", []⟩ := by
  unfold start
  cases text.startsWith "/" <;> rfl

/-- The normal form of a path is the path to where it leads. -/
theorem normal_parse (text : String) : (Path.parse text).normal = (of text).path := by
  have hleading : ∀ s ∈ leading (text.splitOn "/"), ¬IsVoid s ∧ '/' ∉ s.toList := by
    intro s hs
    obtain ⟨hs, hvoid⟩ := mem_leading.1 hs
    exact ⟨hvoid, notMem_of_mem_splitOn hs⟩
  have hrooted : text.startsWith "/" = (of text).path.rooted := by
    rw [of, follow, rooted_foldl_enter, path_start_here]
  have hparts := foldl_step (l := here.start text) hleading
  rw [path_start_here, foldl_enter_leading, ← List.reverse_eq_iff] at hparts
  exact congrArg₂ Path.mk hrooted hparts

theorem normalizePath_eq (text : String) : normalizePath text = (of text).text := by
  rw [normalizePath, normal_parse, Location.text]

/-! ## Spelling a location -/

/-- The segments of the path to a location, as they stand in its text. -/
def segments : Location → List String
  | absolute down => "" :: if down.isEmpty then [""] else down.map Component.name
  | relative up down =>
    if up = 0 ∧ down.isEmpty then ["."] else List.replicate up ".." ++ down.map Component.name

theorem slash_notMem_parts (l : Location) : ∀ part ∈ l.path.parts, '/' ∉ part.toList := by
  intro part hpart
  cases l with
  | absolute down => exact (isName_of_mem hpart).2.2.2
  | relative up down =>
    rcases List.mem_append.1 hpart with hpart | hpart
    · rw [List.eq_of_mem_replicate hpart]
      decide
    · exact (isName_of_mem hpart).2.2.2

theorem splitOn_text (l : Location) : l.text.splitOn "/" = l.segments := by
  have hparts := slash_notMem_parts l
  cases l with
  | absolute down =>
    have htext : (absolute down).text
        = "" ++ "/" ++ "/".intercalate (down.map Component.name) := rfl
    rw [htext, slash, splitOn_append_separator, splitOn_of_notMem (by simp), segments]
    cases down with
    | nil =>
      rw [List.map_nil, String.intercalate_nil, splitOn_of_notMem (by simp)]
      rfl
    | cons component down =>
      exact congrArg ("" :: ·) (splitOn_intercalate (List.cons_ne_nil _ _) hparts)
  | relative up down =>
    have htext : (relative up down).text =
        if (List.replicate up ".." ++ down.map Component.name).isEmpty then "."
        else "/".intercalate (List.replicate up ".." ++ down.map Component.name) := rfl
    rw [htext, segments]
    by_cases hnone : up = 0 ∧ down.isEmpty
    · rw [if_pos hnone, if_pos (by simpa using hnone)]
      exact splitOn_of_notMem (c := '/') (by decide)
    · have hne : List.replicate up ".." ++ down.map Component.name ≠ [] := by simpa using hnone
      rw [if_neg hnone, if_neg (by simpa using hnone)]
      exact splitOn_intercalate hne hparts

theorem startsWith_slash_iff {text first : String} {rest : List String}
    (h : text.splitOn "/" = first :: rest) :
    text.startsWith "/" = true ↔ first = "" ∧ rest ≠ [] := by
  rw [slash] at h ⊢
  rw [startsWith_singleton_iff, h]
  simp [and_comm]

/-- Where a path starts, from its segments: at the root if the first one is empty and not the only
one. -/
theorem start_of_splitOn {text first : String} {rest : List String}
    (h : text.splitOn "/" = first :: rest) (l : Location) :
    l.start text = if first = "" ∧ rest ≠ [] then root else l := by
  simp only [start, startsWith_slash_iff h]

theorem startsWith_text (l : Location) : l.text.startsWith "/" = l.path.rooted := by
  have hsplit := splitOn_text l
  cases l with
  | absolute down =>
    refine (startsWith_slash_iff hsplit).2 ⟨rfl, ?_⟩
    cases down <;> simp
  | relative up down =>
    refine Bool.eq_false_iff.2 fun hstart => ?_
    cases up with
    | succ up => exact absurd ((startsWith_slash_iff hsplit).1 hstart).1 (by decide)
    | zero =>
      cases down with
      | nil => exact absurd ((startsWith_slash_iff hsplit).1 hstart).1 (by decide)
      | cons component down => exact component.isName.1 ((startsWith_slash_iff hsplit).1 hstart).1

/-- The text of a location leads back to it. -/
theorem of_text (l : Location) : of l.text = l := by
  rw [of, follow, start, splitOn_text, startsWith_text]
  cases l with
  | absolute down =>
    rw [segments, List.foldl_cons, enter_isVoid (.inl rfl)]
    cases down with
    | nil => exact enter_isVoid (.inl rfl)
    | cons component down => exact foldl_enter_components root (component :: down)
  | relative up down =>
    simp only [segments, path, Bool.false_eq_true, if_false]
    by_cases hnone : up = 0 ∧ down.isEmpty
    · obtain ⟨rfl, hdown⟩ := hnone
      rw [if_pos ⟨rfl, hdown⟩, List.isEmpty_iff.1 hdown]
      exact enter_isVoid (.inr rfl)
    · rw [if_neg hnone, List.foldl_append, here, foldl_enter_parents, foldl_enter_components, below,
        Nat.zero_add, List.nil_append]

theorem text_inj {l m : Location} : l.text = m.text ↔ l = m :=
  ⟨fun h => by rw [← of_text l, h, of_text], congrArg text⟩

theorem dot_mem_segments_iff (l : Location) : "." ∈ l.segments ↔ l.text = "." := by
  constructor
  · intro hmem
    cases l with
    | absolute down =>
      rcases List.mem_cons.1 hmem with hmem | hmem
      · exact absurd hmem (by decide)
      · split at hmem
        · exact absurd hmem (by decide)
        · exact absurd rfl (isName_of_mem hmem).2.1
    | relative up down =>
      rw [segments] at hmem
      split at hmem
      · rename_i hnone
        obtain ⟨rfl, hdown⟩ := hnone
        rw [List.isEmpty_iff.1 hdown]
        rfl
      · rcases List.mem_append.1 hmem with hmem | hmem
        · exact absurd (List.eq_of_mem_replicate hmem) (by decide)
        · exact absurd rfl (isName_of_mem hmem).2.1
  · intro htext
    have hhere : l = here := text_inj.1 htext
    rw [hhere]
    exact List.mem_singleton_self "."

/-- Segments that go up come first, and only in paths that do not start at the root. -/
theorem parents_first (l : Location) :
    l.path.rooted = true ∧ ".." ∉ l.segments ∨
      l.path.rooted = false ∧
        ∃ up down, l.segments = List.replicate up ".." ++ down ∧ ".." ∉ down := by
  cases l with
  | absolute down =>
    refine .inl ⟨rfl, fun hmem => ?_⟩
    rcases List.mem_cons.1 hmem with hmem | hmem
    · exact absurd hmem (by decide)
    · split at hmem
      · exact absurd hmem (by decide)
      · exact (isName_of_mem hmem).2.2.1 rfl
  | relative up down =>
    refine .inr ⟨rfl, ?_⟩
    rw [segments]
    split
    · exact ⟨0, ["."], rfl, by decide⟩
    · exact ⟨up, down.map Component.name, rfl, fun hmem => (isName_of_mem hmem).2.2.1 rfl⟩

/-! ## Paths read in the directory of a file -/

theorem of_empty : of "" = here := by
  rw [of, follow, start, if_neg (by simp), slash, splitOn_of_notMem (by simp)]
  exact enter_isVoid (.inl rfl)

theorem of_slash : of "/" = root := of_text root

theorem startsWith_append {dir rest : String} (h : dir ≠ "") :
    (dir ++ rest).startsWith "/" = dir.startsWith "/" := by
  rw [Bool.eq_iff_iff, String.startsWith_string_iff, String.startsWith_string_iff,
    String.toList_append]
  cases hdir : dir.toList with
  | nil => exact absurd (String.toList_eq_nil_iff.1 hdir) h
  | cons c l => simp [slash]

/-- Joining two paths follows the one and then the other. -/
theorem of_joinPath {dir rest : String} (h : ¬rest.startsWith "/" = true) :
    of (joinPath dir rest) = (of dir).follow rest := by
  have hfollow : ∀ l : Location, l.follow rest = (rest.splitOn "/").foldl enter l := by
    intro l
    rw [follow, start, if_neg h]
  rw [joinPath, if_neg h, hfollow]
  by_cases hempty : dir = ""
  · rw [if_pos (by simp [hempty]), hempty, String.empty_append, of_empty, of, hfollow]
  · simp only [of, follow, start, Bool.or_eq_true, String.isEmpty_iff]
    split
    · rename_i hend
      obtain ⟨front, hfront⟩ := endsWith_iff_exists.1 (hend.resolve_left hempty)
      have hdir : dir.splitOn "/" = front.splitOn "/" ++ [""] := by
        have hspelled := splitOn_append_separator (s := front) (c := '/') (t := "")
        rw [String.append_empty, splitOn_of_notMem (s := "") (by simp)] at hspelled
        rw [hfront]
        exact hspelled
      have hjoin : (dir ++ rest).splitOn "/" = front.splitOn "/" ++ rest.splitOn "/" := by
        rw [hfront, slash, splitOn_append_separator]
      rw [startsWith_append hempty, hdir, hjoin, List.foldl_append, List.foldl_append,
        List.foldl_cons, List.foldl_nil, enter_isVoid (.inl rfl)]
    · rw [String.append_assoc, startsWith_append hempty, ← String.append_assoc, slash,
        splitOn_append_separator, List.foldl_append]

/-- The directory of a file, where its relative paths are read: all components of its path but the
last lead there. A path without components is not a file's, and nothing is known of its place. -/
def directory (file : String) : Location :=
  let parts := (Path.parse file).parts
  if parts.isEmpty then here else parts.dropLast.foldl enter (here.start file)

/-- Trimming takes away segments at the end that name nothing, and a first one that is empty if
nothing else is left. -/
theorem trimSegments_cons (first : String) (rest : List String) :
    ∃ kept tail, rest = kept ++ tail ∧ (∀ s ∈ tail, IsVoid s) ∧
      (∀ s ∈ kept.getLast?, ¬IsVoid s) ∧
      trimSegments (first :: rest) = if kept = [] ∧ first = "" then [] else first :: kept := by
  have hsplit := rest.reverse.takeWhile_append_dropWhile (p := fun s => s = "" || s = ".")
  refine ⟨(rest.reverse.dropWhile fun s => s = "" || s = ".").reverse,
    (rest.reverse.takeWhile fun s => s = "" || s = ".").reverse, ?_, ?_, ?_, ?_⟩
  · rw [← List.reverse_append, hsplit, List.reverse_reverse]
  · intro s hs
    simpa [IsVoid] using List.all_eq_true.1 List.all_takeWhile s (List.mem_reverse.1 hs)
  · intro s hs
    have hhead := List.head?_dropWhile_not (p := fun s : String => s = "" || s = ".") rest.reverse
    rw [List.getLast?_reverse] at hs
    rw [hs] at hhead
    simpa [IsVoid] using hhead
  · simp [trimSegments]

/-- The text made up of segments leads where they lead. -/
theorem of_intercalate {first : String} {rest : List String}
    (h : ∀ s ∈ first :: rest, '/' ∉ s.toList) :
    of ("/".intercalate (first :: rest))
      = (first :: rest).foldl enter (if first = "" ∧ rest ≠ [] then root else here) := by
  have hspelled : ("/".intercalate (first :: rest)).splitOn "/" = first :: rest :=
    splitOn_intercalate (c := '/') (List.cons_ne_nil first rest) h
  rw [of, follow, start_of_splitOn hspelled, hspelled]

/-- The path of a directory, taken from the segments before the last component, leads where these
lead. -/
theorem of_parent {file first : String} {middle : List String}
    (hslash : ∀ s ∈ first :: middle, '/' ∉ s.toList)
    (hstart : here.start file = if first = "" then root else here) :
    of (match trimSegments (first :: middle) with
      | [] => if file.startsWith "/" then "/" else ""
      | kept => "/".intercalate kept) = (first :: middle).foldl enter (here.start file) := by
  obtain ⟨kept, tail, hmiddle, htail, -, htrim⟩ := trimSegments_cons first middle
  have hlead : (first :: middle).foldl enter (here.start file)
      = (first :: kept).foldl enter (here.start file) := by
    rw [hmiddle, ← List.cons_append, List.foldl_append, foldl_enter_isVoid htail]
  rw [htrim, hlead]
  by_cases hnone : kept = [] ∧ first = ""
  · obtain ⟨rfl, rfl⟩ := hnone
    rw [if_pos ⟨rfl, rfl⟩, List.foldl_cons, List.foldl_nil, enter_isVoid (.inl rfl), start]
    cases file.startsWith "/"
    · exact of_empty
    · exact of_slash
  · have hkept : ∀ s ∈ first :: kept, '/' ∉ s.toList := by
      intro s hs
      rw [hmiddle, ← List.cons_append] at hslash
      exact hslash s (List.mem_append_left tail hs)
    rw [if_neg hnone]
    refine (of_intercalate hkept).trans ?_
    rw [hstart]
    by_cases hfirst : first = ""
    · rw [if_pos hfirst, if_pos ⟨hfirst, fun hkept => hnone ⟨hkept, hfirst⟩⟩]
    · rw [if_neg hfirst, if_neg fun h => hfirst h.1]

/-- The path of a file's directory leads to its directory. -/
theorem of_parentPath (file : String) : of ((parentPath? file).getD "") = directory file := by
  obtain ⟨first, rest, hfile⟩ := List.exists_cons_of_ne_nil (splitOn_ne_nil (s := file) (c := '/'))
  rw [← slash] at hfile
  have hstart := start_of_splitOn hfile here
  obtain ⟨kept, tail, hrest, htail, hlast, htrim⟩ := trimSegments_cons first rest
  have hparts : (Path.parse file).parts = leading (first :: kept) := by
    rw [parts_parse, hfile, hrest, ← List.cons_append, leading_append, leading_eq_nil htail,
      List.append_nil]
  rw [parentPath?, hfile, htrim, directory, hparts]
  cases kept using List.reverseRecOn with
  | nil =>
    by_cases hfirst : first = ""
    · rw [if_pos ⟨rfl, hfirst⟩, hfirst]
      exact of_empty
    · have hrelative : ¬file.startsWith "/" = true := fun h =>
        hfirst ((startsWith_slash_iff hfile).1 h).1
      rw [if_neg fun h => hfirst h.2, start, if_neg hrelative]
      simp only [List.dropLast_singleton, trimSegments, if_neg hrelative, Option.getD_some,
        of_empty]
      by_cases hvoid : IsVoid first
      · rw [leading_cons_of_isVoid hvoid]
        rfl
      · rw [leading_cons_of_not_isVoid hvoid]
        rfl
  | append_singleton middle last =>
    have hleading : leading (first :: (middle ++ [last]))
        = leading (first :: middle) ++ [last] := by
      rw [← List.cons_append, leading_append, leading_cons_of_not_isVoid (hlast last (by simp))]
      rfl
    have hslash : ∀ s ∈ first :: middle, '/' ∉ s.toList := by
      intro s hs
      refine notMem_of_mem_splitOn (s := file) (c := '/') ?_
      rw [← slash, hfile, hrest, ← List.cons_append, ← List.cons_append]
      exact List.mem_append_left tail (List.mem_append_left [last] hs)
    have hdrop : (first :: (middle ++ [last])).dropLast = first :: middle := by
      rw [← List.cons_append, List.dropLast_concat]
    have hsome : (leading (first :: middle) ++ [last]).isEmpty = false := by simp
    rw [if_neg (by simp), hleading, List.dropLast_concat, foldl_enter_leading,
      ← of_parent hslash (hstart.trans (by simp [hrest]))]
    simp only [hdrop, hsome, Bool.false_eq_true, if_false]
    cases trimSegments (first :: middle) <;> rfl

/-- A file includes what the target's path leads to from the file's directory. -/
theorem includedPath_eq (file target : String) :
    Lower.includedPath file target = ((directory file).follow target).text := by
  have hdirectory := of_parentPath file
  rw [Lower.includedPath]
  split
  · rename_i hrooted
    rw [normalizePath_eq, of, follow, follow, start, start, if_pos hrooted, if_pos hrooted]
  · rename_i hrelative
    split
    · rename_i dir hdir
      rw [hdir, Option.getD_some] at hdirectory
      rw [normalizePath_eq, of_joinPath hrelative, hdirectory]
    · rename_i hnone
      rw [hnone, Option.getD_none, of_empty] at hdirectory
      rw [normalizePath_eq, of, hdirectory]

end Location

open Location

/-- Normal texts of paths: normalizing again changes nothing, only the text `.` has a component
`.`, components `..` come first and only in relative paths, and the text leads where the path led.
So targets that lead to one place from the directory of a file, and only those, are included under
one text. -/
theorem normalizePath_canonical :
    (∀ text : String,
      normalizePath (normalizePath text) = normalizePath text ∧
      ("." ∈ (normalizePath text).splitOn "/" ↔ normalizePath text = ".") ∧
      ((normalizePath text).startsWith "/" = true ∧ ".." ∉ (normalizePath text).splitOn "/" ∨
        (normalizePath text).startsWith "/" = false ∧ ∃ up down,
          (normalizePath text).splitOn "/" = List.replicate up ".." ++ down ∧ ".." ∉ down) ∧
      Location.of (normalizePath text) = Location.of text) ∧
    ∀ file target target' : String,
      Lower.includedPath file target = Lower.includedPath file target' ↔
        (directory file).follow target = (directory file).follow target' := by
  refine ⟨fun text => ?_, fun file target target' => ?_⟩
  · rw [normalizePath_eq, normalizePath_eq, of_text, splitOn_text, startsWith_text]
    exact ⟨rfl, dot_mem_segments_iff _, parents_first _, rfl⟩
  · rw [includedPath_eq, includedPath_eq, text_inj]

end QueryTaint
