import Mathlib
import LiteralPool.Path

/-!
# Paths and their pieces

A path is its pieces: no piece holds a slash, there is at least one, and from such pieces the path
is put together again (`ofPieces_pieces`, `pieces_ofPieces`). Where a path begins and whether it can
name anything can be read off the pieces too.

A path *ends in* a name after the pieces in front of it if behind the name there are none but idle
pieces (`Path.EndsIn`). What is said about the end of a path follows from that: which name it is
(`EndsIn.name?`), and which components the path has (`EndsIn.components`), the way of the pieces in
front and then the component of the name.
-/

namespace LiteralPool

namespace Path

variable {p q : Path} {front slack : List String} {piece name : String}

/-! ## Pieces -/

/-- Splitting at the slashes is splitting a list at an element. -/
theorem foldr_extendPieces (cs : List Char) : cs.foldr extendPieces [[]] = cs.splitOn '/' := by
  induction cs with
  | nil => rfl
  | cons c cs ih =>
    rw [List.foldr_cons, ih, extendPieces]
    simp only [List.splitOn, List.splitOnP_cons_eq_if_modifyHead, beq_iff_eq]

theorem pieces_eq (p : Path) : p.pieces = (p.text.toList.splitOn '/').map String.ofList := by
  rw [pieces, foldr_extendPieces]

theorem pieces_ne_nil (p : Path) : p.pieces ≠ [] := by
  rw [pieces_eq, ne_eq, List.map_eq_nil_iff]
  exact List.splitOn_ne_nil _ _

theorem notMem_of_mem_extendPieces {cs ds : List Char}
    (h : ds ∈ cs.foldr extendPieces [[]]) : '/' ∉ ds := by
  induction cs generalizing ds with
  | nil =>
    rw [List.mem_singleton.mp h]
    exact List.not_mem_nil
  | cons c cs ih =>
    rw [List.foldr_cons, extendPieces] at h
    split_ifs at h with hc
    · obtain rfl | h := List.mem_cons.mp h
      · exact List.not_mem_nil
      · exact ih h
    · cases hpieces : cs.foldr extendPieces [[]] with
      | nil =>
        rw [hpieces] at h
        cases h
      | cons first rest =>
        rw [hpieces] at h ih
        obtain rfl | h := List.mem_cons.mp h
        · rw [List.mem_cons, not_or]
          exact ⟨Ne.symm hc, ih (List.mem_cons_self ..)⟩
        · exact ih (List.mem_cons_of_mem _ h)

/-- No piece holds a slash. -/
theorem slash_notMem (h : piece ∈ p.pieces) : '/' ∉ piece.toList := by
  obtain ⟨cs, hcs, rfl⟩ := List.mem_map.mp h
  rw [String.toList_ofList]
  exact notMem_of_mem_extendPieces hcs

theorem intercalate_slash_cons (name : String) (slack : List String) :
    ['/'].intercalate ((name :: slack).map String.toList) =
      name.toList ++ slack.flatMap fun piece => '/' :: piece.toList := by
  induction slack generalizing name with
  | nil => simp
  | cons next slack ih =>
    rw [List.map_cons, List.map_cons, List.intercalate_cons_cons, ← List.map_cons, ih]
    simp

/-- The text of a path around one of its pieces. -/
theorem toList_ofPieces (front : List String) (name : String) (slack : List String) :
    (ofPieces (front ++ name :: slack)).text.toList =
      front.flatMap (fun piece => piece.toList ++ ['/']) ++
        (name.toList ++ slack.flatMap fun piece => '/' :: piece.toList) := by
  rw [ofPieces, String.toList_intercalate]
  show ['/'].intercalate _ = _
  induction front with
  | nil => exact intercalate_slash_cons name slack
  | cons first front ih =>
    rw [List.cons_append, List.map_cons, List.intercalate_cons_of_ne_nil (by simp), ih]
    simp

/-- Paths with the same characters are the same. -/
theorem eq_of_toList (h : p.text.toList = q.text.toList) : p = q := by
  cases p
  cases q
  exact congrArg mk (String.toList_inj.mp h)

theorem ofPieces_pieces (p : Path) : ofPieces p.pieces = p := by
  refine eq_of_toList ?_
  rw [ofPieces, pieces_eq, String.toList_intercalate, List.map_map]
  simp only [Function.comp_def, String.toList_ofList, List.map_id']
  exact List.intercalate_splitOn '/'

theorem pieces_ofPieces {pieces : List String} (h : ∀ piece ∈ pieces, '/' ∉ piece.toList)
    (hne : pieces ≠ []) : (ofPieces pieces).pieces = pieces := by
  rw [pieces_eq, ofPieces, String.toList_intercalate]
  show ((['/'].intercalate (pieces.map String.toList)).splitOn '/').map String.ofList = pieces
  rw [List.splitOn_intercalate '/' (by simpa using h) (by simpa using hne), List.map_map]
  simp [Function.comp_def]

theorem toList_text (h : p.pieces = front ++ name :: slack) :
    p.text.toList = front.flatMap (fun piece => piece.toList ++ ['/']) ++
      (name.toList ++ slack.flatMap fun piece => '/' :: piece.toList) := by
  rw [← toList_ofPieces, ← h, ofPieces_pieces]

theorem exists_toList_cons (h : name ≠ "") : ∃ c cs, name.toList = c :: cs :=
  List.exists_cons_of_ne_nil (mt String.toList_eq_nil_iff.mp h)

/-- A path begins at the root if its first piece is empty and not the only one. -/
theorem isAbsolute_iff (h : p.pieces = front ++ name :: slack) (hname : name ≠ "") :
    p.isAbsolute = true ↔ front.head? = some "" := by
  rw [isAbsolute, toList_text h, beq_iff_eq]
  cases front with
  | nil =>
    have hslash : '/' ∉ name.toList := slash_notMem (p := p) (by simp [h])
    obtain ⟨c, cs, hcs⟩ := exists_toList_cons hname
    simp only [hcs, List.mem_cons, not_or] at hslash
    simp [hcs, Ne.symm hslash.1]
  | cons first front =>
    have hslash : '/' ∉ first.toList := slash_notMem (p := p) (by simp [h])
    cases hcs : first.toList with
    | nil => simp [String.toList_eq_nil_iff.mp hcs]
    | cons c cs =>
      have hne : first ≠ "" := by
        rintro rfl
        cases hcs
      simp only [hcs, List.mem_cons, not_or] at hslash
      simp [hcs, Ne.symm hslash.1, hne]

/-- Which characters a path holds besides slashes. -/
theorem mem_text_iff {c : Char} (hc : c ≠ '/') :
    c ∈ p.text.toList ↔ ∃ piece ∈ p.pieces, c ∈ piece.toList := by
  obtain ⟨first, rest, hpieces⟩ := List.exists_cons_of_ne_nil p.pieces_ne_nil
  have htext : p.text.toList = first.toList ++ rest.flatMap fun piece => '/' :: piece.toList :=
    toList_text (hpieces.trans (List.nil_append _).symm)
  simp [htext, hpieces, hc]

/-- A path that is not empty can name something if no piece holds a NUL. -/
theorem isNameable_iff (h : p.pieces ≠ [""]) :
    p.isNameable = true ↔ ∀ piece ∈ p.pieces, '\x00' ∉ piece.toList := by
  have htext : p.text ≠ "" := by
    intro htext
    rw [pieces, htext] at h
    exact h rfl
  have hnul := mem_text_iff (p := p) (c := '\x00') (by decide)
  simp only [isNameable, bne_iff_ne, ne_eq, htext, not_false_eq_true, Bool.and_eq_true, true_and,
    Bool.not_eq_true', List.contains_eq_mem, decide_eq_false_iff_not, hnul, not_exists, not_and]

/-! ## The end of a path -/

/-- After the pieces in front the path comes to the name, and to idle pieces behind it. -/
structure EndsIn (p : Path) (front : List String) (name : String) (slack : List String) : Prop where
  pieces : p.pieces = front ++ name :: slack
  not_idle : isIdle name = false
  idle : ∀ piece ∈ slack, isIdle piece = true

theorem isIdle_iff : isIdle piece = true ↔ piece = "" ∨ piece = "." := by
  simp [isIdle]

theorem ne_empty_of_not_idle (h : isIdle name = false) : name ≠ "" := by
  rintro rfl
  cases h

theorem slash_notMem_of_idle (h : isIdle piece = true) : '/' ∉ piece.toList := by
  obtain rfl | rfl := isIdle_iff.mp h <;> decide

/-- A path that is put together ends in the last of its pieces that is not idle. -/
theorem endsIn_ofPieces (hfront : ∀ piece ∈ front, '/' ∉ piece.toList) (hslash : '/' ∉ name.toList)
    (hname : isIdle name = false) (hslack : ∀ piece ∈ slack, isIdle piece = true) :
    (ofPieces (front ++ name :: slack)).EndsIn front name slack := by
  refine ⟨pieces_ofPieces ?_ (by simp), hname, hslack⟩
  rw [List.forall_mem_append, List.forall_mem_cons]
  exact ⟨hfront, hslash, fun piece hpiece => slash_notMem_of_idle (hslack piece hpiece)⟩

namespace EndsIn

theorem slash_notMem_front (h : p.EndsIn front name slack) :
    ∀ piece ∈ front, '/' ∉ piece.toList := by
  intro piece hpiece
  refine slash_notMem (p := p) ?_
  rw [h.pieces]
  exact List.mem_append_left _ hpiece

theorem slash_notMem_name (h : p.EndsIn front name slack) : '/' ∉ name.toList := by
  refine slash_notMem (p := p) ?_
  rw [h.pieces]
  exact List.mem_append_right _ (List.mem_cons_self ..)

theorem isAbsolute_iff (h : p.EndsIn front name slack) :
    p.isAbsolute = true ↔ front.head? = some "" :=
  Path.isAbsolute_iff h.pieces (ne_empty_of_not_idle h.not_idle)

/-- Where a path begins is decided in front of its end. -/
theorem isAbsolute_eq {other : String} {slack' : List String} (h : p.EndsIn front name slack)
    (h' : q.EndsIn front other slack') : q.isAbsolute = p.isAbsolute := by
  rw [Bool.eq_iff_iff, h.isAbsolute_iff, h'.isAbsolute_iff]

theorem trimmed (h : p.EndsIn front name slack) : p.trimmed = front ++ [name] := by
  rw [Path.trimmed, h.pieces, List.reverse_append, List.reverse_cons, List.append_assoc,
    List.dropWhile_append_of_pos (by simpa using h.idle)]
  show (List.dropWhile isIdle (name :: front.reverse)).reverse = _
  rw [List.dropWhile_cons_of_neg (by simp [h.not_idle]), List.reverse_cons, List.reverse_reverse]

theorem name? (h : p.EndsIn front name slack) :
    p.name? = if name = ".." then none else some name := by
  rw [Path.name?, h.trimmed, List.getLast?_concat, Option.filter_some]
  simp

end EndsIn

/-- A path has none but idle pieces, or it ends in one of them. -/
theorem idle_or_endsIn (p : Path) :
    (∀ piece ∈ p.pieces, isIdle piece = true) ∨ ∃ front name slack, p.EndsIn front name slack := by
  have hsplit : p.pieces.rdropWhile isIdle ++ p.pieces.rtakeWhile isIdle = p.pieces :=
    List.rdropWhile_append_rtakeWhile
  obtain hnil | ⟨front, name, hlast⟩ := List.eq_nil_or_concat (p.pieces.rdropWhile isIdle)
  · exact .inl (List.rdropWhile_eq_nil_iff.mp hnil)
  · have hname := List.rdropWhile_last_not isIdle p.pieces (by simp [hlast])
    simp only [hlast, List.concat_eq_append, List.getLast_concat] at hname
    refine .inr ⟨front, name, p.pieces.rtakeWhile isIdle, ?_, by simpa using hname,
      fun piece hpiece => List.mem_rtakeWhile_imp hpiece⟩
    rw [hlast, List.concat_eq_append, List.append_assoc] at hsplit
    exact hsplit.symm

theorem name?_of_idle (h : ∀ piece ∈ p.pieces, isIdle piece = true) : p.name? = none := by
  have htrimmed : p.trimmed = [] := by
    rw [trimmed, List.reverse_eq_nil_iff, List.dropWhile_eq_nil_iff]
    simpa using h
  rw [name?, htrimmed]
  rfl

/-! ## Components -/

/-- The components of pieces, the first of which may be the root. -/
def way (absolute : Bool) : List String → List Component
  | [] => []
  | first :: pieces =>
    (if absolute then some .root
      else if first = "." then some .current
      else component? first).toList ++ pieces.filterMap component?

theorem components_eq_way (p : Path) : p.components = way p.isAbsolute p.pieces := by
  rw [components]
  cases p.pieces with
  | nil => rfl
  | cons first pieces => rfl

theorem way_append {absolute : Bool} (h : front ≠ []) (pieces : List String) :
    way absolute (front ++ pieces) = way absolute front ++ pieces.filterMap component? := by
  obtain ⟨first, rest, rfl⟩ := List.exists_cons_of_ne_nil h
  rw [List.cons_append, way, way, List.filterMap_append, List.append_assoc]

/-- The component of a piece that is not idle. -/
def nameComponent (name : String) : Component := if name = ".." then .parent else .normal name

theorem component?_of_not_idle (h : isIdle name = false) :
    component? name = some (nameComponent name) := by
  rw [component?, nameComponent, h, if_neg Bool.false_ne_true]
  split_ifs <;> rfl

theorem filterMap_component?_of_idle (h : ∀ piece ∈ slack, isIdle piece = true) :
    slack.filterMap component? = [] := by
  rw [List.filterMap_eq_nil_iff]
  intro piece hpiece
  rw [component?, if_pos (h piece hpiece)]

/-- A path goes the way of the pieces in front, and then to the name. -/
theorem EndsIn.components (h : p.EndsIn front name slack) :
    p.components = way p.isAbsolute front ++ [nameComponent name] := by
  have hname := component?_of_not_idle h.not_idle
  have hslack := filterMap_component?_of_idle h.idle
  rw [components_eq_way, h.pieces]
  cases front with
  | nil =>
    -- As the first piece, the name is neither the root nor the current directory: it is not idle.
    have hrelative : p.isAbsolute = false := by
      rw [Bool.eq_false_iff, ne_eq, h.isAbsolute_iff]
      simp
    have hdot : name ≠ "." := by
      rintro rfl
      cases h.not_idle
    simp [way, hrelative, hdot, hname, hslack]
  | cons first front =>
    rw [way_append (List.cons_ne_nil _ _), List.filterMap_cons_some hname, hslack]

theorem nameComponent_inj {other : String} :
    nameComponent name = nameComponent other ↔ name = other := by
  rw [nameComponent, nameComponent]
  split_ifs with hname hother hother
  · simp [hname, hother]
  · simp [hname, Ne.symm hother]
  · simp [hname, hother]
  · simp

/-- Two paths that differ at most in their ends have the same components if these are the same. -/
theorem EndsIn.components_eq_iff {other : String} {slack' : List String}
    (h : p.EndsIn front name slack) (h' : q.EndsIn front other slack') :
    q.components = p.components ↔ other = name := by
  rw [h.components, h'.components, h.isAbsolute_eq h', List.append_cancel_left_eq, List.cons.injEq,
    nameComponent_inj]
  exact and_iff_left rfl

/-- A path with none but idle pieces goes to no name. -/
theorem normal_notMem_of_idle (name : String) (h : ∀ piece ∈ p.pieces, isIdle piece = true) :
    .normal name ∉ p.components := by
  obtain ⟨first, rest, hpieces⟩ := List.exists_cons_of_ne_nil p.pieces_ne_nil
  rw [hpieces, List.forall_mem_cons] at h
  have hfirst : component? first = none := if_pos h.1
  rw [components_eq_way, hpieces, way, hfirst, filterMap_component?_of_idle h.2]
  split_ifs <;> simp

/-- The last component of a path is a name if and only if the path ends in it. -/
theorem components_eq_concat_iff {parent : List Component} :
    p.components = parent ++ [Component.normal name] ↔
      name ≠ ".." ∧ ∃ front slack, p.EndsIn front name slack ∧ way p.isAbsolute front = parent := by
  constructor
  · intro h
    obtain hidle | ⟨front, last, slack, hends⟩ := p.idle_or_endsIn
    · exact absurd (by simp [h]) (normal_notMem_of_idle name hidle)
    · rw [hends.components] at h
      obtain ⟨hparent, hlast⟩ := List.append_inj' h rfl
      rw [List.cons.injEq, nameComponent] at hlast
      split_ifs at hlast with hup
      · cases hlast.1
      · obtain rfl : last = name := Component.normal.inj hlast.1
        exact ⟨hup, front, slack, hends, hparent⟩
  · rintro ⟨hup, front, slack, hends, rfl⟩
    rw [hends.components, nameComponent, if_neg hup]

/-- A path names the name that its last component is. -/
theorem name?_eq_some_iff :
    p.name? = some name ↔ ∃ parent, p.components = parent ++ [Component.normal name] := by
  simp only [components_eq_concat_iff]
  constructor
  · intro h
    obtain hidle | ⟨front, last, slack, hends⟩ := p.idle_or_endsIn
    · rw [name?_of_idle hidle] at h
      cases h
    · rw [hends.name?] at h
      split_ifs at h with hup
      obtain rfl : last = name := Option.some.inj h
      exact ⟨_, hup, front, slack, hends, rfl⟩
  · rintro ⟨_, hup, front, slack, hends, -⟩
    rw [hends.name?, if_neg hup]

end Path

end LiteralPool
