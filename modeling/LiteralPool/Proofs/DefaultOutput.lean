import Mathlib
import LiteralPool.Proofs.Extensions
import LiteralPool.Proofs.OutputPaths

/-!
# Where the output goes if nothing else is asked for

**Theorem (`FileSystem.default_output_is_beside_input`).** The output stands beside the input, and
its name has the stem of the input's name and the extension `s`. It is refused if the input has that
name already, or ends in no name. There is one exception: if the input ends in two points with an
extension, the output goes to the parent.

Which files there are does not matter for that. Input and output have the same pieces but for the
last that is not idle, so where both lead anywhere they lead there from one directory, and apart if
the last pieces differ (`FileSystem.sameFile_of_endsIn`): the check of the components decides.
-/

namespace LiteralPool

namespace FileSystem

variable {fs : FileSystem} {p q input : Path} {front slack slack' : List String}
  {name other new : String}

/-- Idle pieces lead nowhere else. -/
theorem eq_of_foldlM_idle {location place : Location}
    (hidle : ∀ piece ∈ slack, Path.isIdle piece = true)
    (h : slack.foldlM fs.follow? location = some place) : place = location := by
  induction slack with
  | nil => exact (Option.some.inj h).symm
  | cons piece slack ih =>
    rw [List.forall_mem_cons] at hidle
    rw [List.foldlM_cons] at h
    obtain ⟨next, hnext, hplace⟩ := Option.bind_eq_some_iff.mp h
    rw [(follow?_eq_some_iff.mp hnext).2.eq_of_idle hidle.1] at hplace
    exact ih hidle.2 hplace

/-- A path that ends in a name leads along the pieces in front, and from there to the name. -/
theorem exists_follows_of_locate? (h : p.EndsIn front name slack) {place : Location}
    (hplace : fs.locate? p = some place) :
    ∃ location, front.foldlM fs.follow? (fs.origin p) = some location ∧
      fs.Follows location name place := by
  rw [locate?] at hplace
  split_ifs at hplace
  rw [h.pieces, List.foldlM_append] at hplace
  obtain ⟨location, hlocation, hplace⟩ := Option.bind_eq_some_iff.mp hplace
  rw [List.foldlM_cons] at hplace
  obtain ⟨next, hnext, hplace⟩ := Option.bind_eq_some_iff.mp hplace
  obtain rfl := eq_of_foldlM_idle h.idle hplace
  exact ⟨location, hlocation, (follow?_eq_some_iff.mp hnext).2⟩

/-- From one location, a name and another piece that is not idle lead to different places. -/
theorem Follows.piece_eq {location place : Location} (h : fs.Follows location name place)
    (h' : fs.Follows location other place) (hname : Path.isIdle name = false)
    (hother : Path.isIdle other = false) (hup : name ≠ "..") : other = name := by
  have hplace := h.eq_of_not_idle hname
  have hplace' := h'.eq_of_not_idle hother
  rw [if_neg hup] at hplace
  split_ifs at hplace'
  · have hlength := congrArg List.length (hplace.symm.trans hplace')
    rw [List.length_append, List.length_singleton, List.length_dropLast] at hlength
    omega
  · simpa using hplace'.symm.trans hplace

/-- Paths that differ in the names that they end in do not lead to the same file. -/
theorem sameFile_of_endsIn (h : p.EndsIn front name slack) (h' : q.EndsIn front other slack')
    (hup : name ≠ "..") (hne : other ≠ name) : fs.sameFile p q = false := by
  rw [sameFile_eq_false_iff]
  rintro place _ hp hq rfl
  obtain ⟨location, hlocation, hfollows⟩ := exists_follows_of_locate? h hp
  obtain ⟨location', hlocation', hfollows'⟩ := exists_follows_of_locate? h' hq
  -- Both ways go along the same pieces from one origin, so the last step starts in one directory.
  have horigin : fs.origin q = fs.origin p := by rw [origin, origin, h.isAbsolute_eq h']
  rw [horigin, hlocation] at hlocation'
  obtain rfl := Option.some.inj hlocation'
  exact hne (hfollows.piece_eq hfollows' h.not_idle h'.not_idle hup)

/-- A path with another extension leads elsewhere, unless it goes the same way. -/
theorem sameFile_withExtension (hnew : '/' ∉ new.toList)
    (hcomponents : (p.withExtension new).components ≠ p.components) :
    fs.sameFile p (p.withExtension new) = false := by
  by_cases hdots : p.EndsInDots
  · obtain ⟨front, name, slack, hends, hup, hnew⟩ := Path.endsIn_withExtension_of_dots hdots new
    exact sameFile_of_endsIn hends hnew hup (Ne.symm hup)
  · cases hname : p.name? with
    | none => exact absurd (by rw [Path.withExtension_of_name? hname]) hcomponents
    | some name =>
      obtain ⟨parent, hparent⟩ := Path.name?_eq_some_iff.mp hname
      obtain ⟨hup, front, slack, hends, -⟩ := Path.components_eq_concat_iff.mp hparent
      obtain ⟨stem, hstem⟩ := Path.exists_hasStem name
      have hends' := Path.endsIn_withExtension hends hup hstem hnew hdots
      have hne : stem ++ "." ++ new ≠ name := mt (hends.components_eq_iff hends').mpr hcomponents
      exact sameFile_of_endsIn hends hends' hup hne

/-- If nothing else is asked for, the components of the paths decide. -/
theorem outputPath_none (fs : FileSystem) (input : Path) :
    fs.outputPath input none =
      if (input.withExtension "s").components = input.components then .error ⟨input⟩
      else .ok (input.withExtension "s") := by
  split_ifs with hcomponents
  · exact Path.checkOutput_eq_error_iff.mpr ⟨.inl hcomponents, rfl⟩
  · exact Path.checkOutput_eq_ok_iff.mpr
      ⟨hcomponents, sameFile_withExtension (by decide) hcomponents, rfl⟩

/-- **The default output is beside the input.** Let the last component of the input's path be a
name; each name has one stem. If the name is the stem with the extension `s`, the input is refused.
If it is not, the output has the same components up to the last, which is the stem with that
extension. But if the path's last piece is two points with an extension, the last component of the
output is the parent. An input whose last component is no name is refused. The answer does not
depend on the file system. -/
theorem default_output_is_beside_input (fs : FileSystem) (input : Path) :
    (∀ name, ∃! stem, Path.HasStem name stem) ∧
    (∀ (parent : List Component) (name stem : String),
      input.components = parent ++ [Component.normal name] → Path.HasStem name stem →
      ¬ input.EndsInDots →
      (name = stem ++ ".s" → fs.outputPath input none = .error ⟨input⟩) ∧
      (name ≠ stem ++ ".s" → ∃ output, fs.outputPath input none = .ok output ∧
        output.components = parent ++ [Component.normal (stem ++ ".s")])) ∧
    (∀ (parent : List Component) (name : String),
      input.components = parent ++ [Component.normal name] → input.EndsInDots →
      ∃ output, fs.outputPath input none = .ok output ∧
        output.components = parent ++ [Component.parent]) ∧
    ((∀ (parent : List Component) (name : String),
        input.components ≠ parent ++ [Component.normal name]) →
      fs.outputPath input none = .error ⟨input⟩) ∧
    ∀ other : FileSystem, other.outputPath input none = fs.outputPath input none := by
  refine ⟨Path.existsUnique_hasStem, ?_, ?_, ?_, ?_⟩
  · intro parent name stem hparent hstem hdots
    obtain ⟨hup, front, slack, hends, rfl⟩ := Path.components_eq_concat_iff.mp hparent
    have hslash : '/' ∉ "s".toList := by decide
    have hassoc : stem ++ "." ++ "s" = stem ++ ".s" := String.append_assoc
    have hends' := Path.endsIn_withExtension hends hup hstem hslash hdots
    rw [hassoc] at hends'
    have hcomponents := hends.components_eq_iff hends'
    have hlast : stem ++ ".s" ≠ ".." := by
      intro hlast
      have hne := hstem.ne_empty (Path.ne_empty_of_not_idle hends.not_idle)
      exact absurd (Path.append_point_eq_dots hne (hassoc.trans hlast)).2 (by decide)
    refine ⟨fun hname => ?_, fun hname => ⟨input.withExtension "s", ?_, ?_⟩⟩
    · rw [outputPath_none, if_pos (hcomponents.mpr hname.symm)]
    · rw [outputPath_none, if_neg (mt hcomponents.mp (Ne.symm hname))]
    · rw [hends'.components, hends.isAbsolute_eq hends', Path.nameComponent, if_neg hlast]
  · intro parent name hparent hdots
    obtain ⟨front, last, slack, hends, hup, hends'⟩ := Path.endsIn_withExtension_of_dots hdots "s"
    refine ⟨input.withExtension "s", ?_, ?_⟩
    · rw [outputPath_none, if_neg (mt (hends.components_eq_iff hends').mp (Ne.symm hup))]
    · rw [hends.components] at hparent
      rw [hends'.components, hends.isAbsolute_eq hends', (List.append_inj' hparent rfl).1]
      rfl
  · intro hnone
    have hname : input.name? = none := by
      rw [Option.eq_none_iff_forall_ne_some]
      intro name hname
      obtain ⟨parent, hparent⟩ := Path.name?_eq_some_iff.mp hname
      exact hnone parent name hparent
    rw [outputPath_none, Path.withExtension_of_name? hname, if_pos rfl]
  · intro other
    rw [outputPath_none, outputPath_none]

/-- The output beside a text file; a name with the extension that is refused although an idle piece
stands behind it; and two points with an extension and without. -/
theorem default_output_is_beside_text :
    (∃ output, integerAbove.outputPath ⟨"d/lits.txt"⟩ none = .ok output ∧
      output.components = [.normal "d", .normal "lits.s"]) ∧
    integerAbove.outputPath ⟨"lits.s/."⟩ none = .error ⟨⟨"lits.s/."⟩⟩ ∧
    (∃ output, integerAbove.outputPath ⟨"d/..txt"⟩ none = .ok output ∧
      output.components = [.normal "d", .parent]) ∧
    integerAbove.outputPath ⟨"d/.."⟩ none = .error ⟨⟨"d/.."⟩⟩ := by
  obtain ⟨-, htext, -⟩ := default_output_is_beside_input integerAbove ⟨"d/lits.txt"⟩
  obtain ⟨-, hidle, -⟩ := default_output_is_beside_input integerAbove ⟨"lits.s/."⟩
  obtain ⟨-, -, hdots, -⟩ := default_output_is_beside_input integerAbove ⟨"d/..txt"⟩
  obtain ⟨-, -, -, hup, -⟩ := default_output_is_beside_input integerAbove ⟨"d/.."⟩
  refine ⟨?_, ?_, ?_, ?_⟩
  · have hstem : Path.HasStem ("lits" ++ "." ++ "txt") "lits" := .extended (by decide) (by decide)
    have hdots : ¬ (⟨"d/lits.txt"⟩ : Path).EndsInDots :=
      Path.not_endsInDots ["d"] "lits.txt" (by decide) (by decide)
    exact (htext [.normal "d"] _ "lits" (by decide) hstem hdots).2 (by decide)
  · have hstem : Path.HasStem ("lits" ++ "." ++ "s") "lits" := .extended (by decide) (by decide)
    have hdots : ¬ (⟨"lits.s/."⟩ : Path).EndsInDots :=
      Path.not_endsInDots ["lits.s"] "." (by decide) (by decide)
    exact (hidle [] _ "lits" (by decide) hstem hdots).1 (by decide)
  · exact hdots [.normal "d"] "..txt" (by decide)
      ⟨["d"], "txt", by decide, by decide, by decide⟩
  · refine hup fun parent name hparent => ?_
    have hcomponents : (⟨"d/.."⟩ : Path).components = [.normal "d"] ++ [Component.parent] := by
      decide
    cases (List.append_inj' (hcomponents.symm.trans hparent) rfl).2

end FileSystem

end LiteralPool
