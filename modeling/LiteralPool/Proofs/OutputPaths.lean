import Mathlib
import LiteralPool.OutputPath
import LiteralPool.Proofs.FileTrees
import LiteralPool.Proofs.Paths

/-!
# Where the output may go

**Theorem (`FileSystem.output_is_never_input`).** The output path is the one that was asked for, or
else the input's with another extension; it goes another way than the input's path, and leads
elsewhere if both lead anywhere. So whatever is created there, the input stays what it is. Any other
path is refused, and among these is every path that leads where the input stands.

The last is also said of the text of paths. A path *takes a detour* more than another if on the way
to its last piece it has one more piece that goes nowhere, or goes into a directory that is there
and out again (`FileSystem.TakesDetour`). Detours do not change where a path leads
(`FileSystem.TakesDetour.locate?_eq`), so a path that was respelled by any number of them, taken or
left out, is refused as well.
-/

namespace LiteralPool

/-! ## The check -/

theorem Path.checkOutput_eq_ok_iff {input output p : Path} {sameFile : Bool} :
    input.checkOutput output sameFile = .ok p ↔
      output.components ≠ input.components ∧ sameFile = false ∧ output = p := by
  rw [checkOutput]
  by_cases hcomponents : output.components = input.components
  · simp [hcomponents]
  · by_cases hsame : sameFile
    · simp [hsame]
    · simp [hcomponents, hsame]

theorem Path.checkOutput_eq_error_iff {input output : Path} {sameFile : Bool} {e : OutputIsInput} :
    input.checkOutput output sameFile = .error e ↔
      (output.components = input.components ∨ sameFile = true) ∧ e = ⟨input⟩ := by
  rw [checkOutput]
  split_ifs with h
  · exact ⟨fun he => ⟨h, (Except.error.inj he).symm⟩, fun he => by rw [he.2]⟩
  · exact ⟨fun he => (nomatch he), fun he => absurd he.1 h⟩

namespace FileSystem

variable {fs fs' : FileSystem} {p q input : Path} {requested : Option Path}

theorem sameFile_eq_false_iff :
    fs.sameFile p q = false ↔
      ∀ place other, fs.locate? p = some place → fs.locate? q = some other → place ≠ other := by
  rw [Bool.eq_false_iff, ne_eq, sameFile_eq_true_iff]
  constructor
  · rintro h place _ hp hq rfl
    exact h ⟨place, hp, hq⟩
  · rintro h ⟨place, hp, hq⟩
    exact h place place hp hq rfl

theorem outputPath_eq_ok_iff :
    fs.outputPath input requested = .ok p ↔
      p = requested.getD (input.withExtension "s") ∧ p.components ≠ input.components ∧
        ∀ place other, fs.locate? input = some place → fs.locate? p = some other →
          place ≠ other := by
  rw [outputPath, Path.checkOutput_eq_ok_iff, ← sameFile_eq_false_iff]
  constructor
  · rintro ⟨hcomponents, hsame, rfl⟩
    exact ⟨rfl, hcomponents, hsame⟩
  · rintro ⟨rfl, hcomponents, hsame⟩
    exact ⟨hcomponents, hsame, rfl⟩

/-- There is one refusal. -/
theorem outputPath_eq_error (h : ∀ p, fs.outputPath input requested ≠ .ok p) :
    fs.outputPath input requested = .error ⟨input⟩ := by
  cases hpath : fs.outputPath input requested with
  | ok p => exact absurd hpath (h p)
  | error e => rw [(Path.checkOutput_eq_error_iff.mp hpath).2]

/-- A path that leads where the input stands is refused. -/
theorem outputPath_of_locate?_eq {place : Location} (hinput : fs.locate? input = some place)
    (hp : fs.locate? p = some place) : fs.outputPath input (some p) = .error ⟨input⟩ :=
  Path.checkOutput_eq_error_iff.mpr
    ⟨.inr (sameFile_eq_true_iff.mpr ⟨place, hinput, hp⟩), rfl⟩

/-! ## What is created elsewhere -/

/-- A path that does not lead where another path leads does not name that place. -/
theorem Names.ne_of_sameFile {location place : Location} {name : String}
    (h : fs.Names q location name) (hsame : fs.sameFile p q = false)
    (hplace : fs.locate? p = some place) : place ≠ location ++ [name] := by
  rintro rfl
  have hleads : fs.locate? q = some (location ++ [name]) :=
    h.locate?_of_isSome (isSome_kindAt?_of_locate? hplace)
  exact sameFile_eq_false_iff.mp hsame _ _ hplace hleads rfl

/-- What a path leads to stays if something is created through another path that does not lead
there. -/
theorem kindAt?_of_create? {contents : ByteArray} (hcreate : fs.create? q contents = some fs')
    (hsame : fs.sameFile p q = false) {place : Location} (hplace : fs.locate? p = some place) :
    fs'.locate? p = some place ∧ fs'.kindAt? place = fs.kindAt? place := by
  obtain ⟨location, name, hnames, hways, hkind⟩ := exists_names_of_create? hcreate
  refine ⟨hways.locate? hplace, ?_⟩
  rw [hkind, if_neg (hnames.ne_of_sameFile hsame hplace)]

/-! ## Detours -/

/-- Pieces that lead from a location to itself: one that goes nowhere, or one into a directory that
stands there and one out again. -/
inductive Detour (fs : FileSystem) (location : Option Location) : List String → Prop
  | idle {piece : String} : Path.isIdle piece = true → Detour fs location [piece]
  | back (name : String) (place : Location) : Path.isIdle name = false → name ≠ ".." →
      '\x00' ∉ name.toList → location = some place →
      fs.kindAt? (place ++ [name]) = some .directory → Detour fs location [name, ".."]

/-- On the way to the name that both paths end in, the second takes a detour more. -/
inductive TakesDetour (fs : FileSystem) (p q : Path) : Prop
  | intro (front detour rest : List String) (name : String) :
      p.pieces = front ++ (rest ++ [name]) → q.pieces = front ++ (detour ++ (rest ++ [name])) →
      Path.isIdle name = false → q.isAbsolute = p.isAbsolute →
      fs.Detour (front.foldlM fs.follow? (fs.origin p)) detour → TakesDetour fs p q

/-- One path was made from another by detours that were taken or left out. -/
def Respelled (fs : FileSystem) : Path → Path → Prop := Relation.EqvGen fs.TakesDetour

/-- A detour leads back to the directory that it starts in. -/
theorem Detour.foldlM_follow? {location : Location} {detour : List String}
    (h : fs.Detour (some location) detour) (hdirectory : fs.kindAt? location = some .directory) :
    detour.foldlM fs.follow? location = some location := by
  cases h with
  | idle hidle =>
    rw [List.foldlM_cons, follow?_eq_some_iff.mpr ⟨hdirectory, .idle hidle⟩]
    rfl
  | back name place hidle hparent _ hplace hname =>
    obtain rfl : location = place := Option.some.inj hplace
    have hin : fs.follow? location name = some (location ++ [name]) :=
      follow?_eq_some_iff.mpr ⟨hdirectory, .down hidle hparent (by rw [hname]; rfl)⟩
    have hout : fs.follow? (location ++ [name]) ".." = some location := by
      rw [follow?_eq_some_iff.mpr ⟨hname, .up⟩, List.dropLast_concat]
    rw [List.foldlM_cons, hin]
    show [".."].foldlM fs.follow? (location ++ [name]) = _
    rw [List.foldlM_cons, hout]
    rfl

/-- With a detour in front of further pieces the way leads where it leads without. -/
theorem Detour.foldlM_append {location : Option Location} {detour pieces : List String}
    (h : fs.Detour location detour) (hne : pieces ≠ []) :
    (location.bind fun place => (detour ++ pieces).foldlM fs.follow? place) =
      location.bind fun place => pieces.foldlM fs.follow? place := by
  cases location with
  | none => rfl
  | some location =>
    rw [Option.bind_some, Option.bind_some, List.foldlM_append]
    -- Where no directory stands, neither the detour nor the pieces behind it lead on.
    by_cases hdirectory : fs.kindAt? location = some .directory
    · rw [h.foldlM_follow? hdirectory]
      rfl
    · have hdetour : detour ≠ [] := by cases h <;> simp
      rw [foldlM_of_not_directory hdirectory hdetour, foldlM_of_not_directory hdirectory hne]
      rfl

namespace TakesDetour

theorem isNameable_eq (h : fs.TakesDetour p q) : q.isNameable = p.isNameable := by
  obtain ⟨front, detour, rest, name, hp, hq, hname, -, hdetour⟩ := h
  have hne : ∀ r : Path, name ∈ r.pieces → r.pieces ≠ [""] := by
    intro r hmem hr
    rw [hr, List.mem_singleton] at hmem
    exact Path.ne_empty_of_not_idle hname hmem
  have hnul : ∀ piece ∈ detour, '\x00' ∉ piece.toList := by
    cases hdetour with
    | idle hidle =>
      obtain rfl | rfl := Path.isIdle_iff.mp hidle <;> decide
    | back _ _ _ _ hnul => simpa using hnul
  rw [Bool.eq_iff_iff, Path.isNameable_iff (hne q (by simp [hq])),
    Path.isNameable_iff (hne p (by simp [hp])), hp, hq]
  simp only [List.forall_mem_append, and_iff_right hnul]

/-- A detour does not change where a path leads. -/
theorem locate?_eq (h : fs.TakesDetour p q) : fs.locate? q = fs.locate? p := by
  have hnameable := h.isNameable_eq
  obtain ⟨front, detour, rest, name, hp, hq, hname, habsolute, hdetour⟩ := h
  have horigin : fs.origin q = fs.origin p := by rw [origin, origin, habsolute]
  have hne : rest ++ [name] ≠ [] := by simp
  have happend := hdetour.foldlM_append hne
  rw [locate?, locate?, hnameable, horigin, hp, hq, List.foldlM_append, List.foldlM_append]
  exact congrArg (fun way => if p.isNameable then way else none) happend

end TakesDetour

theorem Respelled.locate?_eq (h : fs.Respelled p q) : fs.locate? p = fs.locate? q := by
  induction h with
  | rel p q h => exact h.locate?_eq.symm
  | refl p => rfl
  | symm p q _ ih => exact ih.symm
  | trans p q r _ _ ihpq ihqr => exact ihpq.trans ihqr

/-- **The output is never the input.** The output path is accepted if and only if it is the one that
was asked for, or else the input's with the extension `s`, and goes another way than the input's
path, and leads elsewhere if both lead anywhere; otherwise the refusal names the input as it was
given. If something is created or replaced through an accepted path, then the input's path leads
where it led, and what stands there is the same. And if the input's path leads anywhere, every path
that leads there is refused, and so is every path that was respelled from the input's. -/
theorem output_is_never_input (fs : FileSystem) (input : Path) (requested : Option Path) :
    (∀ p, fs.outputPath input requested = .ok p ↔
      p = requested.getD (input.withExtension "s") ∧ p.components ≠ input.components ∧
        ∀ place other, fs.locate? input = some place → fs.locate? p = some other →
          place ≠ other) ∧
    ((∀ p, fs.outputPath input requested ≠ .ok p) →
      fs.outputPath input requested = .error ⟨input⟩) ∧
    (∀ p contents fs', fs.outputPath input requested = .ok p → fs.create? p contents = some fs' →
      ∀ place, fs.locate? input = some place →
        fs'.locate? input = some place ∧ fs'.kindAt? place = fs.kindAt? place) ∧
    ∀ place, fs.locate? input = some place →
      (∀ p, fs.locate? p = some place → fs.outputPath input (some p) = .error ⟨input⟩) ∧
      ∀ p, fs.Respelled input p → fs.outputPath input (some p) = .error ⟨input⟩ := by
  refine ⟨fun p => outputPath_eq_ok_iff, outputPath_eq_error, ?_, ?_⟩
  · intro p contents fs' hok hcreate place hplace
    obtain ⟨-, hsame, rfl⟩ := Path.checkOutput_eq_ok_iff.mp hok
    exact kindAt?_of_create? hcreate hsame hplace
  · intro place hplace
    refine ⟨fun p hp => outputPath_of_locate?_eq hplace hp, fun p hp => ?_⟩
    exact outputPath_of_locate?_eq hplace (hp.locate?_eq.symm.trans hplace)

/-- A file `a` that holds one integer, and beside it a directory `d`, in which a run takes place. -/
def integerAbove : FileSystem :=
  ⟨.directory [("a", .file "1".toUTF8), ("d", .directory [])], ["d"]⟩

/-- From the directory another file can be created, but the way back into it and out again leads to
the input. -/
theorem output_is_never_input_above :
    integerAbove.outputPath ⟨"../a"⟩ (some ⟨"b"⟩) = .ok ⟨"b"⟩ ∧
      (∃ fs', integerAbove.create? ⟨"b"⟩ "2".toUTF8 = some fs' ∧
        fs'.kindAt? ["a"] = some (.file "1".toUTF8)) ∧
      integerAbove.Respelled ⟨"../a"⟩ ⟨"..//d/../a"⟩ ∧
      integerAbove.outputPath ⟨"../a"⟩ (some ⟨"..//d/../a"⟩) = .error ⟨⟨"../a"⟩⟩ := by
  have hplace : integerAbove.locate? ⟨"../a"⟩ = some ["a"] := by decide
  have hslash : integerAbove.TakesDetour ⟨"../a"⟩ ⟨"..//a"⟩ :=
    .intro [".."] [""] [] "a" (by decide) (by decide) (by decide) (by decide) (.idle (by decide))
  have hback : integerAbove.TakesDetour ⟨"..//a"⟩ ⟨"..//d/../a"⟩ :=
    .intro ["..", ""] ["d", ".."] [] "a" (by decide) (by decide) (by decide) (by decide)
      (.back "d" [] (by decide) (by decide) (by decide) (by decide) (by decide))
  have hrespelled : integerAbove.Respelled ⟨"../a"⟩ ⟨"..//d/../a"⟩ :=
    .trans _ _ _ (.rel _ _ hslash) (.rel _ _ hback)
  obtain ⟨haccepted, -, hcreated, hrefused⟩ :=
    output_is_never_input integerAbove ⟨"../a"⟩ (some ⟨"b"⟩)
  have hok : integerAbove.outputPath ⟨"../a"⟩ (some ⟨"b"⟩) = .ok ⟨"b"⟩ := by
    refine (haccepted ⟨"b"⟩).mpr ⟨rfl, by decide, fun place other _ hb => ?_⟩
    have hnone : integerAbove.locate? ⟨"b"⟩ = none := by decide
    rw [hnone] at hb
    cases hb
  refine ⟨hok, ?_, hrespelled, (hrefused ["a"] hplace).2 _ hrespelled⟩
  obtain ⟨fs', hfs'⟩ : ∃ fs', integerAbove.create? ⟨"b"⟩ "2".toUTF8 = some fs' := ⟨_, rfl⟩
  refine ⟨fs', hfs', ?_⟩
  rw [(hcreated _ _ _ hok hfs' _ hplace).2]
  decide

end FileSystem

end LiteralPool
