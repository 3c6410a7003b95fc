import LiteralPool.Proofs.Drawing

/-!
# Telling the details

A diagnostic starts with a cause, and details are told one after the other (`Diagnostic.build`).
Naming a place takes back whatever was said about a place before; a note is added to those that are
there.

**Theorem (`last_place_counts`).** Of the places that are named only the last one counts, also if it
has no file or no excerpt. The notes all stay, in their order. So it makes no difference whether a
place is named in front of a note or behind it. Without an excerpt the drawing is the wording, a
line with the file if the last place has one, and one line for each note
(`Diagnostic.bareDrawing`).

What a detail does to the place does not depend on the notes, and the other way round. So the
induction goes over the details, the last one split off, and says what the diagnostic is in terms of
the places and the notes among them (`Diagnostic.build_eq`). All else follows from that.
-/

namespace LiteralPool

open Text

/-! ## Details -/

/-- A run of bytes in a source. -/
structure Place where
  source : Source
  span : Span
deriving DecidableEq

/-- The line that holds the first byte of the place, and the position of this byte. -/
def Place.excerpt? (p : Place) : Option Excerpt := p.source.excerpt? p.span.offset

/-- What is told about a fault, besides its cause. -/
inductive Detail
  /-- Where it is. -/
  | place (p : Place)
  /-- What was being read. -/
  | note (text : String)
deriving DecidableEq

namespace Detail

/-- The place, if the detail names one. -/
def place? : Detail → Option Place
  | place p => some p
  | note _ => none

/-- The note, if the detail is one. -/
def note? : Detail → Option String
  | place _ => none
  | note text => some text

/-- The place that is named last. -/
def lastPlace? (details : List Detail) : Option Place := (details.filterMap place?).getLast?

/-- The notes, in the order in which they are made. -/
def notesIn (details : List Detail) : List String := details.filterMap note?

section

variable (details : List Detail) (p : Place) (text : String)

@[simp] theorem lastPlace?_concat_place : lastPlace? (details ++ [place p]) = some p := by
  simp [lastPlace?, place?]

@[simp] theorem lastPlace?_concat_note :
    lastPlace? (details ++ [note text]) = lastPlace? details := by
  simp [lastPlace?, place?]

@[simp] theorem notesIn_concat_place : notesIn (details ++ [place p]) = notesIn details := by
  simp [notesIn, note?]

@[simp] theorem notesIn_concat_note :
    notesIn (details ++ [note text]) = notesIn details ++ [text] := by
  simp [notesIn, note?]

end

/-- A place and then notes. -/
def inOrder (p : Option Place) (texts : List String) : List Detail :=
  p.toList.map place ++ texts.map note

theorem lastPlace?_inOrder (p : Option Place) (texts : List String) :
    lastPlace? (inOrder p texts) = p := by
  have hplace : p.toList.filterMap (place? ∘ place) = p.toList := List.filterMap_some
  have hnotes : texts.filterMap (place? ∘ note) = [] := by simp [place?]
  rw [lastPlace?, inOrder, List.filterMap_append, List.filterMap_map, List.filterMap_map, hplace,
    hnotes, List.append_nil]
  cases p <;> rfl

theorem notesIn_inOrder (p : Option Place) (texts : List String) :
    notesIn (inOrder p texts) = texts := by
  have hplace : p.toList.filterMap (note? ∘ place) = [] := by simp [note?]
  have hnotes : texts.filterMap (note? ∘ note) = texts := List.filterMap_some
  rw [notesIn, inOrder, List.filterMap_append, List.filterMap_map, List.filterMap_map, hplace,
    hnotes, List.nil_append]

end Detail

open Detail

/-! ## What is built of details -/

namespace Diagnostic

/-- Tells one more detail. -/
def tell (d : Diagnostic) : Detail → Diagnostic
  | .place p => d.locate p.source p.span.offset
  | .note text => d.note text

/-- A cause, and details that are told one after the other. -/
def build (cause : Cause) (details : List Detail) : Diagnostic := details.foldl tell (ofCause cause)

variable (cause : Cause)

theorem build_concat (details : List Detail) (detail : Detail) :
    build cause (details ++ [detail]) = (build cause details).tell detail := by
  rw [build, List.foldl_append]
  rfl

/-- The last place says all about the place, and the notes are all there. -/
theorem build_eq (details : List Detail) :
    build cause details = ⟨cause, (lastPlace? details).bind (·.source.file),
      (lastPlace? details).bind Place.excerpt?, notesIn details⟩ := by
  induction details using List.reverseRecOn with
  | nil => rfl
  | append_singleton details detail ih =>
    rw [build_concat, ih]
    cases detail with
    | place p =>
      rw [lastPlace?_concat_place, notesIn_concat_place]
      rfl
    | note text =>
      rw [lastPlace?_concat_note, notesIn_concat_note]
      rfl

/-- Details that end in the same place and make the same notes build the same. -/
theorem build_congr {details details' : List Detail}
    (hplace : lastPlace? details = lastPlace? details')
    (hnotes : notesIn details = notesIn details') : build cause details = build cause details' := by
  rw [build_eq, build_eq, hplace, hnotes]

/-- A place and a note next to each other may be exchanged. -/
theorem build_exchange (before after : List Detail) (p : Place) (text : String) :
    build cause (before ++ .place p :: .note text :: after) =
      build cause (before ++ .note text :: .place p :: after) := by
  apply build_congr
  · rw [lastPlace?, lastPlace?, List.filterMap_append, List.filterMap_append]
    rfl
  · rw [notesIn, notesIn, List.filterMap_append, List.filterMap_append]
    rfl

end Diagnostic

/-- What a source says about a fault is built of the place and the notes of the fault. -/
theorem Source.diagnose_eq_build (s : Source) (f : Fault) :
    s.diagnose f = Diagnostic.build f.cause (inOrder (some ⟨s, ⟨f.offset, 1⟩⟩) f.notes) := by
  rw [diagnose_eq, Diagnostic.build_eq, lastPlace?_inOrder, notesIn_inOrder]
  rfl

/-! ## Drawing without an excerpt -/

namespace Text

/-- The lines of a text with further lines below it. -/
theorem splitOn_below (text : String) {ls : List String} (h : ∀ l ∈ ls, OneLine l) :
    (text ++ below ls).toList.splitOn '\n' =
      text.toList.splitOn '\n' ++ ls.map String.toList := by
  induction ls generalizing text with
  | nil => simp [below]
  | cons l ls ih =>
    obtain ⟨hl, hls⟩ := List.forall_mem_cons.mp h
    have hlist : (text ++ below (l :: ls)).toList =
        text.toList ++ '\n' :: (l ++ below ls).toList := by
      simp [below]
    rw [hlist, splitOn_append_lineFeed, ih l hls, splitOn_of_notMem hl]
    rfl

end Text

namespace Diagnostic

/-- The name of a file that stands without a position. -/
def fileLine (file : String) : String := " --> " ++ file

/-- A note in a drawing without an excerpt, indented if there is a file above it. -/
def noteLine (file : Option String) (text : String) : String :=
  (if file.isSome then " " else "") ++ " = while " ++ text

/-- What is drawn under the wording without an excerpt. -/
def bareDrawing (file : Option String) (notes : List String) : List String :=
  file.toList.map fileLine ++ notes.map (noteLine file)

theorem draw_of_no_excerpt {d : Diagnostic} (h : d.excerpt = none) :
    d.draw = .ok (d.cause.message ++ below (bareDrawing d.file d.notes)) := by
  obtain ⟨cause, file, excerpt, notes⟩ := d
  subst h
  cases file with
  | none =>
    have hnotes : drawNotes "" notes = below (notes.map (noteLine none)) := drawNotes_eq "" notes
    show Except.ok (cause.message ++ drawNotes "" notes) = _
    rw [hnotes]
    rfl
  | some file =>
    have hnotes : drawNotes " " notes = below (notes.map (noteLine (some file))) :=
      drawNotes_eq " " notes
    have hfile : below [fileLine file] = "\n --> " ++ file := by
      rw [← String.toList_inj]
      simp [below, fileLine]
    show Except.ok (cause.message ++ "\n --> " ++ file ++ drawNotes " " notes) =
      .ok (cause.message ++ below ([fileLine file] ++ notes.map (noteLine (some file))))
    rw [hnotes, below_append, hfile]
    simp only [String.append_assoc]

theorem noteLine_injective (file : Option String) : Function.Injective (noteLine file) := by
  intro t t' h
  rw [← String.toList_inj] at h ⊢
  simpa [noteLine] using h

theorem fileLine_ne_noteLine (name : String) (file : Option String) (text : String) :
    fileLine name ≠ noteLine file text := by
  rw [ne_eq, ← String.toList_inj]
  cases file <;> simp [fileLine, noteLine]

/-- There is a line with a file exactly if there is a file. -/
theorem fileLine_mem_bareDrawing {name : String} {file : Option String} {notes : List String} :
    fileLine name ∈ bareDrawing file notes ↔ file = some name := by
  have hnote : fileLine name ∉ notes.map (noteLine file) := by
    rw [List.mem_map]
    rintro ⟨text, -, h⟩
    exact fileLine_ne_noteLine name file text h.symm
  have hinj : ∀ name', fileLine name' = fileLine name ↔ name' = name := by
    intro name'
    rw [← String.toList_inj, ← String.toList_inj]
    simp [fileLine]
  rw [bareDrawing, List.mem_append, or_iff_left hnote, List.mem_map]
  simp [hinj]

/-- There is a line for every note, as often as the note is made. -/
theorem count_noteLine_bareDrawing (file : Option String) (notes : List String) (text : String) :
    (bareDrawing file notes).count (noteLine file text) = notes.count text := by
  have hfile : noteLine file text ∉ file.toList.map fileLine := by
    rw [List.mem_map]
    rintro ⟨name, -, h⟩
    exact fileLine_ne_noteLine name file text h
  rw [bareDrawing, List.count_append, List.count_eq_zero_of_not_mem hfile, Nat.zero_add,
    List.count_map_of_injective _ _ (noteLine_injective file)]

/-- A file and notes without line feeds are drawn without line feeds. -/
theorem oneLine_of_mem_bareDrawing {file : Option String} {notes : List String}
    (hfile : ∀ name ∈ file, OneLine name) (hnotes : ∀ text ∈ notes, OneLine text) :
    ∀ item ∈ bareDrawing file notes, OneLine item := by
  have harrow : OneLine " --> " := by decide
  have hmargin : OneLine ((if file.isSome then " " else "") ++ " = while ") := by
    split_ifs <;> decide
  intro item hitem
  rcases List.mem_append.mp hitem with h | h
  · obtain ⟨name, hname, rfl⟩ := List.mem_map.mp h
    exact oneLine_append.mpr ⟨harrow, hfile name (Option.mem_toList.mp hname)⟩
  · obtain ⟨text, htext, rfl⟩ := List.mem_map.mp h
    exact oneLine_append.mpr ⟨hmargin, hnotes text htext⟩

/-- **Only the last place counts.** Whatever details are told in whatever order, the diagnostic is
the one that is built of the place that is named last, if there is one, and then of the notes in
their order. It has the file of this place and its excerpt, each of which may be missing, and
nothing of a place before. A place and a note next to each other may be exchanged. What a source
says about a fault is such a diagnostic. Without an excerpt it is drawn as its wording, the line
with the file exactly if the last place has one, and a line for each note, as often as the note is
made. -/
theorem last_place_counts (cause : Cause) (details : List Detail) :
    let place := lastPlace? details
    let file := place.bind (·.source.file)
    let notes := notesIn details
    let d := build cause details
    d = build cause (inOrder place notes) ∧
    d = ⟨cause, file, place.bind Place.excerpt?, notes⟩ ∧
    (∀ before after p text, build cause (before ++ .place p :: .note text :: after) =
      build cause (before ++ .note text :: .place p :: after)) ∧
    (∀ (s : Source) (offset : Nat) (texts : List String), s.diagnose ⟨cause, offset, texts⟩ =
      build cause (inOrder (some ⟨s, ⟨offset, 1⟩⟩) texts)) ∧
    (d.position? = none →
      let items := bareDrawing file notes
      d.draw = .ok (cause.message ++ below items) ∧
      (∀ name, fileLine name ∈ items ↔ file = some name) ∧
      (∀ text, items.count (noteLine file text) = notes.count text) ∧
      ((∀ name ∈ file, OneLine name) → (∀ text ∈ notes, OneLine text) →
        (cause.message ++ below items).toList.splitOn '\n' =
          cause.message.toList.splitOn '\n' ++ items.map String.toList)) := by
  intro place file notes d
  have hd : d = ⟨cause, file, place.bind Place.excerpt?, notes⟩ := build_eq cause details
  refine ⟨?_, hd, build_exchange cause, fun s offset texts => s.diagnose_eq_build _,
    fun hposition => ?_⟩
  · apply build_congr
    · exact (lastPlace?_inOrder place notes).symm
    · exact (notesIn_inOrder place notes).symm
  · have hexcerpt : d.excerpt = none := Option.map_eq_none_iff.mp hposition
    refine ⟨?_, fun name => fileLine_mem_bareDrawing, count_noteLine_bareDrawing file notes,
      fun hfile hnotes => splitOn_below _ (oneLine_of_mem_bareDrawing hfile hnotes)⟩
    rw [draw_of_no_excerpt hexcerpt, hd]

/-- A place with an excerpt, behind it one without an excerpt, and behind that one that has no file
either. -/
theorem last_place_counts_without_excerpt :
    let seen : Place := ⟨⟨some "a.txt", "x"⟩, ⟨0, 1⟩⟩
    let beyond : Place := ⟨⟨some "b.txt", "1\n"⟩, ⟨2, 1⟩⟩
    let nowhere : Place := ⟨⟨none, ""⟩, ⟨0, 1⟩⟩
    let details : List Detail := [.place seen, .note "list", .place beyond, .note "file"]
    let text := "unexpected 'x'\n --> b.txt\n  = while list\n  = while file"
    (build (.unexpectedChar 'x') details).position? = none ∧
    (build (.unexpectedChar 'x') details).draw = .ok text ∧
    text.toList.splitOn '\n' =
      ["unexpected 'x'", " --> b.txt", "  = while list", "  = while file"].map String.toList ∧
    (build (.unexpectedChar 'x') (details ++ [.place nowhere])).position? = none ∧
    (build (.unexpectedChar 'x') (details ++ [.place nowhere])).draw =
      .ok "unexpected 'x'\n = while list\n = while file" := by
  intro seen beyond nowhere details text
  have hbeyond : beyond.excerpt? = none := by
    have htext : "1\n".toList = ['1'] ++ '\n' :: [] := rfl
    show excerptFrom 0 2 "1\n".toList = none
    rw [htext, excerptFrom_line 0 2 (by decide), if_neg (by decide), excerptFrom_nil]
  have hnowhere : nowhere.excerpt? = none := excerptFrom_nil 0 0
  obtain ⟨-, hbuild, -, -, hbare⟩ := last_place_counts (.unexpectedChar 'x') details
  obtain ⟨-, hbuild', -, -, hbare'⟩ :=
    last_place_counts (.unexpectedChar 'x') (details ++ [.place nowhere])
  have hposition : (build (.unexpectedChar 'x') details).position? = none := by
    rw [hbuild]
    exact congrArg (Option.map Excerpt.position) hbeyond
  have hposition' :
      (build (.unexpectedChar 'x') (details ++ [.place nowhere])).position? = none := by
    rw [hbuild']
    exact congrArg (Option.map Excerpt.position) hnowhere
  obtain ⟨hdraw, -, -, hlines⟩ := hbare hposition
  refine ⟨hposition, hdraw, ?_, hposition', (hbare' hposition').1⟩
  exact hlines (by decide) (by decide)

end Diagnostic

end LiteralPool
