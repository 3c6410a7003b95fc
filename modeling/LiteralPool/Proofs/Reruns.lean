import Mathlib
import LiteralPool.Proofs.Runs

/-!
# Running again

**Theorem (`rerun_changes_nothing`).** Run the command again with the same arguments on the files
that a successful run has left: it succeeds, prints the same, and leaves every file as it is. So it
is in the environment of the first run, and in any other one as far as the texts of the run itself
go; what is reported in between is up to each environment.

The first run changes what the second one looks at. Where its output path led nowhere before, it
now leads to the output; so the check that it does not lead to the input, which had nothing to
compare, now compares two files. They are different: a file that stands where the output is named
is one that the first check has seen (`Reads.exists_input`).

Files are *settled* for a list of literals if the literals are read from them and the output is
there as it would be written (`Options.Settled`). A run on settled files changes nothing
(`Settled.run_eq`), and the files that a run leaves are settled (`Reads.settled`). The plan of the
second run is that of the first, as the input has kept its bytes (`Reads.planFor_congr`).
-/

namespace LiteralPool

namespace Options

variable {o : Options} {files files' : FileSystem} {literals : List Literal}

/-- The literals are read from the files, and to write their output changes nothing. -/
structure Settled (o : Options) (files : FileSystem) (literals : List Literal) : Prop where
  reads : o.Reads files literals
  created : files.create? o.outputPath (o.assembly literals).toUTF8 = some files

/-- A run on settled files leaves them as they are. -/
theorem Settled.run_eq (h : o.Settled files literals) {arguments : List String}
    (ho : ofArguments arguments = .ok o) (e : Environment) :
    World.run files arguments e = (.exit 0, { World.planned o e files with files }) :=
  World.run_of_create ho e h.reads h.created

/-- In settled files the output is a file of its own. -/
theorem Settled.exists_output (h : o.Settled files literals) :
    ∃ input output, files.locate? o.file = some input ∧
      files.locate? o.outputPath = some output ∧ input ≠ output := by
  obtain ⟨target, htarget, -⟩ := Option.map_eq_some_iff.mp h.created
  obtain ⟨location, name, hnames, -⟩ := FileSystem.target?_eq_some_iff.mp htarget
  obtain ⟨files', hcreate, -, hkind⟩ := hnames.create? (o.assembly literals).toUTF8
  obtain rfl : files = files' := Option.some.inj (h.created.symm.trans hcreate)
  obtain ⟨input, -, hinput, -, hne⟩ := h.reads.exists_input hnames
  have hstands : (files.kindAt? (location ++ [name])).isSome := by simp [hkind]
  exact ⟨input, location ++ [name], hinput, hnames.locate?_of_isSome hstands, hne⟩

/-- What a creation of the output changes does not change what is read: the input has its bytes,
and the output path is accepted, though now it leads to the output. -/
theorem Reads.of_created (h : o.Reads files literals) {location : Location} {name : String}
    (hnames : files.Names o.outputPath location name)
    (hnames' : files'.Names o.outputPath location name) (hways : files.KeepsWays files')
    (hstands : (files'.kindAt? (location ++ [name])).isSome)
    (hkind : ∀ other, other ≠ location ++ [name] → files'.kindAt? other = files.kindAt? other) :
    o.Reads files' literals := by
  constructor
  · obtain ⟨hcomponents, -, -⟩ := Path.checkOutput_eq_ok_iff.mp h.accepted
    refine Path.checkOutput_eq_ok_iff.mpr ⟨hcomponents, ?_, rfl⟩
    rw [← Bool.not_eq_true, FileSystem.sameFile_eq_true_iff]
    rintro ⟨place, hfile, houtput⟩
    -- The input leads where it led, and the output path to the output.
    obtain ⟨input, bytes, hinput, -, hne⟩ := h.exists_input hnames
    have hplace : input = place := Option.some.inj ((hways.locate? hinput).symm.trans hfile)
    have hplace' : location ++ [name] = place :=
      Option.some.inj ((hnames'.locate?_of_isSome hstands).symm.trans houtput)
    exact hne (hplace.trans hplace'.symm)
  · obtain ⟨text, htext, hliterals⟩ := h.literals
    refine ⟨text, ?_, hliterals⟩
    rw [FileSystem.read?, h.bytes?_eq hnames hways hkind]
    exact htext

/-- The files that a run leaves behind its output are settled. -/
theorem Reads.settled (h : o.Reads files literals)
    (hcreate : files.create? o.outputPath (o.assembly literals).toUTF8 = some files') :
    o.Settled files' literals := by
  obtain ⟨target, htarget, -⟩ := Option.map_eq_some_iff.mp hcreate
  obtain ⟨location, name, hnames, -⟩ := FileSystem.target?_eq_some_iff.mp htarget
  obtain ⟨files'', hcreate', hways, hkind⟩ := hnames.create? (o.assembly literals).toUTF8
  obtain rfl : files' = files'' := Option.some.inj (hcreate.symm.trans hcreate')
  have hplace : files'.kindAt? (location ++ [name]) =
      some (.file (o.assembly literals).toUTF8) := by
    rw [hkind, if_pos rfl]
  have hnames' : files'.Names o.outputPath location name := hnames.keep hways (by simp [hplace])
  constructor
  · refine h.of_created hnames hnames' hways (by simp [hplace]) fun other hother => ?_
    rw [hkind, if_neg hother]
  · exact hnames'.create?_of_kindAt? hplace

/-- The same is planned where the same literals are read from the same bytes. -/
theorem Reads.planFor_congr (h : o.Reads files literals) (h' : o.Reads files' literals)
    (hbytes : files'.bytes? o.file = files.bytes? o.file) : o.planFor files' = o.planFor files := by
  rw [planFor, planFor, FileSystem.read?, FileSystem.read?, hbytes, h.sameFile_eq_false,
    h'.sameFile_eq_false]

end Options

namespace World

/-- What is brought out does not depend on the files. -/
theorem foldl_bringOut_with_files (e : Environment) (outputs : List Output) (w : World)
    (files : FileSystem) :
    outputs.foldl (bringOut e) { w with files } =
      { outputs.foldl (bringOut e) w with files } := by
  induction outputs generalizing w with
  | nil => rfl
  | cons x outputs ih =>
    have hx : bringOut e { w with files } x = { bringOut e w x with files } := by
      cases x with
      | text text => rfl
      | event event =>
        obtain ⟨-, chunks, complaints, filter⟩ := w
        cases filter with
        | none => rfl
        | some filter => rfl
    rw [List.foldl_cons, List.foldl_cons, hx, ih]

/-- The world behind a plan depends on the files only through the plan. -/
theorem planned_congr {o : Options} {files files' : FileSystem} (e : Environment)
    (h : o.planFor files' = o.planFor files) :
    planned o e files' = { planned o e files with files := files' } := by
  rw [planned, planned, h, ← foldl_bringOut_with_files]
  rfl

end World

/-- **Running again changes nothing.** Take a run whose arguments are options and that exits with 0.
A second run with the same arguments, on the files that the first one leaves, exits with 0, prints
what the first one printed, and leaves the files as they are. In another environment it also exits
with 0, leaves the files as they are, and complains of nothing but the filter of the environment; it
prints the same but for what is reported, so exactly the same if both environments are silent. The
output path is accepted again, though it leads to a file now, which is not the input. -/
theorem rerun_changes_nothing (e : Environment) (files : FileSystem) (arguments : List String)
    (o : Options) (h : Options.ofArguments arguments = .ok o) (world : World)
    (hrun : World.run files arguments e = (.exit 0, world)) :
    World.run world.files arguments e = (.exit 0, world) ∧
      (∀ e', ∃ again, World.run world.files arguments e' = (.exit 0, again) ∧
        again.files = world.files ∧ again.own = world.own ∧ again.complaints = e'.complaints ∧
        (e.Silent → e'.Silent → again.printed = world.printed)) ∧
      files.outputPath o.file o.output = .ok o.outputPath ∧
      world.files.outputPath o.file o.output = .ok o.outputPath ∧
      ∃ input output, world.files.locate? o.file = some input ∧
        world.files.locate? o.outputPath = some output ∧ input ≠ output := by
  have houtcome := World.outcome_run h e files
  rw [hrun] at houtcome
  have hbytes : world.files.bytes? o.file = files.bytes? o.file := houtcome.bytes?_eq
  cases houtcome with
  | stopped _ hending => exact absurd rfl hending
  | uncreated _ _ hending => exact absurd rfl hending
  | @created literals _ hreads hcreate hshows =>
    have hsettled : o.Settled world.files literals := hreads.settled hcreate
    have hworld : world = { World.planned o e files with files := world.files } :=
      (Prod.mk.inj (hrun.symm.trans (World.run_of_create h e hreads hcreate))).2
    refine ⟨?_, fun e' => ?_, hreads.accepted, hsettled.reads.accepted, hsettled.exists_output⟩
    · rw [hsettled.run_eq h, World.planned_congr e (hreads.planFor_congr hsettled.reads hbytes)]
      exact congrArg (Prod.mk _) hworld.symm
    · obtain ⟨-, hcomplaints, hagain⟩ := World.planned_spec o e' world.files
      rw [hsettled.reads.planFor_spec.2] at hagain
      refine ⟨_, hsettled.run_eq h e', rfl, hagain.own.trans hshows.own.symm, hcomplaints, ?_⟩
      intro hsilent hsilent'
      exact (hagain.printed hsilent').trans (hshows.printed hsilent).symm

/-- The output is named by a way up and down again, which leads nowhere before the first run and to
the output before the second. A run follows that is asked for its events, but lets none pass. -/
theorem rerun_through_parent :
    let arguments := ["-o", "../d//./b", "../a", "-l"]
    let world := (World.run .integerAbove arguments).2
    FileSystem.integerAbove.locate? ⟨"../d//./b"⟩ = none ∧
    world.printed = "1 -> const_2\n" ∧
    world.files.outputPath ⟨"../a"⟩ (some ⟨"../d//./b"⟩) = .ok ⟨"../d//./b"⟩ ∧
    (∃ output, world.files.locate? ⟨"../d//./b"⟩ = some output) ∧
    World.run world.files arguments = (.exit 0, world) ∧
    ∃ again, World.run world.files arguments ⟨some "off", ⟨fun _ => "", fun _ _ _ => ""⟩⟩ =
      (.exit 0, again) ∧ again.files = world.files ∧ again.printed = "1 -> const_2\n" := by
  intro arguments world
  have ho : Options.ofArguments arguments =
      .ok ⟨⟨"../a"⟩, some ⟨"../d//./b"⟩, true⟩ := by decide
  have hliterals : Source.literals ⟨some "../a", "1"⟩ = .ok [.value (.int 1)] := by
    refine Source.literals_eq_ok_iff.mpr ?_
    rw [Source.read_eq, Cursor.read_of_token (t := ⟨.value (.int 1), ⟨0, 1⟩, "1"⟩) rfl,
      Cursor.read_of_end rfl]
    exact ⟨rfl, rfl⟩
  have hreads : Options.Reads ⟨⟨"../a"⟩, some ⟨"../d//./b"⟩, true⟩ .integerAbove
      [.value (.int 1)] := ⟨by decide, "1", by decide, hliterals⟩
  have htarget : FileSystem.target? .integerAbove ⟨"../d//./b"⟩ = some ["d", "b"] := by decide
  obtain ⟨location, name, hnames, -⟩ := FileSystem.target?_eq_some_iff.mp htarget
  obtain ⟨files', hcreate, -⟩ := hnames.create? (Options.assembly
    ⟨⟨"../a"⟩, some ⟨"../d//./b"⟩, true⟩ [.value (.int 1)]).toUTF8
  have hending : (World.run .integerAbove arguments).1 = .exit 0 := by
    rw [World.run_of_create ho .plain hreads hcreate]
  have hrun : World.run .integerAbove arguments = (.exit 0, world) := Prod.ext hending rfl
  obtain ⟨hagain, hother, -, haccepted, -, output, -, houtput, -⟩ :=
    rerun_changes_nothing .plain .integerAbove arguments _ ho world hrun
  have hshows : world.Shows .plain (Pool.empty.list [.value (.int 1)]).text :=
    (World.outcome_run ho .plain .integerAbove).shows_listing hreads
  have hlisting : (Pool.empty.list [.value (.int 1)]).text = "1 -> const_2\n" := by decide
  rw [hlisting] at hshows
  have hprinted : world.printed = "1 -> const_2\n" :=
    hshows.printed (Environment.silent_of_filter rfl)
  refine ⟨by decide, hprinted, haccepted, ⟨output, houtput⟩, hagain, ?_⟩
  obtain ⟨again, hrun', hfiles, -, -, hsilent⟩ :=
    hother ⟨some "off", ⟨fun _ => "", fun _ _ _ => ""⟩⟩
  refine ⟨again, hrun', hfiles, ?_⟩
  rw [hsilent (Environment.silent_of_filter rfl) fun _ _ _ _ => rfl, hprinted]

end LiteralPool
