import LiteralPool.Proofs.Directives
import LiteralPool.Proofs.Events
import LiteralPool.Proofs.OutputPaths
import LiteralPool.Run

/-!
# What a run touches

**Theorem (`run_touches_output_only`).** A run that fails leaves the file system as it was. A run
that succeeds creates or replaces one file, the output, and leaves everything else as it was. The
input keeps its bytes in any case. The listing is printed as soon as the literals were read, whether
the output can be created or not. In an environment that asks for the events of the run all this
stays as it is, but the standard output also holds what the subscriber prints for them; if that is
nothing (`Environment.Silent`), the run has the standard output to itself.

A run with given options has one of three outcomes (`Options.Outcome`): it stops before its literals
are read, or it reads them (`Options.Reads`) and cannot create the output, or it creates the output.
What is printed is followed along the outputs of the plan (`World.Shows`): each of them adds the
text that it is.

That the output is not the input rests on the check of the output path: where a file is to be
created and one stands already, the path leads to that file, so the check has seen where it leads
(`FileSystem.Names.ne_of_sameFile`).
-/

namespace LiteralPool

open Output (ownText)

/-! ## What is read and what is written -/

namespace Options

variable {o : Options} {files : FileSystem} {literals : List Literal}

/-- With these files, options read these literals: the input can be read, the output does not go
to the input, and the input is well-formed. -/
structure Reads (o : Options) (files : FileSystem) (literals : List Literal) : Prop where
  accepted : files.outputPath o.file o.output = .ok o.outputPath
  literals : ∃ text, files.read? o.file = some text ∧
    Source.literals ⟨some o.file.text, text⟩ = .ok literals

/-- What the output holds for these literals. -/
def assembly (o : Options) (literals : List Literal) : String :=
  "# constants of " ++ o.file.text ++ "\n" ++ (Pool.empty.list literals).pool.dataSection.text

theorem result_planLiterals (o : Options) (output : Path) (es : List Event)
    (literals : List Literal) :
    (o.planLiterals output es literals).result = .ok ⟨output, o.assembly literals⟩ := by
  have hcomment : (Line.comment ("constants of " ++ o.file.text)).text =
      "# constants of " ++ o.file.text := by
    show "# " ++ ("constants of " ++ o.file.text) = _
    rw [← String.append_assoc]
    rfl
  rw [planLiterals, pool_pooling, Pool.assembly, Assembly.text_cons, hcomment]
  rfl

/-- The plan for the input and the output that are found. -/
def planFor (o : Options) (files : FileSystem) : Plan :=
  o.plan (files.read? o.file) (files.sameFile o.file o.outputPath)

/-- For literals that are read, the output is to be created behind the listing. -/
theorem Reads.planFor_spec (h : o.Reads files literals) :
    (o.planFor files).result = .ok ⟨o.outputPath, o.assembly literals⟩ ∧
      ownText (o.planFor files).outputs = o.listing literals := by
  obtain ⟨text, htext, hliterals⟩ := h.literals
  have haccepted : o.file.checkOutput o.outputPath (files.sameFile o.file o.outputPath) =
      .ok o.outputPath := h.accepted
  rw [planFor, htext]
  simp only [plan, haccepted, hliterals]
  exact ⟨o.result_planLiterals .., o.ownText_planLiterals ..⟩

/-- If no literals are read, no file is to be created, and no text is to be printed. -/
theorem planFor_of_not_reads (h : ∀ literals, ¬ o.Reads files literals) :
    (∃ failure, (o.planFor files).result = .error failure) ∧
      ownText (o.planFor files).outputs = "" := by
  unfold planFor plan
  split
  · exact ⟨⟨_, rfl⟩, rfl⟩
  · next text htext =>
    split
    · exact ⟨⟨_, rfl⟩, rfl⟩
    · next output houtput =>
      obtain ⟨-, -, rfl⟩ := Path.checkOutput_eq_ok_iff.mp houtput
      dsimp only
      split
      · exact ⟨⟨_, rfl⟩, Output.ownText_events _⟩
      · next literals hliterals => exact absurd ⟨houtput, text, htext, hliterals⟩ (h literals)

end Options

/-! ## What is printed -/

/-- An environment is silent if it does not ask for events. -/
theorem Environment.silent_of_filter {e : Environment} (h : e.filter = none) : e.Silent := by
  intro filter hfilter
  rw [h] at hfilter
  cases hfilter

namespace World

variable {e : Environment} {w : World}

theorem own_print (w : World) (text : String) : (w.print text).own = w.own ++ text := by
  simp [own, print]

theorem printed_print (w : World) (text : String) :
    (w.print text).printed = w.printed ++ text := by
  simp [printed, print]

/-- What is printed for an event is not printed by the run itself. -/
theorem own_notify (e : Environment) (w : World) (event : Event) :
    (w.notify e event).own = w.own := by
  unfold notify
  split
  · simp [own]
  · rfl

theorem printed_notify (hsilent : e.Silent) (hfilter : w.filter = e.filter) (event : Event) :
    (w.notify e event).printed = w.printed := by
  unfold notify
  split
  · next filter hsome =>
    simp [printed, hsilent filter (hfilter.symm.trans hsome)]
  · rfl

/-- The run itself has printed a text, and nothing else was printed if the environment is silent. -/
structure Shows (e : Environment) (w : World) (text : String) : Prop where
  own : w.own = text
  printed : e.Silent → w.printed = text

/-- Brings out a text or an event. -/
def bringOut (e : Environment) (w : World) : Output → World
  | .text text => w.print text
  | .event event => w.notify e event

/-- To bring something out changes nothing but what was printed. -/
theorem bringOut_spec (e : Environment) (w : World) (x : Output) :
    (w.bringOut e x).files = w.files ∧ (w.bringOut e x).complaints = w.complaints ∧
      (w.bringOut e x).filter = w.filter := by
  cases x with
  | text text => exact ⟨rfl, rfl, rfl⟩
  | event event =>
    rw [bringOut]
    unfold notify
    split <;> exact ⟨rfl, rfl, rfl⟩

/-- What is brought out adds the text that it is to what the run itself has printed. -/
theorem Shows.bringOut {text : String} (h : w.Shows e text) (hfilter : w.filter = e.filter)
    (x : Output) : (w.bringOut e x).Shows e (text ++ x.own) := by
  cases x with
  | text more =>
    constructor
    · rw [World.bringOut, own_print, h.own, Output.own]
    · intro hsilent
      rw [World.bringOut, printed_print, h.printed hsilent, Output.own]
  | event event =>
    constructor
    · rw [World.bringOut, own_notify, h.own, Output.own, String.append_empty]
    · intro hsilent
      rw [World.bringOut, printed_notify hsilent hfilter, h.printed hsilent, Output.own,
        String.append_empty]

/-- What a host in a file system brings out is brought out one after the other. -/
theorem forM_bringOut (e : Environment) (outputs : List Output) (w : World) :
    (outputs.forM (host e).bringOut).run w = ((), outputs.foldl (bringOut e) w) := by
  induction outputs generalizing w with
  | nil => rfl
  | cons x outputs ih =>
    have hx : ((host e).bringOut x).run w = ((), w.bringOut e x) := by cases x <;> rfl
    rw [List.forM_eq_forM, List.forM_cons, StateT.run_bind, hx]
    exact ih _

theorem foldl_bringOut_spec (e : Environment) (outputs : List Output) (w : World) :
    (outputs.foldl (bringOut e) w).files = w.files ∧
      (outputs.foldl (bringOut e) w).complaints = w.complaints := by
  induction outputs generalizing w with
  | nil => exact ⟨rfl, rfl⟩
  | cons x outputs ih =>
    obtain ⟨hfiles, hcomplaints, -⟩ := w.bringOut_spec e x
    rw [List.foldl_cons, (ih _).1, (ih _).2, hfiles, hcomplaints]
    exact ⟨rfl, rfl⟩

/-- Outputs add their texts to what the run itself has printed. -/
theorem Shows.foldl {text : String} (h : w.Shows e text) (hfilter : w.filter = e.filter)
    (outputs : List Output) :
    (outputs.foldl (World.bringOut e) w).Shows e (text ++ ownText outputs) := by
  induction outputs generalizing w text with
  | nil => simpa [ownText] using h
  | cons x outputs ih =>
    obtain ⟨-, -, hkept⟩ := w.bringOut_spec e x
    have htail := ih (h.bringOut hfilter x) (hkept.trans hfilter)
    rwa [String.append_assoc, ← Output.ownText_cons] at htail

end World

/-! ## Runs in a file system -/

/-- What a run with these options can come to. -/
inductive Options.Outcome (o : Options) (files : FileSystem) (e : Environment) :
    Ending → World → Prop
  /-- Its literals are not read. -/
  | stopped {ending : Ending} {world : World} : (∀ literals, ¬ o.Reads files literals) →
      ending ≠ .exit 0 → world.files = files → world.Shows e "" → Outcome o files e ending world
  /-- The output cannot be created. -/
  | uncreated {literals : List Literal} {ending : Ending} {world : World} :
      o.Reads files literals → files.target? o.outputPath = none → ending ≠ .exit 0 →
      world.files = files → world.Shows e (o.listing literals) → Outcome o files e ending world
  /-- The output is created. -/
  | created {literals : List Literal} {world : World} :
      o.Reads files literals →
      files.create? o.outputPath (o.assembly literals).toUTF8 = some world.files →
      world.Shows e (o.listing literals) → Outcome o files e (.exit 0) world

namespace World

variable {o : Options} {files : FileSystem} {arguments : List String}

/-- The world in which a run listens to its events. -/
def listening (e : Environment) (files : FileSystem) : World := ⟨files, [], e.complaints, e.filter⟩

theorem shows_listening (e : Environment) (files : FileSystem) :
    (listening e files).Shows e "" := ⟨rfl, fun _ => rfl⟩

theorem listen_eq (e : Environment) (files : FileSystem) :
    (host e).listen.run (ofFiles files) = ((), listening e files) := by
  obtain ⟨filter, subscriber⟩ := e
  cases filter with
  | none => rfl
  | some filter =>
    show ((), (ofFiles files).subscribe _ filter) = _
    simp [subscribe, complain, ofFiles, listening, Environment.complaints]

/-- The world behind the outputs of a plan. -/
def planned (o : Options) (e : Environment) (files : FileSystem) : World :=
  (o.planFor files).outputs.foldl (bringOut e) (listening e files)

theorem planned_spec (o : Options) (e : Environment) (files : FileSystem) :
    (planned o e files).files = files ∧ (planned o e files).complaints = e.complaints ∧
      (planned o e files).Shows e (ownText (o.planFor files).outputs) := by
  obtain ⟨hfiles, hcomplaints⟩ :=
    foldl_bringOut_spec e (o.planFor files).outputs (listening e files)
  have hshows := (shows_listening e files).foldl rfl (o.planFor files).outputs
  rw [String.empty_append] at hshows
  exact ⟨hfiles, hcomplaints, hshows⟩

/-- A run brings out what is planned for the files that it finds, and then creates the file that is
planned, if there is one. -/
theorem perform_eq (o : Options) (e : Environment) (files : FileSystem) :
    ((host e).perform o).run (ofFiles files) =
      match (o.planFor files).result with
      | .error failure => (.error failure, planned o e files)
      | .ok file =>
        match files.create? file.path file.contents.toUTF8 with
        | some files' => (.ok (), { planned o e files with files := files' })
        | none => (.error (.uncreatable file.path), planned o e files) := by
  have hcarry : ((host e).perform o).run (ofFiles files) =
      ((host e).carryOut (o.planFor files)).run (listening e files) := by
    rw [Host.perform, StateT.run_bind, listen_eq]
    rfl
  rw [hcarry, Host.carryOut, StateT.run_bind, forM_bringOut, ← planned]
  cases (o.planFor files).result with
  | error failure => rfl
  | ok file =>
    show (match (planned o e files).create file.path file.contents with
      | (created, w) => (if created = true then pure (.ok ())
          else pure (.error (.uncreatable file.path)) : StateM World (Except Failure Unit)) w) = _
    rw [World.create, (planned_spec o e files).1]
    dsimp only
    cases files.create? file.path file.contents.toUTF8 with
    | some files' => rfl
    | none => rfl

/-- A success is reported with exit code 0. -/
theorem report_ok (e : Environment) (w : World) :
    ((host e).report (.ok ())).run w = (.exit 0, w) := rfl

/-- A failure is reported with another exit code, and with nothing but complaints. -/
theorem report_error (e : Environment) (failure : Failure) (w : World) :
    ∃ ending complaints, ((host e).report (.error failure)).run w =
      (ending, { w with complaints }) ∧ ending ≠ .exit 0 := by
  rw [Host.report]
  cases failure.message with
  | ok message => exact ⟨.exit 1, _, rfl, by decide⟩
  | error e => exact ⟨.crash e, _, rfl, Ending.noConfusion⟩

theorem run_of_options (h : Options.ofArguments arguments = .ok o) (e : Environment)
    (files : FileSystem) :
    World.run files arguments e =
      ((host e).report (((host e).perform o).run (ofFiles files)).1).run
        (((host e).perform o).run (ofFiles files)).2 := by
  rw [World.run, Host.run, h]
  rfl

/-- A run that reads its literals and can create its output does so. -/
theorem run_of_create (h : Options.ofArguments arguments = .ok o) (e : Environment)
    {files' : FileSystem} {literals : List Literal} (hreads : o.Reads files literals)
    (hcreate : files.create? o.outputPath (o.assembly literals).toUTF8 = some files') :
    World.run files arguments e = (.exit 0, { planned o e files with files := files' }) := by
  rw [run_of_options h, perform_eq, hreads.planFor_spec.1]
  dsimp only
  rw [hcreate, report_ok]

/-- A run with options has one of the outcomes. -/
theorem outcome_run (h : Options.ofArguments arguments = .ok o) (e : Environment)
    (files : FileSystem) :
    o.Outcome files e (World.run files arguments e).1 (World.run files arguments e).2 := by
  obtain ⟨hfiles, -, hshows⟩ := planned_spec o e files
  by_cases hreads : ∃ literals, o.Reads files literals
  · obtain ⟨literals, hreads⟩ := hreads
    obtain ⟨hresult, hown⟩ := hreads.planFor_spec
    rw [hown] at hshows
    cases hcreate : files.create? o.outputPath (o.assembly literals).toUTF8 with
    | some created =>
      rw [run_of_create h e hreads hcreate]
      exact .created hreads hcreate ⟨hshows.own, hshows.printed⟩
    | none =>
      obtain ⟨ending, complaints, hreport, hending⟩ :=
        report_error e (.uncreatable o.outputPath) (planned o e files)
      have hrun : World.run files arguments e =
          (ending, { planned o e files with complaints }) := by
        rw [run_of_options h, perform_eq, hresult]
        dsimp only
        rw [hcreate, hreport]
      rw [hrun]
      exact .uncreated hreads (Option.map_eq_none_iff.mp hcreate) hending hfiles
        ⟨hshows.own, hshows.printed⟩
  · obtain ⟨⟨failure, hresult⟩, hown⟩ := Options.planFor_of_not_reads (not_exists.mp hreads)
    rw [hown] at hshows
    obtain ⟨ending, complaints, hreport, hending⟩ := report_error e failure (planned o e files)
    rw [run_of_options h, perform_eq, hresult, hreport]
    exact .stopped (not_exists.mp hreads) hending hfiles ⟨hshows.own, hshows.printed⟩

end World

/-! ## The output is not the input -/

namespace Options.Reads

variable {o : Options} {files : FileSystem} {literals : List Literal}

theorem sameFile_eq_false (h : o.Reads files literals) :
    files.sameFile o.file o.outputPath = false :=
  (Path.checkOutput_eq_ok_iff.mp h.accepted).2.1

/-- The input is a file, and it does not stand where the output is to stand: the check of the output
path has seen a file that stands there. -/
theorem exists_input (h : o.Reads files literals) {location : Location} {name : String}
    (hnames : files.Names o.outputPath location name) :
    ∃ input bytes, files.locate? o.file = some input ∧
      files.kindAt? input = some (.file bytes) ∧ input ≠ location ++ [name] := by
  obtain ⟨text, htext, -⟩ := h.literals
  obtain ⟨bytes, hbytes, -⟩ := Option.bind_eq_some_iff.mp htext
  obtain ⟨input, hinput, hfile⟩ := Option.bind_eq_some_iff.mp hbytes
  have hstands := FileSystem.fileAt?_eq_some_iff.mp hfile
  exact ⟨input, bytes, hinput, hstands, hnames.ne_of_sameFile h.sameFile_eq_false hinput⟩

/-- The input keeps its bytes if nothing else than the output changes. -/
theorem bytes?_eq (h : o.Reads files literals) {location : Location} {name : String}
    (hnames : files.Names o.outputPath location name) {files' : FileSystem}
    (hways : files.KeepsWays files')
    (hkind : ∀ other, other ≠ location ++ [name] → files'.kindAt? other = files.kindAt? other) :
    files'.bytes? o.file = files.bytes? o.file := by
  obtain ⟨input, bytes, hinput, hstands, hne⟩ := h.exists_input hnames
  have hfile : files.fileAt? input = some bytes := FileSystem.fileAt?_eq_some_iff.mpr hstands
  have hfile' : files'.fileAt? input = some bytes :=
    FileSystem.fileAt?_eq_some_iff.mpr ((hkind input hne).trans hstands)
  rw [FileSystem.bytes?, FileSystem.bytes?, hways.locate? hinput, hinput, Option.bind_some,
    Option.bind_some, hfile, hfile']

end Options.Reads

/-- Only one list of literals is read. -/
theorem Options.Reads.unique {o : Options} {files : FileSystem} {literals literals' : List Literal}
    (h : o.Reads files literals) (h' : o.Reads files literals') : literals = literals' := by
  obtain ⟨text, htext, hliterals⟩ := h.literals
  obtain ⟨text', htext', hliterals'⟩ := h'.literals
  obtain rfl : text = text' := Option.some.inj (htext.symm.trans htext')
  exact Except.ok.inj (hliterals.symm.trans hliterals')

/-! ## What the outcomes have in common -/

namespace Options.Outcome

variable {o : Options} {files : FileSystem} {e : Environment} {ending : Ending} {world : World}

theorem exit_iff (h : o.Outcome files e ending world) :
    ending = .exit 0 ↔
      (∃ literals, o.Reads files literals) ∧ (files.target? o.outputPath).isSome := by
  cases h with
  | stopped hnone hending =>
    refine ⟨fun hexit => absurd hexit hending, ?_⟩
    rintro ⟨⟨literals, hreads⟩, -⟩
    exact absurd hreads (hnone literals)
  | uncreated _ htarget hending =>
    refine ⟨fun hexit => absurd hexit hending, ?_⟩
    rintro ⟨-, hsome⟩
    rw [htarget] at hsome
    cases hsome
  | created hreads hcreate =>
    obtain ⟨location, htarget, -⟩ := Option.map_eq_some_iff.mp hcreate
    exact ⟨fun _ => ⟨⟨_, hreads⟩, by rw [htarget]; rfl⟩, fun _ => rfl⟩

theorem files_eq (h : o.Outcome files e ending world) (hending : ending ≠ .exit 0) :
    world.files = files := by
  cases h with
  | stopped _ _ hfiles => exact hfiles
  | uncreated _ _ _ hfiles => exact hfiles
  | created => exact absurd rfl hending

/-- A run that succeeds has created the file that its output path names. -/
theorem exists_created (h : o.Outcome files e ending world) (hending : ending = .exit 0) :
    ∃ literals location name, o.Reads files literals ∧
      files.Names o.outputPath location name ∧ files.KeepsWays world.files ∧
      ∀ other, world.files.kindAt? other =
        if other = location ++ [name] then some (.file (o.assembly literals).toUTF8)
        else files.kindAt? other := by
  cases h with
  | stopped _ hexit => exact absurd hending hexit
  | uncreated _ _ hexit => exact absurd hending hexit
  | @created literals world hreads hcreate =>
    obtain ⟨location, name, hnames, hways, hkind⟩ := FileSystem.exists_names_of_create? hcreate
    exact ⟨literals, location, name, hreads, hnames, hways, hkind⟩

theorem bytes?_eq (h : o.Outcome files e ending world) :
    world.files.bytes? o.file = files.bytes? o.file := by
  by_cases hending : ending = .exit 0
  · obtain ⟨literals, location, name, hreads, hnames, hways, hkind⟩ := h.exists_created hending
    refine hreads.bytes?_eq hnames hways fun other hother => ?_
    rw [hkind, if_neg hother]
  · rw [h.files_eq hending]

theorem shows_listing (h : o.Outcome files e ending world) {literals : List Literal}
    (hreads : o.Reads files literals) : world.Shows e (o.listing literals) := by
  cases h with
  | stopped hnone => exact absurd hreads (hnone literals)
  | uncreated hreads' _ _ _ hshows =>
    rw [hreads.unique hreads']
    exact hshows
  | created hreads' _ hshows =>
    rw [hreads.unique hreads']
    exact hshows

theorem shows_empty (h : o.Outcome files e ending world)
    (hnone : ∀ literals, ¬ o.Reads files literals) : world.Shows e "" := by
  cases h with
  | stopped _ _ _ hshows => exact hshows
  | uncreated hreads => exact absurd hreads (hnone _)
  | created hreads => exact absurd hreads (hnone _)

theorem exists_shows (h : o.Outcome files e ending world) : ∃ text, world.Shows e text := by
  cases h with
  | stopped _ _ _ hshows => exact ⟨_, hshows⟩
  | uncreated _ _ _ _ hshows => exact ⟨_, hshows⟩
  | created _ _ hshows => exact ⟨_, hshows⟩

theorem printed_eq_own (h : o.Outcome files e ending world) (hsilent : e.Silent) :
    world.printed = world.own := by
  obtain ⟨text, hshows⟩ := h.exists_shows
  rw [hshows.printed hsilent, hshows.own]

end Options.Outcome

/-- **A run touches nothing but its output.** Take a run whose arguments are options, in any
environment. It exits with 0 if and only if its literals are read and the output path names a place
for a file. If it does not exit with 0, the file system is as it was. If it does, a file stands
where the output path leads, which holds a comment with the input's name and the data section of
the literals, and everywhere else stands what stood there. In any case the input has the bytes that
it had, and what the run itself prints is the listing if literals were read and it was asked for,
and nothing otherwise. Nothing else is printed if the environment is silent. -/
theorem run_touches_output_only (e : Environment) (files : FileSystem) (arguments : List String)
    (o : Options) (h : Options.ofArguments arguments = .ok o) :
    ∀ ending world, World.run files arguments e = (ending, world) →
      (ending = .exit 0 ↔
        (∃ literals, o.Reads files literals) ∧ (files.target? o.outputPath).isSome) ∧
      (ending ≠ .exit 0 → world.files = files) ∧
      (ending = .exit 0 → ∃ literals location, o.Reads files literals ∧
        files.target? o.outputPath = some location ∧
        world.files.locate? o.outputPath = some location ∧
        world.files.current = files.current ∧
        ∀ other, world.files.kindAt? other =
          if other = location then
            some (.file ("# constants of " ++ o.file.text ++ "\n" ++
              (Pool.empty.list literals).pool.dataSection.text).toUTF8)
          else files.kindAt? other) ∧
      world.files.bytes? o.file = files.bytes? o.file ∧
      (∀ literals, o.Reads files literals →
        world.own = if o.labels then (Pool.empty.list literals).text else "") ∧
      ((∀ literals, ¬ o.Reads files literals) → world.own = "") ∧
      (e.Silent → world.printed = world.own) := by
  intro ending world hrun
  have houtcome : o.Outcome files e ending world := by
    have hrun' := World.outcome_run h e files
    rwa [hrun] at hrun'
  refine ⟨houtcome.exit_iff, houtcome.files_eq, fun hending => ?_, houtcome.bytes?_eq,
    fun literals hreads => (houtcome.shows_listing hreads).own,
    fun hnone => (houtcome.shows_empty hnone).own, houtcome.printed_eq_own⟩
  obtain ⟨literals, location, name, hreads, hnames, hways, hkind⟩ :=
    houtcome.exists_created hending
  have hplace : world.files.kindAt? (location ++ [name]) =
      some (.file (o.assembly literals).toUTF8) := by
    rw [hkind, if_pos rfl]
  have hnames' : world.files.Names o.outputPath location name :=
    hnames.keep hways (by simp [hplace])
  have hleads : world.files.locate? o.outputPath = some (location ++ [name]) :=
    hnames'.locate?_of_isSome (by simp [hplace])
  exact ⟨literals, location ++ [name], hreads,
    FileSystem.target?_eq_some_iff.mpr ⟨location, name, hnames, rfl⟩, hleads, hways.current, hkind⟩

/-- The input is above the directory of the run, and the output is created in it. -/
theorem run_below_input :
    let arguments := ["-l", "../a", "-o", "b"]
    let world := (World.run .integerAbove arguments).2
    Options.ofArguments arguments = .ok ⟨⟨"../a"⟩, some ⟨"b"⟩, true⟩ ∧
      (World.run .integerAbove arguments).1 = .exit 0 ∧
      world.printed = "1 -> const_2\n" ∧
      world.files.bytes? ⟨"../a"⟩ = some "1".toUTF8 ∧
      world.files.kindAt? ["d", "b"] = some (.file ("# constants of " ++ "../a" ++ "\n" ++
        (Pool.empty.list [.value (.int 1)]).pool.dataSection.text).toUTF8) := by
  intro arguments world
  have ho : Options.ofArguments arguments = .ok ⟨⟨"../a"⟩, some ⟨"b"⟩, true⟩ := by decide
  have hliterals : Source.literals ⟨some "../a", "1"⟩ = .ok [.value (.int 1)] := by
    refine Source.literals_eq_ok_iff.mpr ?_
    rw [Source.read_eq, Cursor.read_of_token (t := ⟨.value (.int 1), ⟨0, 1⟩, "1"⟩) rfl,
      Cursor.read_of_end rfl]
    exact ⟨rfl, rfl⟩
  have hreads : Options.Reads ⟨⟨"../a"⟩, some ⟨"b"⟩, true⟩ .integerAbove [.value (.int 1)] :=
    ⟨by decide, "1", by decide, hliterals⟩
  obtain ⟨hexit, -, hcreated, hinput, hown, -, hsilent⟩ :=
    run_touches_output_only .plain .integerAbove arguments _ ho
      (World.run .integerAbove arguments).1 world rfl
  have hending := hexit.mpr ⟨⟨_, hreads⟩, by decide⟩
  obtain ⟨literals, location, hreads', htarget, -, -, hkind⟩ := hcreated hending
  obtain rfl := hreads'.unique hreads
  have hplace : FileSystem.target? .integerAbove ⟨"b"⟩ = some ["d", "b"] := by decide
  obtain rfl : location = ["d", "b"] := Option.some.inj (htarget.symm.trans hplace)
  refine ⟨ho, hending, ?_, ?_, ?_⟩
  · rw [hsilent (Environment.silent_of_filter rfl), hown _ hreads]
    decide
  · rw [hinput]
    decide
  · rw [hkind, if_pos rfl]

end LiteralPool
