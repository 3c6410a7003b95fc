import Mathlib
import LiteralPool.FileSystem
import LiteralPool.Proofs.Paths

/-!
# File trees

A file system is told by what stands at each location (`FileSystem.kindAt?`): a file with its
contents, or a directory. `FileSystem.Follows` says where one piece of a path leads from a directory
in these terms, and `FileSystem.Names` where a path would create a file.

**Creating a file changes one location (`Names.create?`).** Afterwards the file stands where the
path names it, everything else stands where it stood, and every path that led anywhere leads there
still (`KeepsWays.locate?`). In a tree this is an induction along the way to the directory of the
file (`Node.kindAt?_put`): where the way turns off, nothing changes.
-/

namespace LiteralPool

/-! ## What stands at a location -/

/-- A file with its contents, or a directory, whatever it holds. -/
inductive Node.Kind
  | file (contents : ByteArray)
  | directory
deriving DecidableEq

namespace Node

/-- Is the node a file, with which contents, or a directory? -/
def kind : Node → Kind
  | file contents => .file contents
  | directory _ => .directory

/-- What stands at a location. -/
def kindAt? (node : Node) (location : Location) : Option Kind := (node.get? location).map kind

@[simp] theorem kindAt?_nil (node : Node) : node.kindAt? [] = some node.kind := rfl

theorem kindAt?_cons (node : Node) (name : String) (location : Location) :
    node.kindAt? (name :: location) = (node.child? name).bind fun child => child.kindAt? location := by
  rw [kindAt?, get?, Option.map_bind]
  rfl

theorem get?_concat (node : Node) (location : Location) (name : String) :
    node.get? (location ++ [name]) = (node.get? location).bind fun child => child.child? name := by
  induction location generalizing node with
  | nil => simp [get?]
  | cons other location ih =>
    rw [List.cons_append, get?, get?, Option.bind_assoc]
    congr 1
    funext child
    exact ih child

theorem kindAt?_eq_directory {node : Node} {location : Location} :
    node.kindAt? location = some .directory ↔
      ∃ entries, node.get? location = some (.directory entries) := by
  rw [kindAt?, Option.map_eq_some_iff]
  constructor
  · rintro ⟨child, hchild, hkind⟩
    cases child with
    | file contents => cases hkind
    | directory entries => exact ⟨entries, hchild⟩
  · rintro ⟨entries, hentries⟩
    exact ⟨_, hentries, rfl⟩

theorem kindAt?_eq_file {node : Node} {location : Location} {contents : ByteArray} :
    node.kindAt? location = some (.file contents) ↔
      node.get? location = some (.file contents) := by
  rw [kindAt?, Option.map_eq_some_iff]
  constructor
  · rintro ⟨child, hchild, hkind⟩
    cases child with
    | file _ =>
      cases hkind
      exact hchild
    | directory entries => cases hkind
  · intro h
    exact ⟨_, h, rfl⟩

/-- What stands under a name in a directory. -/
theorem kindAt?_concat {node : Node} {location : Location} {entries : List (String × Node)}
    (h : node.get? location = some (.directory entries)) (name : String) :
    node.kindAt? (location ++ [name]) = (entries.lookup name).map kind := by
  rw [kindAt?, get?_concat, h]
  rfl

/-! ## Putting a file into a directory -/

theorem lookup_cons (key other : String) (node : Node) (entries : List (String × Node)) :
    ((key, node) :: entries).lookup other =
      if other = key then some node else entries.lookup other := by
  by_cases h : other = key
  · simp [h]
  · have hbeq : (other == key) = false := beq_eq_false_iff_ne.mpr h
    rw [List.lookup_cons, hbeq, if_neg h]

theorem lookup_setEntry (name other : String) (new : Node) (entries : List (String × Node)) :
    (setEntry name new entries).lookup other =
      if other = name then some new else entries.lookup other := by
  induction entries with
  | nil => rw [setEntry, lookup_cons]
  | cons entry entries ih =>
    obtain ⟨key, node⟩ := entry
    rw [setEntry]
    by_cases hkey : key = name
    · subst hkey
      rw [if_pos rfl, lookup_cons, lookup_cons]
      split_ifs <;> rfl
    · rw [if_neg hkey, lookup_cons, lookup_cons, ih]
      by_cases hother : other = key
      · subst hother
        rw [if_pos rfl, if_neg hkey, if_pos rfl]
      · rw [if_neg hother, if_neg hother]

/-- An entry that is replaced by itself is left as it is. -/
theorem setEntry_of_lookup {name : String} {node : Node} {entries : List (String × Node)}
    (h : entries.lookup name = some node) : setEntry name node entries = entries := by
  induction entries with
  | nil => cases h
  | cons entry entries ih =>
    obtain ⟨key, other⟩ := entry
    rw [lookup_cons] at h
    rw [setEntry]
    by_cases hkey : name = key
    · rw [if_pos hkey] at h
      rw [if_pos hkey.symm, hkey, Option.some.inj h]
    · rw [if_neg hkey] at h
      rw [if_neg (Ne.symm hkey), ih h]

/-- Putting what stands at a location there again changes nothing. -/
theorem put_of_get? {node new : Node} {location : Location} (h : node.get? location = some new) :
    node.put new location = node := by
  induction location generalizing node with
  | nil => exact (Option.some.inj h).symm
  | cons name location ih =>
    cases node with
    | file contents => rfl
    | directory entries =>
      obtain ⟨child, hchild, hbelow⟩ := Option.bind_eq_some_iff.mp h
      have hlookup : entries.lookup name = some child := hchild
      rw [put, hlookup, Option.getD_some, ih hbelow, setEntry_of_lookup hlookup]

/-- What stands in a directory and below it, entry by entry. -/
theorem kindAt?_directory_cons (entries : List (String × Node)) (name : String)
    (location : Location) :
    (directory entries).kindAt? (name :: location) =
      (entries.lookup name).bind fun child => child.kindAt? location := kindAt?_cons _ _ _

/-- Nothing stands below a file. -/
theorem kindAt?_file_cons (contents : ByteArray) (name : String) (location : Location) :
    (file contents).kindAt? (name :: location) = none := kindAt?_cons _ _ _

/-- A file that is put into a directory where no directory stood stands there, and everything else
stands where it stood. -/
theorem kindAt?_put {node : Node} {location : Location} {name : String}
    (hdirectory : node.kindAt? location = some .directory)
    (hname : node.kindAt? (location ++ [name]) ≠ some .directory) (contents : ByteArray)
    (other : Location) :
    (node.put (.file contents) (location ++ [name])).kindAt? other =
      if other = location ++ [name] then some (.file contents) else node.kindAt? other := by
  induction location generalizing node other with
  | nil =>
    obtain ⟨entries, hentries⟩ := kindAt?_eq_directory.mp hdirectory
    obtain rfl : node = directory entries := Option.some.inj hentries
    rw [kindAt?_concat hentries] at hname
    show (directory (setEntry name (.file contents) entries)).kindAt? other = _
    cases other with
    | nil => rfl
    | cons first other =>
      rw [kindAt?_directory_cons, kindAt?_directory_cons, lookup_setEntry]
      by_cases hfirst : first = name
      · subst hfirst
        rw [if_pos rfl, Option.bind_some]
        cases other with
        | nil => rw [if_pos (List.nil_append _).symm, kindAt?_nil, kind]
        | cons second other =>
          rw [if_neg (by simp), kindAt?_file_cons]
          -- What stood under the name was no directory, so nothing stood below it.
          match hold : entries.lookup first with
          | none => rfl
          | some (.file old) => exact (kindAt?_file_cons old second other).symm
          | some (.directory below) =>
            rw [hold] at hname
            exact absurd rfl hname
      · rw [if_neg hfirst, if_neg (by simp [hfirst])]
  | cons step location ih =>
    cases node with
    | file old =>
      rw [kindAt?_file_cons] at hdirectory
      cases hdirectory
    | directory entries =>
      rw [kindAt?_directory_cons] at hdirectory
      rw [List.cons_append, kindAt?_directory_cons] at hname
      obtain ⟨child, hchild, hbelow⟩ := Option.bind_eq_some_iff.mp hdirectory
      rw [hchild, Option.bind_some] at hname
      have hput : (directory entries).put (.file contents) (step :: location ++ [name]) =
          directory (setEntry step (child.put (.file contents) (location ++ [name])) entries) := by
        rw [List.cons_append, put, hchild, Option.getD_some]
      rw [hput]
      cases other with
      | nil => rfl
      | cons first other =>
        rw [kindAt?_directory_cons, kindAt?_directory_cons, lookup_setEntry]
        by_cases hfirst : first = step
        · subst hfirst
          rw [if_pos rfl, hchild, Option.bind_some, Option.bind_some, ih hbelow hname]
          simp only [List.cons_append, List.cons.injEq, true_and]
        · rw [if_neg hfirst, if_neg (by simp [hfirst])]

end Node

namespace FileSystem

/-- What stands at a location. -/
def kindAt? (fs : FileSystem) (location : Location) : Option Node.Kind := fs.root.kindAt? location

theorem fileAt?_eq_some_iff {fs : FileSystem} {location : Location} {contents : ByteArray} :
    fs.fileAt? location = some contents ↔ fs.kindAt? location = some (.file contents) := by
  rw [fileAt?, kindAt?, Node.kindAt?]
  match fs.root.get? location with
  | none => simp
  | some (.file _) => simp [Node.kind]
  | some (.directory _) => simp [Node.kind]

/-! ## Ways -/

/-- From a directory at this location, this piece of a path leads to that location. -/
inductive Follows (fs : FileSystem) (location : Location) : String → Location → Prop
  | idle {piece : String} : Path.isIdle piece = true → Follows fs location piece location
  | up : Follows fs location ".." location.dropLast
  | down {name : String} : Path.isIdle name = false → name ≠ ".." →
      (fs.kindAt? (location ++ [name])).isSome → Follows fs location name (location ++ [name])

namespace Follows

variable {fs : FileSystem} {location next : Location} {piece : String}

theorem eq_of_idle (h : fs.Follows location piece next) (hidle : Path.isIdle piece = true) :
    next = location := by
  cases h with
  | idle _ => rfl
  | up => cases hidle
  | down hname =>
    rw [hname] at hidle
    cases hidle

theorem eq_of_not_idle (h : fs.Follows location piece next) (hidle : Path.isIdle piece = false) :
    next = if piece = ".." then location.dropLast else location ++ [piece] := by
  cases h with
  | idle hpiece =>
    rw [hpiece] at hidle
    cases hidle
  | up => rfl
  | down _ hup => rw [if_neg hup]

end Follows

theorem follow?_eq_some_iff {fs : FileSystem} {location next : Location} {piece : String} :
    fs.follow? location piece = some next ↔
      fs.kindAt? location = some .directory ∧ fs.Follows location piece next := by
  constructor
  · intro h
    unfold follow? at h
    split at h
    · next entries hentries =>
      refine ⟨Node.kindAt?_eq_directory.mpr ⟨entries, hentries⟩, ?_⟩
      split_ifs at h with hidle hup hdown
      · cases h
        exact .idle hidle
      · subst hup
        cases h
        exact .up
      · cases h
        refine .down (by simpa using hidle) hup ?_
        rw [kindAt?, Node.kindAt?_concat hentries, Option.isSome_map]
        exact hdown
    · cases h
  · rintro ⟨hdirectory, hfollows⟩
    obtain ⟨entries, hentries⟩ := Node.kindAt?_eq_directory.mp hdirectory
    rw [follow?, hentries]
    cases hfollows with
    | idle hidle => exact if_pos hidle
    | up => rfl
    | down hidle hup hdown =>
      rw [kindAt?, Node.kindAt?_concat hentries, Option.isSome_map] at hdown
      simp [hidle, hup, hdown]

/-- Only a directory leads on. -/
theorem follow?_of_not_directory {fs : FileSystem} {location : Location}
    (h : fs.kindAt? location ≠ some .directory) (piece : String) :
    fs.follow? location piece = none := by
  rw [Option.eq_none_iff_forall_ne_some]
  intro next hnext
  exact h (follow?_eq_some_iff.mp hnext).1

theorem foldlM_of_not_directory {fs : FileSystem} {location : Location} {pieces : List String}
    (h : fs.kindAt? location ≠ some .directory) (hne : pieces ≠ []) :
    pieces.foldlM fs.follow? location = none := by
  obtain ⟨piece, pieces, rfl⟩ := List.exists_cons_of_ne_nil hne
  rw [List.foldlM_cons, follow?_of_not_directory h]
  rfl

/-- What stands below a location stands in a directory. -/
theorem kindAt?_of_isSome_concat {fs : FileSystem} {location : Location} {name : String}
    (h : (fs.kindAt? (location ++ [name])).isSome) : fs.kindAt? location = some .directory := by
  rw [kindAt?, Node.kindAt?, Node.get?_concat, Option.isSome_map] at h
  rw [kindAt?, Node.kindAt?_eq_directory]
  cases hnode : fs.root.get? location with
  | none => simp [hnode] at h
  | some node =>
    cases node with
    | file contents => simp [hnode, Node.child?] at h
    | directory entries => exact ⟨entries, rfl⟩

theorem isSome_kindAt?_of_follow? {fs : FileSystem} {location next : Location} {piece : String}
    (h : fs.follow? location piece = some next) : (fs.kindAt? next).isSome := by
  obtain ⟨hdirectory, hfollows⟩ := follow?_eq_some_iff.mp h
  cases hfollows with
  | idle => simp [hdirectory]
  | down _ _ hname => exact hname
  | up =>
    obtain rfl | ⟨above, name, rfl⟩ := List.eq_nil_or_concat' location
    · simp [hdirectory]
    · have hstands : (fs.kindAt? (above ++ [name])).isSome := by rw [hdirectory]; rfl
      rw [List.dropLast_concat, kindAt?_of_isSome_concat hstands]
      rfl

/-- Where a path leads, something stands. -/
theorem isSome_kindAt?_of_locate? {fs : FileSystem} {p : Path} {place : Location}
    (h : fs.locate? p = some place) : (fs.kindAt? place).isSome := by
  obtain ⟨pieces, last, hpieces⟩ := (List.eq_nil_or_concat' p.pieces).resolve_left p.pieces_ne_nil
  rw [locate?] at h
  split_ifs at h
  rw [hpieces, List.foldlM_append] at h
  obtain ⟨location, -, hlast⟩ := Option.bind_eq_some_iff.mp h
  rw [List.foldlM_cons] at hlast
  obtain ⟨next, hnext, hplace⟩ := Option.bind_eq_some_iff.mp hlast
  obtain rfl : next = place := Option.some.inj hplace
  exact isSome_kindAt?_of_follow? hnext

/-- Two paths are known to lead to the same place if both lead to one location. -/
theorem sameFile_eq_true_iff {fs : FileSystem} {p q : Path} :
    fs.sameFile p q = true ↔
      ∃ location, fs.locate? p = some location ∧ fs.locate? q = some location := by
  rw [sameFile]
  cases fs.locate? p with
  | none => simp
  | some a =>
    cases fs.locate? q with
    | none => simp
    | some b =>
      rw [beq_iff_eq]
      constructor
      · rintro rfl
        exact ⟨a, rfl, rfl⟩
      · rintro ⟨location, ha, hb⟩
        exact Option.some.inj (ha.trans hb.symm)

/-- A change that takes nothing away that a path can lead along or to. -/
structure KeepsWays (fs fs' : FileSystem) : Prop where
  current : fs'.current = fs.current
  directory : ∀ location, fs.kindAt? location = some .directory →
    fs'.kindAt? location = some .directory
  present : ∀ location, (fs.kindAt? location).isSome → (fs'.kindAt? location).isSome

namespace KeepsWays

variable {fs fs' : FileSystem}

theorem follow? (h : fs.KeepsWays fs') {location next : Location} {piece : String}
    (hnext : fs.follow? location piece = some next) : fs'.follow? location piece = some next := by
  obtain ⟨hdirectory, hfollows⟩ := follow?_eq_some_iff.mp hnext
  refine follow?_eq_some_iff.mpr ⟨h.directory location hdirectory, ?_⟩
  cases hfollows with
  | idle hidle => exact .idle hidle
  | up => exact .up
  | down hidle hup hdown => exact .down hidle hup (h.present _ hdown)

theorem foldlM_follow? (h : fs.KeepsWays fs') {pieces : List String} {location last : Location}
    (hlast : pieces.foldlM fs.follow? location = some last) :
    pieces.foldlM fs'.follow? location = some last := by
  induction pieces generalizing location with
  | nil => exact hlast
  | cons piece pieces ih =>
    rw [List.foldlM_cons] at hlast ⊢
    obtain ⟨next, hnext, hlast⟩ := Option.bind_eq_some_iff.mp hlast
    exact Option.bind_eq_some_iff.mpr ⟨next, h.follow? hnext, ih hlast⟩

theorem origin (h : fs.KeepsWays fs') (p : Path) : fs'.origin p = fs.origin p := by
  rw [FileSystem.origin, FileSystem.origin, h.current]

/-- A path still leads where it led. -/
theorem locate? (h : fs.KeepsWays fs') {p : Path} {location : Location}
    (hp : fs.locate? p = some location) : fs'.locate? p = some location := by
  rw [FileSystem.locate?] at hp ⊢
  split_ifs at hp with hnameable
  rw [if_pos hnameable, h.origin]
  exact h.foldlM_follow? hp

end KeepsWays

/-! ## Creating files -/

/-- The path names this place for a file: a name in a directory, at which no directory stands. -/
structure Names (fs : FileSystem) (p : Path) (location : Location) (name : String) : Prop where
  nameable : p.isNameable = true
  way : ∃ pieces, p.pieces = pieces ++ [name] ∧
    pieces.foldlM fs.follow? (fs.origin p) = some location
  not_idle : Path.isIdle name = false
  not_parent : name ≠ ".."
  directory : fs.kindAt? location = some .directory
  free : fs.kindAt? (location ++ [name]) ≠ some .directory

theorem target?_eq_some_iff {fs : FileSystem} {p : Path} {target : Location} :
    fs.target? p = some target ↔
      ∃ location name, fs.Names p location name ∧ location ++ [name] = target := by
  constructor
  · intro h
    rw [target?] at h
    split_ifs at h with hnameable
    obtain ⟨name, hname, h⟩ := Option.bind_eq_some_iff.mp h
    split_ifs at h with hspecial
    obtain ⟨hidle, hparent⟩ : Path.isIdle name = false ∧ name ≠ ".." := by simpa using hspecial
    obtain ⟨location, hway, h⟩ := Option.bind_eq_some_iff.mp h
    split at h
    · next entries hentries =>
      have hkind := Node.kindAt?_concat hentries name
      have hdirectory : fs.kindAt? location = some .directory :=
        Node.kindAt?_eq_directory.mpr ⟨entries, hentries⟩
      split at h
      · cases h
      · next hfree =>
        refine ⟨location, name, ⟨hnameable, ⟨p.pieces.dropLast, ?_, hway⟩, hidle, hparent,
          hdirectory, ?_⟩, Option.some.inj h⟩
        · exact (List.dropLast_append_getLast? name hname).symm
        · rw [kindAt?, hkind, ne_eq, Option.map_eq_some_iff]
          rintro ⟨node, hnode, hnodeKind⟩
          cases node with
          | file contents => cases hnodeKind
          | directory below => exact hfree below hnode
    · cases h
  · rintro ⟨location, name, h, rfl⟩
    obtain ⟨pieces, hpieces, hway⟩ := h.way
    obtain ⟨entries, hentries⟩ := Node.kindAt?_eq_directory.mp h.directory
    have hspecial : (Path.isIdle name || name == "..") = false := by
      simp [h.not_idle, h.not_parent]
    have hfree := h.free
    rw [kindAt?, Node.kindAt?_concat hentries] at hfree
    rw [target?, if_pos h.nameable, hpieces, List.getLast?_concat, List.dropLast_concat,
      Option.bind_some, hspecial, if_neg Bool.false_ne_true, hway, Option.bind_some, hentries]
    cases hnode : entries.lookup name with
    | none => simp only [hnode]
    | some node =>
      cases node with
      | file contents => simp only [hnode]
      | directory below =>
        rw [hnode] at hfree
        exact absurd rfl hfree

namespace Names

variable {fs : FileSystem} {p : Path} {location : Location} {name : String}

/-- If something stands at the place that the path names, the path leads there. -/
theorem locate?_of_isSome (h : fs.Names p location name)
    (hplace : (fs.kindAt? (location ++ [name])).isSome) :
    fs.locate? p = some (location ++ [name]) := by
  obtain ⟨pieces, hpieces, hway⟩ := h.way
  have hlast : fs.follow? location name = some (location ++ [name]) :=
    follow?_eq_some_iff.mpr ⟨h.directory, .down h.not_idle h.not_parent hplace⟩
  rw [locate?, if_pos h.nameable, hpieces, List.foldlM_append, hway]
  show [name].foldlM fs.follow? location = _
  rw [List.foldlM_cons, hlast]
  rfl

/-- A path still names the place that it named, unless a directory stands there now. -/
theorem keep (h : fs.Names p location name) {fs' : FileSystem} (hways : fs.KeepsWays fs')
    (hfree : fs'.kindAt? (location ++ [name]) ≠ some .directory) : fs'.Names p location name := by
  obtain ⟨pieces, hpieces, hway⟩ := h.way
  refine ⟨h.nameable, ⟨pieces, hpieces, ?_⟩, h.not_idle, h.not_parent,
    hways.directory location h.directory, hfree⟩
  rw [hways.origin]
  exact hways.foldlM_follow? hway

/-- **Creating a file changes one location.** A path that names a place creates a file there: it
holds the contents, everything else stands where it stood, and all ways are kept. -/
theorem create? (h : fs.Names p location name) (contents : ByteArray) :
    ∃ fs', fs.create? p contents = some fs' ∧ fs.KeepsWays fs' ∧
      ∀ other, fs'.kindAt? other =
        if other = location ++ [name] then some (.file contents) else fs.kindAt? other := by
  have htarget : fs.target? p = some (location ++ [name]) :=
    target?_eq_some_iff.mpr ⟨location, name, h, rfl⟩
  have hkind : ∀ other, (fs.root.put (.file contents) (location ++ [name])).kindAt? other =
      if other = location ++ [name] then some (.file contents) else fs.kindAt? other :=
    Node.kindAt?_put h.directory h.free contents
  refine ⟨⟨fs.root.put (.file contents) (location ++ [name]), fs.current⟩, ?_, ⟨rfl, ?_, ?_⟩, hkind⟩
  · rw [FileSystem.create?, htarget]
    rfl
  · intro other hother
    rw [FileSystem.kindAt?, hkind, if_neg]
    · exact hother
    · rintro rfl
      exact h.free hother
  · intro other hother
    rw [FileSystem.kindAt?, hkind]
    split_ifs
    · rfl
    · exact hother

/-- A file that stands where the path names it, with the contents that are to be written, is created
again without a change. -/
theorem create?_of_kindAt? (h : fs.Names p location name) {contents : ByteArray}
    (hfile : fs.kindAt? (location ++ [name]) = some (.file contents)) :
    fs.create? p contents = some fs := by
  have htarget : fs.target? p = some (location ++ [name]) :=
    target?_eq_some_iff.mpr ⟨location, name, h, rfl⟩
  rw [FileSystem.create?, htarget, Option.map_some,
    Node.put_of_get? (Node.kindAt?_eq_file.mp hfile)]

end Names

/-- Where something was created, the path named a place for a file. -/
theorem exists_names_of_create? {fs fs' : FileSystem} {p : Path} {contents : ByteArray}
    (h : fs.create? p contents = some fs') :
    ∃ location name, fs.Names p location name ∧ fs.KeepsWays fs' ∧
      ∀ other, fs'.kindAt? other =
        if other = location ++ [name] then some (.file contents) else fs.kindAt? other := by
  obtain ⟨target, htarget, -⟩ := Option.map_eq_some_iff.mp h
  obtain ⟨location, name, hnames, -⟩ := target?_eq_some_iff.mp htarget
  obtain ⟨created, hcreated, hways, hkind⟩ := hnames.create? contents
  obtain rfl : fs' = created := Option.some.inj (h.symm.trans hcreated)
  exact ⟨location, name, hnames, hways, hkind⟩

end FileSystem

end LiteralPool
