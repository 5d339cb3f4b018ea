import LogSweep.Proofs.Places
import LogSweep.Walk

/-! The shape of a tree: its directories, its links and the names of its files, without what the
files permit and contain. The shape alone decides where a path leads, what a walk meets and which
files are collected. -/
namespace LogSweep

namespace Entry

mutual

/-- The tree with another access and content of every file. -/
def mapFiles (f : Access × Bytes → Access × Bytes) : Entry → Entry
  | .file access content => .file (f (access, content)).1 (f (access, content)).2
  | .link target => .link target
  | .dir access entries => .dir access (mapFilesOf f entries)

def mapFilesOf (f : Access × Bytes → Access × Bytes) :
    List (Name × Entry) → List (Name × Entry)
  | [] => []
  | (n, e) :: rest => (n, e.mapFiles f) :: mapFilesOf f rest

end

/-- The tree without what its files permit and contain. -/
def shape (e : Entry) : Entry := e.mapFiles fun _ => ({}, [])

variable (f g : Access × Bytes → Access × Bytes)

@[simp] lemma isDir_mapFiles (e : Entry) : (e.mapFiles f).isDir = e.isDir := by
  cases e <;> rfl

@[simp] lemma file?_mapFiles (e : Entry) : (e.mapFiles f).file? = e.file?.map f := by
  cases e <;> rfl

lemma child?_mapFilesOf (n : Name) (entries : List (Name × Entry)) :
    child? n (mapFilesOf f entries) = (child? n entries).map (mapFiles f) := by
  induction entries with
  | nil => rfl
  | cons x rest ih =>
    obtain ⟨m, e⟩ := x
    rw [mapFilesOf, child?_cons, child?_cons, ih]
    split <;> rfl

lemma named?_mapFilesOf (part : Bytes) (entries : List (Name × Entry)) :
    named? part (mapFilesOf f entries) =
      (named? part entries).map fun x => (x.1, x.2.mapFiles f) := by
  induction entries with
  | nil => rfl
  | cons x rest ih =>
    obtain ⟨n, e⟩ := x
    rw [mapFilesOf, named?_cons, named?_cons, ih]
    split <;> rfl

lemma get?_mapFiles (place : Place) (e : Entry) :
    (e.mapFiles f).get? place = (e.get? place).map (mapFiles f) := by
  induction place generalizing e with
  | nil => simp
  | cons n place ih =>
    cases e with
    | dir access entries =>
      rw [mapFiles, get?_cons_dir, get?_cons_dir, child?_mapFilesOf]
      cases child? n entries with
      | none => rfl
      | some x => exact ih x
    | file access content => rfl
    | link target => rfl

lemma fileAt_mapFiles (place : Place) (e : Entry) :
    (e.mapFiles f).fileAt place = (e.fileAt place).map f := by
  rw [fileAt, fileAt, get?_mapFiles]
  cases e.get? place with
  | none => rfl
  | some x => exact file?_mapFiles f x

mutual

theorem mapFiles_mapFiles : ∀ e : Entry, (e.mapFiles g).mapFiles f = e.mapFiles (f ∘ g)
  | .file _ _ => rfl
  | .link _ => rfl
  | .dir access entries => congrArg (dir access) (mapFilesOf_mapFilesOf entries)

theorem mapFilesOf_mapFilesOf : ∀ entries : List (Name × Entry),
    mapFilesOf f (mapFilesOf g entries) = mapFilesOf (f ∘ g) entries
  | [] => rfl
  | (n, e) :: rest => by
    rw [mapFilesOf, mapFilesOf, mapFilesOf, mapFiles_mapFiles e, mapFilesOf_mapFilesOf rest]

end

lemma mapFilesOf_alterChild {h : Entry → Entry} (hh : ∀ e, (h e).mapFiles f = e.mapFiles f)
    (n : Name) (entries : List (Name × Entry)) :
    mapFilesOf f (alterChild n (Option.map h) entries) = mapFilesOf f entries := by
  induction entries with
  | nil => rfl
  | cons x rest ih =>
    obtain ⟨m, e⟩ := x
    rw [alterChild]
    by_cases hm : m = n
    · subst hm
      simp [mapFilesOf, hh]
    · rw [if_neg hm, mapFilesOf, mapFilesOf, ih]

/-- What is left out of all files cannot tell whether it was changed in one of them. -/
lemma mapFiles_alterFile (h : ∀ x, f (g x) = f x) (place : Place) (e : Entry) :
    (e.alterFile g place).mapFiles f = e.mapFiles f := by
  induction place generalizing e with
  | nil =>
    rw [alterFile_nil]
    cases e with
    | file access content => exact congrArg (fun x => Entry.file x.1 x.2) (h (access, content))
    | link target => rfl
    | dir access entries => rfl
  | cons n place ih =>
    rcases e.eq_dir_or with ⟨access, entries, rfl⟩ | he
    · rw [alterFile_cons_dir, mapFiles, mapFiles, mapFilesOf_alterChild f ih]
    · rw [alterFile_cons_of_not_dir he]

end Entry

namespace FileSystem
open Entry

variable {fs fs' : FileSystem} {p : Path}

/-- The file system without what its files permit and contain. -/
def shape (fs : FileSystem) : FileSystem :=
  { fs with root := fs.root.shape }

/-- The file system with another access and content of the file at a place. -/
def alterFile (g : Access × Bytes → Access × Bytes) (place : Place) (fs : FileSystem) :
    FileSystem :=
  { fs with root := fs.root.alterFile g place }

@[simp] lemma shape_alterFile (g : Access × Bytes → Access × Bytes) (place : Place)
    (fs : FileSystem) : (fs.alterFile g place).shape = fs.shape := by
  rw [shape, alterFile, Entry.shape, mapFiles_alterFile _ g fun _ => rfl]
  rfl

lemma alterFile_comm {place q : Place} (h : place ≠ q) (g g' : Access × Bytes → Access × Bytes)
    (fs : FileSystem) :
    (fs.alterFile g' q).alterFile g place = (fs.alterFile g place).alterFile g' q := by
  simp only [alterFile, Entry.alterFile_comm h]

/-! Finding a place. -/

lemma descend_mapFiles (f : Access × Bytes → Access × Bytes) (root : Entry)
    (follow : Path → List Part → Place → Except IoError Place) (followLast : Bool)
    (path : List Part) (here : Place) :
    descend (root.mapFiles f) follow followLast path here =
      descend root follow followLast path here := by
  induction path generalizing here with
  | nil => rfl
  | cons part rest ih =>
    rw [descend, descend, get?_mapFiles]
    cases root.get? here with
    | none => rfl
    | some e =>
      cases e with
      | file access content => rfl
      | link target => rfl
      | dir access entries =>
        simp only [Option.map_some, mapFiles, named?_mapFilesOf, ih]
        cases named? part entries with
        | none => rfl
        | some x =>
          obtain ⟨n, e⟩ := x
          cases e <;> simp [mapFiles]

lemma locateWithin_mapFiles (f : Access × Bytes → Access × Bytes) (root : Entry)
    (followLast : Bool) (links : Nat) :
    locateWithin (root.mapFiles f) followLast links = locateWithin root followLast links := by
  induction links with
  | zero => exact funext₂ fun path here => descend_mapFiles f root _ followLast path here
  | succ links ih =>
    refine funext₂ fun path here => ?_
    rw [locateWithin, locateWithin, ih]
    exact descend_mapFiles f root _ followLast path here

lemma locate_shape (fs : FileSystem) (followLast : Bool) (p : Path) :
    fs.shape.locate followLast p = fs.locate followLast p := by
  simp only [locate, shape, Entry.shape, locateWithin_mapFiles]

lemma locate_congr (h : fs'.shape = fs.shape) (followLast : Bool) (p : Path) :
    fs'.locate followLast p = fs.locate followLast p := by
  rw [← locate_shape fs', h, locate_shape]

end FileSystem

/-! Walking. -/

namespace Walk

mutual

theorem visits_mapFiles (f : Access × Bytes → Access × Bytes) (skip : Name → Bool) :
    ∀ (reachable : Bool) (e : Entry) (p : Path),
      visits skip reachable (e.mapFiles f) p = visits skip reachable e p
  | _, .file _ _, _ => rfl
  | _, .link _, _ => rfl
  | reachable, .dir access entries, p => by
    rw [Entry.mapFiles, visits, visits, visitsBelow_mapFilesOf f skip access.search entries p]

theorem visitsBelow_mapFilesOf (f : Access × Bytes → Access × Bytes) (skip : Name → Bool) :
    ∀ (reachable : Bool) (entries : List (Name × Entry)) (p : Path),
      visitsBelow skip reachable (Entry.mapFilesOf f entries) p =
        visitsBelow skip reachable entries p
  | _, [], _ => rfl
  | reachable, (n, e) :: rest, p => by
    rw [Entry.mapFilesOf, visitsBelow, visitsBelow, Entry.isDir_mapFiles,
      visits_mapFiles f skip reachable e, visitsBelow_mapFilesOf f skip reachable rest p]

end

end Walk

namespace FileSystem

variable {fs fs' : FileSystem} {p : Path}

lemma entryAt_shape (fs : FileSystem) (place : Place) :
    fs.shape.entryAt place =
      (fs.entryAt place).map Entry.shape := by
  rw [entryAt, entryAt, shape, Entry.shape, Entry.get?_mapFiles]
  cases fs.root.get? place <;> rfl

lemma lstat_shape (fs : FileSystem) (p : Path) :
    fs.shape.lstat p = (fs.lstat p).map Entry.shape := by
  rw [lstat, lstat, locate_shape]
  cases fs.locate false p with
  | error e => rfl
  | ok place => exact entryAt_shape fs place

lemma stat_shape (fs : FileSystem) (p : Path) :
    fs.shape.stat p = (fs.stat p).map Entry.shape := by
  rw [stat, stat, locate_shape]
  cases fs.locate true p with
  | error e => rfl
  | ok place => exact entryAt_shape fs place

end FileSystem

lemma Walk.visitsFrom_shape (skip : Bytes → Bool) (fs : FileSystem) (root : Path) :
    visitsFrom skip fs.shape root = visitsFrom skip fs root := by
  have hv := visits_mapFiles (fun _ => ({}, [])) (fun n => skip n.bytes) true
  unfold visitsFrom
  rw [FileSystem.lstat_shape, FileSystem.stat_shape]
  cases fs.lstat root with
  | error e => rfl
  | ok e =>
    cases e with
    | file access content => rfl
    | dir access entries =>
      simp only [Except.map, Entry.shape, Entry.mapFiles, ← hv (.dir access entries) root]
    | link target =>
      cases fs.stat root with
      | error e => rfl
      | ok e =>
        cases e with
        | file access content => rfl
        | dir access entries => exact hv (.dir access entries) root
        | link target => rfl

/-- File systems of one shape lead to the same files. -/
theorem Selection.collect_congr {fs fs' : FileSystem} (h : fs'.shape = fs.shape) (s : Selection) :
    s.collect fs' = s.collect fs := by
  have hv : s.visits fs' = s.visits fs := by
    rw [visits, visits, ← Walk.visitsFrom_shape, h, Walk.visitsFrom_shape]
  rw [collect, collect, hv]

/-! Reading and writing a file. -/

namespace FileSystem
open Entry

variable {fs fs' : FileSystem} {p : Path} {place : Place}

/-- Where the shapes and the file at a place are the same, the same entry is there, or a directory
in which other files may differ. -/
lemma get?_root_congr (h : fs'.shape = fs.shape)
    (hf : fs'.root.fileAt place = fs.root.fileAt place) :
    fs'.root.get? place = fs.root.get? place ∨
    ∃ access entries entries', fs.root.get? place = some (.dir access entries) ∧
      fs'.root.get? place = some (.dir access entries') := by
  have hs : (fs'.root.get? place).map Entry.shape = (fs.root.get? place).map Entry.shape := by
    have hr : fs'.root.shape = fs.root.shape := congrArg root h
    have hg := congrArg (Entry.get? place) hr
    rwa [Entry.shape, Entry.shape, get?_mapFiles, get?_mapFiles] at hg
  unfold Entry.fileAt at hf
  cases hg : fs.root.get? place with
  | none => simp_all
  | some e =>
    cases hg' : fs'.root.get? place with
    | none => simp [hg, hg'] at hs
    | some e' =>
      rw [hg, hg'] at hs hf
      cases e <;> cases e' <;> simp_all [Entry.shape, mapFiles, file?]

/-- A path is read as before if the shape and the file at its place are as before. -/
lemma read_congr (h : fs'.shape = fs.shape)
    (hf : ∀ place, fs.locate true p = .ok place → fs'.root.fileAt place = fs.root.fileAt place) :
    fs'.read p = fs.read p := by
  unfold read stat
  rw [locate_congr h]
  cases hl : fs.locate true p with
  | error e => rfl
  | ok place =>
    simp only [bind, Except.bind, entryAt]
    rcases get?_root_congr h (hf place hl) with hg | ⟨access, entries, entries', hg, hg'⟩
    · rw [hg]
    · rw [hg, hg']

lemma readText_congr_of_shape (h : fs'.shape = fs.shape)
    (hf : ∀ place, fs.locate true p = .ok place → fs'.root.fileAt place = fs.root.fileAt place) :
    fs'.readText p = fs.readText p := by
  rw [readText, readText, read_congr h hf]

variable {g : Access × Bytes → Access × Bytes}

/-- A change of the file at another place does not show where a path is read. -/
lemma readText_alterFile (h : fs.locate true p ≠ .ok place) :
    (fs.alterFile g place).readText p = fs.readText p := by
  refine readText_congr_of_shape (shape_alterFile g place fs) fun q hl => ?_
  have hne : q ≠ place := fun he => h (he ▸ hl)
  rw [alterFile, fileAt_alterFile, if_neg hne]

lemma put_eq_alterFile (fs : FileSystem) (content : Bytes) (place : Place) :
    fs.put content place = fs.alterFile (fun x => (x.1, content)) place := by
  have h : withContent content = onFile fun x => (x.1, content) := by
    funext e
    cases e <;> rfl
  rw [put, Entry.put, h]
  rfl

/-- A change of the file at another place comes before or after a path is written. -/
lemma write_alterFile (h : fs.locate true p ≠ .ok place) (content : Bytes) :
    (fs.alterFile g place).write p content =
      (fs.write p content).map (alterFile g place) := by
  have hs := shape_alterFile g place fs
  unfold write
  rw [locate_congr hs]
  cases hl : fs.locate true p with
  | error e => rfl
  | ok q =>
    have hne : q ≠ place := fun he => h (he ▸ hl)
    have hf : (fs.alterFile g place).root.fileAt q = fs.root.fileAt q := by
      rw [alterFile, fileAt_alterFile, if_neg hne]
    have hput : (fs.alterFile g place).put content q = (fs.put content q).alterFile g place := by
      rw [put_eq_alterFile, put_eq_alterFile, alterFile_comm hne]
    dsimp only
    rcases get?_root_congr hs hf with hg | ⟨access, entries, entries', hg, hg'⟩
    · rw [hg, hput]
      cases fs.root.get? q with
      | none => rfl
      | some e =>
        cases e with
        | file access c => cases hw : access.write <;> simp [hw, Except.map]
        | link target => rfl
        | dir access entries => rfl
    · rw [hg, hg']
      rfl

lemma writeText_alterFile (h : fs.locate true p ≠ .ok place) (t : Text) :
    (fs.alterFile g place).writeText p t = (fs.writeText p t).map (alterFile g place) :=
  write_alterFile h _

end FileSystem
end LogSweep
