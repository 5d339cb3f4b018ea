import LogSweep.Proofs.Shape

/-! A file system as a bare tree and contents. The bare tree has every entry with its name and
access and leaves out what files contain; the contents are told by the places of files. What a
path leads to is decided by the bare tree, and writing changes the content at one place only. -/
namespace LogSweep

namespace Entry

def content? : Entry → Option Bytes
  | .file _ content => some content
  | _ => none

/-- The content of the file at a place. -/
def contentAt (e : Entry) (place : Place) : Option Bytes := (e.get? place).bind content?

mutual

/-- The tree with the contents of all files left out. -/
def bare : Entry → Entry
  | .file access _ => .file access []
  | .link target => .link target
  | .dir access entries => .dir access (bareEntries entries)

/-- The entries of a directory with the contents of all files left out. -/
def bareEntries : List (Name × Entry) → List (Name × Entry)
  | [] => []
  | (n, e) :: rest => (n, e.bare) :: bareEntries rest

end

mutual

theorem bare_eq_mapFiles : ∀ e : Entry, e.bare = e.mapFiles fun x => (x.1, [])
  | .file _ _ => rfl
  | .link _ => rfl
  | .dir access entries => congrArg (dir access) (bareEntries_eq_mapFilesOf entries)

theorem bareEntries_eq_mapFilesOf : ∀ entries : List (Name × Entry),
    bareEntries entries = mapFilesOf (fun x => (x.1, [])) entries
  | [] => rfl
  | (n, e) :: rest => by
    rw [bareEntries, mapFilesOf, bare_eq_mapFiles e, bareEntries_eq_mapFilesOf rest]

end

lemma shape_bare (e : Entry) : e.bare.shape = e.shape := by
  rw [bare_eq_mapFiles, shape, shape, mapFiles_mapFiles]
  rfl

lemma contentAt_eq_fileAt (e : Entry) (place : Place) :
    e.contentAt place = (e.fileAt place).map Prod.snd := by
  unfold contentAt fileAt
  cases e.get? place with
  | none => rfl
  | some x => cases x <;> rfl

lemma fileAt_bare (e : Entry) (place : Place) :
    e.bare.fileAt place = (e.fileAt place).map fun x => (x.1, []) := by
  rw [bare_eq_mapFiles, fileAt_mapFiles]

end Entry

namespace FileSystem
open Entry

variable {fs fs' : FileSystem} {p : Path} {place : Place}

/-- The file system with the contents of all files left out. -/
def bare (fs : FileSystem) : FileSystem := { fs with root := fs.root.bare }

def contentAt (fs : FileSystem) (place : Place) : Option Bytes := fs.root.contentAt place

/-! Writing a file. -/

/-- Writing a file leaves the bare tree as it is. -/
@[simp] lemma bare_put (fs : FileSystem) (content : Bytes) (place : Place) :
    (fs.put content place).bare = fs.bare := by
  have hr : (fs.root.alterFile (fun x => (x.1, content)) place).bare = fs.root.bare := by
    rw [bare_eq_mapFiles, bare_eq_mapFiles]
    exact mapFiles_alterFile _ (fun x => (x.1, content)) (fun _ => rfl) place fs.root
  rw [put_eq_alterFile, bare, bare, ← hr]
  rfl

/-- Writing a file changes the content at its place and no other one. -/
lemma contentAt_put (fs : FileSystem) (content : Bytes) (place q : Place) :
    (fs.put content place).contentAt q =
      if q = place then (fs.contentAt q).map fun _ => content else fs.contentAt q := by
  rw [put_eq_alterFile, contentAt, contentAt, contentAt_eq_fileAt, contentAt_eq_fileAt, alterFile,
    fileAt_alterFile]
  split
  · cases fs.root.fileAt q <;> rfl
  · rfl

lemma fileAt_eq_some {e : Entry} {access : Access} {content : Bytes} :
    e.fileAt place = some (access, content) ↔ e.get? place = some (.file access content) := by
  unfold fileAt
  cases e.get? place with
  | none => simp
  | some x => cases x <;> simp [file?]

lemma contentAt_eq_some {content : Bytes} :
    fs.contentAt place = some content ↔
      ∃ access, fs.root.get? place = some (.file access content) := by
  simp only [contentAt, contentAt_eq_fileAt, ← fileAt_eq_some]
  cases fs.root.fileAt place with
  | none => simp
  | some x =>
    obtain ⟨access, c⟩ := x
    simp

/-! What is read. -/

lemma shape_of_bare (h : fs'.bare = fs.bare) : fs'.shape = fs.shape := by
  have hr : fs'.root.bare = fs.root.bare := congrArg root h
  have hc : fs'.cwd = fs.cwd := (congrArg cwd h : fs'.bare.cwd = fs.bare.cwd)
  rw [shape, shape, ← shape_bare, hr, shape_bare, hc]

lemma fileAt_congr (h : fs'.bare = fs.bare) (hc : fs'.contentAt place = fs.contentAt place) :
    fs'.root.fileAt place = fs.root.fileAt place := by
  have hr : fs'.root.bare = fs.root.bare := congrArg root h
  have hb := congrArg (fileAt · place) hr
  simp only [fileAt_bare, contentAt, contentAt_eq_fileAt] at hb hc
  cases hf : fs.root.fileAt place <;> cases hf' : fs'.root.fileAt place <;> simp_all
  next x y => exact Prod.ext hb hc

lemma read_eq_ok_iff {content : Bytes} :
    fs.read p = .ok content ↔ ∃ place access, fs.locate true p = .ok place ∧
      fs.root.get? place = some (.file access content) ∧ access.read := by
  unfold read stat
  cases hl : fs.locate true p with
  | error e => simp [bind, Except.bind]
  | ok place =>
    simp only [bind, Except.bind, entryAt]
    cases hg : fs.root.get? place with
    | none => simp [hg]
    | some e =>
      cases e with
      | file access c => cases ha : access.read <;> simp [hg, ha]
      | link target => simp [hg]
      | dir access entries => simp [hg]

lemma readText_eq_ok {t : Text} (h : fs.readText p = .ok t) :
    ∃ content, fs.read p = .ok content ∧ Utf8.decode? content = some t := by
  unfold readText at h
  split at h
  · cases h
  · next content hr =>
    split at h
    · next t' hd =>
      cases h
      exact ⟨content, hr, hd⟩
    · cases h

/-- A path is read as before if the bare tree and the content at its place are as before. -/
lemma readText_congr (h : fs'.bare = fs.bare)
    (hc : ∀ place, fs.locate true p = .ok place → fs'.contentAt place = fs.contentAt place) :
    fs'.readText p = fs.readText p :=
  readText_congr_of_shape (shape_of_bare h) fun place hl => fileAt_congr h (hc place hl)

/-- A path that was read before a write is read as what was written. -/
lemma readText_put {old : Text} (hl : fs.locate true p = .ok place)
    (hr : fs.readText p = .ok old) (t : Text) :
    (fs.put (Utf8.encode t) place).readText p = .ok t := by
  obtain ⟨content, hread, -⟩ := readText_eq_ok hr
  obtain ⟨place', access, hl', hg, ha⟩ := read_eq_ok_iff.mp hread
  obtain rfl : place = place' := Except.ok.inj (hl.symm.trans hl')
  have hg' : (fs.put (Utf8.encode t) place).root.get? place =
      some (.file access (Utf8.encode t)) := by
    rw [← fileAt_eq_some, put_eq_alterFile, alterFile, fileAt_alterFile, if_pos rfl,
      fileAt_eq_some.mpr hg]
    rfl
  have hw : (fs.put (Utf8.encode t) place).read p = .ok (Utf8.encode t) := by
    refine read_eq_ok_iff.mpr ⟨place, access, ?_, hg', ha⟩
    rw [locate_congr (shape_of_bare (bare_put ..)), hl]
  rw [readText, hw]
  simp

/-- A write that is not refused changes the content at the place of its path. -/
lemma write_eq_ok {content : Bytes} (h : fs.write p content = .ok fs') :
    ∃ place, fs.locate true p = .ok place ∧ fs' = fs.put content place := by
  unfold write at h
  split at h
  · cases h
  · next place hl =>
    refine ⟨place, hl, ?_⟩
    split at h
    · split at h
      · exact (Except.ok.inj h).symm
      · cases h
    all_goals cases h

end FileSystem
end LogSweep
