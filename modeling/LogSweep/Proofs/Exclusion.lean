import LogSweep.Proofs.Descent
import LogSweep.Proofs.Turns

/-! What lies in excluded directories is invisible. On two file systems that differ in nothing else
a walk meets the same files, each of them is read and written alike, and what is written leaves file
systems that differ in nothing else again. -/
namespace LogSweep

/-- A walk does not enter directories of this name. -/
def Selection.hides (s : Selection) (n : Name) : Bool := s.excludes n.bytes

namespace FileSystem
open Entry

/-- The file system without what the excluded directories below a place permit and contain. -/
def veiled (s : Selection) (root : Place) (fs : FileSystem) : FileSystem :=
  { fs with root := fs.root.alter (Option.map (veil s.hides)) root }

/-- A file lies at the place, below another place and in no excluded directory below that. -/
def IsOpen (s : Selection) (root : Place) (fs : FileSystem) (place : Place) : Prop :=
  ∃ names access content, place = root ++ names ∧
    (fs.veiled s root).root.get? place = some (.file access content)

/-- An excluded directory lies at the place, strictly below another place. -/
def IsExcluded (s : Selection) (root : Place) (fs : FileSystem) (place : Place) : Prop :=
  ∃ names n access entries, place = root ++ names ++ [n] ∧ s.hides n ∧
    fs.root.get? place = some (.dir access entries)

/-- From one file system to another, contents are written one after the other to files that lie in
no excluded directory. -/
inductive Rewritten (s : Selection) (root : Place) :
    FileSystem → List (Place × Bytes) → FileSystem → Prop
  | none (fs : FileSystem) : Rewritten s root fs [] fs
  | write {fs fs' : FileSystem} {place : Place} {content : Bytes} {rest : List (Place × Bytes)}
      (there : fs.IsOpen s root place) (tail : Rewritten s root (fs.put content place) rest fs') :
      Rewritten s root fs ((place, content) :: rest) fs'

/-- In two file systems the root of a selection is a directory at the same place, and they differ
only in what its excluded directories permit and contain. -/
structure AgreeOutside (s : Selection) (root : Place) (fs fs' : FileSystem) : Prop where
  here : fs.locate false s.root = .ok root
  here' : fs'.locate false s.root = .ok root
  dir : ∃ access entries, fs.root.get? root = some (.dir access entries)
  same : fs'.veiled s root = fs.veiled s root

variable {s : Selection} {root place q : Place} {fs fs' x x' : FileSystem} {content : Bytes}
  {rewrites more : List (Place × Bytes)} {p : Path} {ps : List Path}

lemma get?_veiled (s : Selection) (fs : FileSystem) (root names : Place) :
    (fs.veiled s root).root.get? (root ++ names) =
      (fs.root.get? root).bind fun e => (e.veil s.hides).get? names :=
  get?_alter_append ..

/-! Writing a file outside of the excluded directories. -/

lemma IsOpen.get? (h : fs.IsOpen s root place) :
    ∃ access content, fs.root.get? place = some (.file access content) := by
  obtain ⟨names, access, content, rfl, hg⟩ := h
  rw [get?_veiled] at hg
  obtain ⟨e, he, hg⟩ := Option.bind_eq_some_iff.mp hg
  exact ⟨access, content, by rw [get?_append, he, Option.bind_some, get?_of_veil hg]⟩

lemma veiled_put (content : Bytes) (h : fs.IsOpen s root place) :
    (fs.put content place).veiled s root = (fs.veiled s root).put content place := by
  obtain ⟨names, access, content', rfl, hg⟩ := h
  rw [get?_veiled] at hg
  have hroot : (fs.root.put content (root ++ names)).alter (Option.map (veil s.hides)) root =
      (fs.root.alter (Option.map (veil s.hides)) root).put content (root ++ names) := by
    refine alter_alter_append root names fs.root fun e he => ?_
    rw [he] at hg
    exact veil_put content hg
  exact congrArg (fun r => FileSystem.mk r fs.cwd) hroot

/-- An excluded directory stays as it is, with all that lies in it. -/
lemma IsExcluded.put (content : Bytes) (h : fs.IsExcluded s root q) (ho : fs.IsOpen s root place) :
    (fs.put content place).root.get? q = fs.root.get? q := by
  obtain ⟨names, n, access, entries, rfl, hidden, hd⟩ := h
  obtain ⟨names', access', content', rfl, hg⟩ := ho
  rw [get?_veiled] at hg
  obtain ⟨e, he, hg⟩ := Option.bind_eq_some_iff.mp hg
  rw [List.append_assoc] at hd ⊢
  refine get?_put_of_not_prefix content (fun hprefix => ?_) fs.root
  rw [get?_append, he, Option.bind_some] at hd
  exact not_prefix_of_veil hg hd hidden ((List.prefix_append_right_inj root).mp hprefix)

lemma Rewritten.append (h : Rewritten s root fs rewrites x) (h' : Rewritten s root x more fs') :
    Rewritten s root fs (rewrites ++ more) fs' := by
  induction h with
  | none fs => exact h'
  | write there tail ih => exact .write there (ih h')

lemma Rewritten.bare_eq (h : Rewritten s root fs rewrites fs') : fs'.bare = fs.bare := by
  induction h with
  | none fs => rfl
  | write there tail ih => rw [ih, bare_put]

theorem Rewritten.excluded (h : Rewritten s root fs rewrites fs') (hq : fs.IsExcluded s root q) :
    fs'.root.get? q = fs.root.get? q := by
  induction h with
  | none fs => rfl
  | @write fs fs' place content rest there tail ih =>
    have hput := hq.put content there
    obtain ⟨names, n, access, entries, hplace, hidden, hd⟩ := hq
    rw [ih ⟨names, n, access, entries, hplace, hidden, hput.trans hd⟩, hput]

namespace AgreeOutside

/-- The root in both file systems. -/
lemma dirs (h : AgreeOutside s root fs fs') :
    ∃ access entries entries', fs.root.get? root = some (.dir access entries) ∧
      fs'.root.get? root = some (.dir access entries') ∧
      (Entry.dir access entries').veil s.hides = (Entry.dir access entries).veil s.hides := by
  obtain ⟨access, entries, hg⟩ := h.dir
  have hroot : (fs'.veiled s root).root.get? (root ++ []) =
      (fs.veiled s root).root.get? (root ++ []) := by rw [h.same]
  rw [get?_veiled, get?_veiled, hg, Option.bind_some, Entry.get?_nil] at hroot
  obtain ⟨e', hg', hveil⟩ := Option.bind_eq_some_iff.mp hroot
  rw [Entry.get?_nil] at hveil
  obtain ⟨entries', rfl, hentries⟩ := eq_of_veil_eq_dir (Option.some.inj hveil)
  exact ⟨access, entries, entries', hg, hg', congrArg (Entry.dir access) hentries⟩

lemma isOpen_iff (h : AgreeOutside s root fs fs') :
    fs'.IsOpen s root place ↔ fs.IsOpen s root place := by
  rw [IsOpen, IsOpen, h.same]

/-- The same content is written to the same file. -/
lemma put (content : Bytes) (h : AgreeOutside s root fs fs') (ho : fs.IsOpen s root place) :
    AgreeOutside s root (fs.put content place) (fs'.put content place) := by
  have hs := shape_of_bare (bare_put fs content place)
  have hs' := shape_of_bare (bare_put fs' content place)
  obtain ⟨access, entries, hg⟩ := h.dir
  refine ⟨?_, ?_, ?_, ?_⟩
  · rw [locate_congr hs, h.here]
  · rw [locate_congr hs', h.here']
  · have hf : (fs.put content place).root.fileAt root = fs.root.fileAt root := by
      rw [put_eq_alterFile, alterFile, fileAt_alterFile, fileAt, hg]
      split <;> rfl
    rcases get?_root_congr hs hf with hput | ⟨a, es, es', -, hput⟩
    · exact ⟨access, entries, hput.trans hg⟩
    · exact ⟨a, es', hput⟩
  · rw [veiled_put content ho, veiled_put content (h.isOpen_iff.mpr ho), h.same]

/-- A collected file lies in no excluded directory. -/
lemma way_of_collected (h : AgreeOutside s root fs fs') (collected : s.collect fs = .ok ps)
    (hp : p ∈ ps) :
    ∃ names e access content, p = s.root.below names ∧ names ≠ [] ∧ fs.root.get? root = some e ∧
      (e.veil s.hides).get? names = some (.file access content) := by
  obtain ⟨a, entries, hg⟩ := h.dir
  rw [Selection.collect_eq_ok collected] at hp
  have hvisit := Walk.mem_files_iff.mp (List.mem_filter.mp hp).1
  unfold Selection.visits Walk.visitsFrom at hvisit
  rw [lstat_of_locate h.here hg] at hvisit
  dsimp only at hvisit
  split at hvisit
  · cases hvisit
  · have hvisit : .file p ∈ Walk.visits s.hides true (.dir a entries) s.root := hvisit
    rw [← Walk.visits_veil] at hvisit
    obtain ⟨names, access, content, hpath, hfile⟩ := Walk.file_of_mem_visits hvisit
    refine ⟨names, _, access, content, hpath, ?_, hg, hfile⟩
    rintro rfl
    cases hfile

/-- A collected file is found at the same place, if at all, and in no excluded directory. -/
lemma locate_eq (h : AgreeOutside s root fs fs') (collected : s.collect fs = .ok ps)
    (hp : p ∈ ps) :
    fs'.locate true p = fs.locate true p ∧
      ∀ place, fs.locate true p = .ok place → fs.IsOpen s root place ∧
        fs'.root.get? place = fs.root.get? place := by
  obtain ⟨names, e, access, content, rfl, hn, hg, hfile⟩ := h.way_of_collected collected hp
  obtain ⟨a, entries, entries', hd, hd', hveil⟩ := h.dirs
  obtain rfl := Option.some.inj (hg.symm.trans hd)
  have hfile' : ((Entry.dir a entries').veil s.hides).get? names = some (.file access content) := by
    rw [hveil, hfile]
  constructor
  · obtain ⟨links, hl⟩ := locate_below h.here ⟨a, entries, hd⟩ hn
    obtain ⟨links', hl'⟩ := locate_below h.here' ⟨a, entries', hd'⟩ hn
    rw [hl, hl', locateWithin_alike links links' (alike_of_veil hveil hfile) hd hd'
      (filter_bytes names)]
  · intro place hl
    have start := Walk.startsAt_of_locate h.here hd rfl
    obtain rfl := start.leads_below (get?_of_veil hfile) (locate_leads (.inl rfl) hl)
    refine ⟨⟨names, access, content, rfl, ?_⟩, ?_⟩
    · rw [get?_veiled, hd, Option.bind_some, hfile]
    · rw [get?_append, get?_append, hd, hd', Option.bind_some, Option.bind_some,
        get?_of_veil hfile, get?_of_veil hfile']

/-! Reading and writing a collected file. -/

lemma readText_eq (h : AgreeOutside s root fs fs') (collected : s.collect fs = .ok ps)
    (hp : p ∈ ps) : fs'.readText p = fs.readText p := by
  obtain ⟨hlocate, hplace⟩ := h.locate_eq collected hp
  have hstat : fs'.stat p = fs.stat p := by
    rw [stat, stat, hlocate]
    cases hl : fs.locate true p with
    | error e => rfl
    | ok place =>
      change fs'.entryAt place = fs.entryAt place
      rw [entryAt, entryAt, (hplace place hl).2]
  rw [readText, readText, read, read, hstat]

end AgreeOutside

end FileSystem

namespace Sweep
open FileSystem

/-- Two sweeps come to the same end. On the way they read, write, report and tell of the same in the
same order, all of it outside of excluded directories. -/
structure Matches (s : Selection) (root : Place) (fs fs' : FileSystem) (w w' : Sweep) : Prop where
  outcome : w'.outcome = w.outcome
  acts : w'.acts = w.acts
  files : ∃ rewrites, Rewritten s root fs rewrites w.files ∧ Rewritten s root fs' rewrites w'.files

variable {s : Selection} {root : Place} {dryRun : Bool} {report : Reporter}
  {earlier ps qs : List Path} {fs fs' x x' : FileSystem} {w w' : Sweep}
  {rewrites : List (Place × Bytes)}

lemma Matches.stop (first : Rewritten s root fs rewrites x)
    (first' : Rewritten s root fs' rewrites x') (acts : List Act)
    (outcome : Except Failure Tally) :
    Matches s root fs fs' ⟨x, acts, outcome⟩ ⟨x', acts, outcome⟩ :=
  ⟨rfl, rfl, rewrites, first, first'⟩

lemma Matches.afterUnmodified (h : Matches s root fs fs' w w') (acts : List Act) :
    Matches s root fs fs' (w.afterUnmodified acts) (w'.afterUnmodified acts) where
  outcome := congrArg (Except.map _) h.outcome
  acts := congrArg (acts ++ ·) h.acts
  files := h.files

lemma Matches.afterModified (h : Matches s root x x' w w') (first : Rewritten s root fs rewrites x)
    (first' : Rewritten s root fs' rewrites x') (acts : List Act) (p : Path) (removed : Nat) :
    Matches s root fs fs' (w.afterModified acts p removed)
      (w'.afterModified acts p removed) where
  outcome := congrArg (Except.map _) h.outcome
  acts := congrArg (acts ++ ·) h.acts
  files := by
    obtain ⟨more, hfiles, hfiles'⟩ := h.files
    exact ⟨rewrites ++ more, first.append hfiles, first'.append hfiles'⟩

end Sweep

namespace FileSystem
open Entry

variable {s : Selection} {root : Place} {fs fs' : FileSystem} {access : Access}
  {entries : List (Name × Entry)}

end FileSystem

namespace Sweep
open FileSystem

end Sweep
end LogSweep
