import LogSweep.Proofs.Candidates
import LogSweep.Proofs.Spelling

/-! Pruning loses nothing. A walk that enters no excluded directory collects the same files as one
that goes everywhere and leaves the choice to the paths of the files, because a path below an
excluded directory is no candidate. -/
namespace LogSweep

namespace Entry

mutual

/-- The paths of all files below an entry with a path, depth first and in the order of names. -/
def filesBelow : Entry → Path → List Path
  | .file _ _, p => [p]
  | .link _, _ => []
  | .dir _ entries, p => (filesBelowEach entries p).flatMap (·.2)

def filesBelowEach : List (Name × Entry) → Path → List (Name × List Path)
  | [], _ => []
  | (n, e) :: rest, p => Walk.arrange n (filesBelow e (p.join n.bytes)) (filesBelowEach rest p)

end

/-- A directory with a path can be listed, and if it contains directories it can be searched. -/
structure Lists (access : Access) (entries : List (Name × Entry)) (p : Path) : Prop where
  short : p.length < FileSystem.pathLimit
  read : access.read = true
  search : ∀ n e, child? n entries = some e → e.isDir = true → access.search = true

/-- An entry with a path and all directories below it can be listed. -/
def Listable (e : Entry) (p : Path) : Prop :=
  ∀ names access entries, e.get? names = some (.dir access entries) →
    Lists access entries (p.below names)

variable {access : Access} {entries : List (Name × Entry)} {e : Entry} {p q : Path} {n : Name}

lemma Listable.lists (h : (dir access entries).Listable p) : Lists access entries p :=
  h [] access entries rfl

lemma Listable.child (h : (dir access entries).Listable p) (he : child? n entries = some e) :
    e.Listable (p.join n.bytes) := by
  intro names access' entries' hg
  refine h (n :: names) access' entries' ?_
  rw [get?_cons_dir, he, Option.bind_some, hg]

lemma filesBelowEach_eq_byName (entries : List (Name × Entry)) (p : Path) :
    filesBelowEach entries p = Walk.byName (fun n e => e.filesBelow (p.join n.bytes)) entries := by
  induction entries with
  | nil => rfl
  | cons x rest ih => rw [filesBelowEach, ih, Walk.byName]

/-- The files below an entry are those at all places below it. -/
theorem mem_filesBelow_iff : q ∈ e.filesBelow p ↔
    ∃ names access content, q = p.below names ∧ e.get? names = some (.file access content) := by
  induction e using Entry.induct generalizing p with
  | file access content =>
    rw [filesBelow, List.mem_singleton]
    constructor
    · rintro rfl
      exact ⟨[], access, content, rfl, rfl⟩
    · rintro ⟨names, access', content', rfl, hg⟩
      cases names with
      | nil => rfl
      | cons n names => cases hg
  | link target =>
    rw [filesBelow]
    constructor
    · rintro ⟨⟩
    · rintro ⟨names, access', content', rfl, hg⟩
      cases names <;> cases hg
  | dir access entries ih =>
    rw [filesBelow, List.mem_flatMap]
    constructor
    · rintro ⟨⟨n, ps⟩, hmem, hq⟩
      rw [filesBelowEach_eq_byName, Walk.mem_byName_iff] at hmem
      obtain ⟨e, he, rfl⟩ := hmem
      obtain ⟨names, access', content, hpath, hg⟩ := (ih n e he).mp hq
      refine ⟨n :: names, access', content, hpath, ?_⟩
      rw [get?_cons_dir, he, Option.bind_some, hg]
    · rintro ⟨names, access', content, rfl, hg⟩
      cases names with
      | nil => cases hg
      | cons n names =>
        rw [get?_cons_dir] at hg
        obtain ⟨e, he, hg⟩ := Option.bind_eq_some_iff.mp hg
        refine ⟨(n, e.filesBelow (p.join n.bytes)), ?_, ?_⟩
        · rw [filesBelowEach_eq_byName, Walk.mem_byName_iff]
          exact ⟨e, he, rfl⟩
        · exact (ih n e he).mpr ⟨names, access', content, rfl, hg⟩

end Entry

/-- The paths of all files that a walk from a path meets if it goes everywhere. A link is followed
at this path only, and only to a directory. -/
def FileSystem.filesFrom (fs : FileSystem) (root : Path) : List Path :=
  match fs.lstat root, fs.stat root with
  | .ok (.link _), .ok (.file _ _) => []
  | _, .ok e => e.filesBelow root
  | _, .error _ => []

namespace Walk

variable {e : Entry} {p : Path}

/-- Where everything can be listed, a walk does not fail. -/
lemma visits_failure? (skip : Name → Bool) {reachable : Bool} (listable : e.Listable p)
    (reached : e.isDir = true → reachable = true) :
    ∀ v ∈ visits skip reachable e p, v.failure? = none := by
  induction e using Entry.induct generalizing p reachable with
  | file access content =>
    intro v hv
    rw [visits, List.mem_singleton] at hv
    rw [hv]
    rfl
  | link target => simp [visits]
  | dir access entries ih =>
    intro v hv
    obtain ⟨short, read, search⟩ := listable.lists
    rw [visits, if_neg (by omega), reached rfl, read, Bool.and_true, if_pos rfl] at hv
    obtain ⟨⟨n, vs⟩, hmem, hv⟩ := List.mem_flatMap.mp hv
    obtain ⟨e, he, rfl⟩ := mem_visitsBelow_iff.mp hmem
    split at hv
    · cases hv
    · exact ih n e he (listable.child he) (search n e he) v hv

/-- Where a walk that goes everywhere does not fail, everything can be listed. -/
lemma listable_of_visits {reachable : Bool}
    (h : ∀ v ∈ visits (fun _ => false) reachable e p, v.failure? = none) :
    e.Listable p ∧ (e.isDir = true → reachable = true) := by
  induction e using Entry.induct generalizing p reachable with
  | file access content =>
    refine ⟨fun names access' entries hg => ?_, nofun⟩
    cases names <;> cases hg
  | link target =>
    refine ⟨fun names access entries hg => ?_, nofun⟩
    cases names <;> cases hg
  | dir access entries ih =>
    rw [visits] at h
    split at h
    · cases h _ (List.mem_singleton_self _)
    split at h
    · next hlong hreach =>
      obtain ⟨reached, read⟩ := Bool.and_eq_true_iff.mp hreach
      have hchild (n : Name) (e : Entry) (he : Entry.child? n entries = some e) :
          e.Listable (p.join n.bytes) ∧ (e.isDir = true → access.search = true) := by
        refine ih n e he fun v hv => h v (List.mem_flatMap.mpr ⟨(n, _), ?_, hv⟩)
        rw [mem_visitsBelow_iff]
        exact ⟨e, he, by rw [Bool.and_false, if_neg Bool.false_ne_true]⟩
      refine ⟨fun names access' entries' hg => ?_, fun _ => reached⟩
      cases names with
      | nil =>
        cases hg
        exact ⟨by simpa using hlong, read, fun n e he => (hchild n e he).2⟩
      | cons n names =>
        rw [Entry.get?_cons_dir] at hg
        obtain ⟨e, he, hg⟩ := Option.bind_eq_some_iff.mp hg
        exact (hchild n e he).1 names access' entries' hg
    · cases h _ (List.mem_singleton_self _)

theorem listable_iff :
    e.Listable p ↔ ∀ v ∈ visits (fun _ => false) true e p, v.failure? = none :=
  ⟨fun h => visits_failure? _ h fun _ => rfl, fun h => (listable_of_visits h).1⟩

instance (e : Entry) (p : Path) : Decidable (e.Listable p) :=
  decidable_of_iff _ listable_iff.symm

end Walk

namespace Selection

variable {s : Selection} {e : Entry} {p : Path}

/-- No file below an excluded directory is a candidate. -/
lemma filter_filesBelow_of_excludes (named : ∀ n ∈ s.excluded, '/' ∉ n) (hp : p ≠ [])
    (h : s.excludes p.lastName = true) : (e.filesBelow p).filter s.isCandidate = [] := by
  rw [List.filter_eq_nil_iff]
  intro q hq
  obtain ⟨names, -, -, rfl, -⟩ := Entry.mem_filesBelow_iff.mp hq
  rw [not_isCandidate_below named hp h]
  exact Bool.false_ne_true

/-- Among the files below an entry, a walk that enters no excluded directory visits all candidates,
and in the same order. -/
lemma filter_visits (named : ∀ n ∈ s.excluded, '/' ∉ n) (hp : p ≠ []) {reachable : Bool}
    (listable : e.Listable p) (reached : e.isDir = true → reachable = true) :
    ((Walk.visits (fun n => s.excludes n.bytes) reachable e p).filterMap Visit.file?).filter
      s.isCandidate = (e.filesBelow p).filter s.isCandidate := by
  induction e using Entry.induct generalizing p reachable with
  | file access content => rfl
  | link target => rfl
  | dir access entries ih =>
    obtain ⟨short, read, search⟩ := listable.lists
    rw [Walk.visits, if_neg (by omega), reached rfl, read, Bool.and_true, if_pos rfl,
      Entry.filesBelow, Entry.filesBelowEach_eq_byName, Walk.visitsBelow_eq_byName,
      List.filterMap_flatMap, List.filter_flatMap, List.filter_flatMap]
    refine Walk.flatMap_byName_congr
      (fun vs : List Visit => (vs.filterMap Visit.file?).filter s.isCandidate)
      (fun ps : List Path => ps.filter s.isCandidate)
      fun n e he => ?_
    have hjoin := Path.join_name_ne_nil p n
    split
    · next hskip =>
      have hx : s.excludes (p.join n.bytes).lastName = true := by
        rw [Path.lastName_join hp]
        exact (Bool.and_eq_true_iff.mp hskip).2
      rw [filter_filesBelow_of_excludes named hjoin hx]
      rfl
    · exact ih n e he hjoin (listable.child he) (search n e he)

variable {fs : FileSystem}

/-- From a root that resolves, a walk does not fail and visits all candidates that there are. -/
lemma visits_complete (resolves : fs.stat s.root = .ok e) (listable : e.Listable s.root)
    (named : ∀ n ∈ s.excluded, '/' ∉ n) :
    (∀ v ∈ s.visits fs, v.failure? = none) ∧
    ((s.visits fs).filterMap Visit.file?).filter s.isCandidate =
      (fs.filesFrom s.root).filter s.isCandidate := by
  have hroot := FileSystem.ne_nil_of_stat resolves
  have hfail := Walk.visits_failure? (fun n => s.excludes n.bytes) listable fun _ => rfl
  have hfiles := filter_visits named hroot listable fun _ => rfl
  unfold visits Walk.visitsFrom FileSystem.filesFrom
  rcases FileSystem.lstat_of_stat resolves with hl | ⟨target, hl⟩
  · rw [hl, resolves]
    cases e with
    | file access content => exact ⟨hfail, hfiles⟩
    | link target => exact ⟨nofun, rfl⟩
    | dir access entries =>
      dsimp only
      split
      · next hx => exact ⟨nofun, (filter_filesBelow_of_excludes named hroot hx).symm⟩
      · exact ⟨hfail, hfiles⟩
  · rw [hl, resolves]
    cases e with
    | file access content => exact ⟨nofun, rfl⟩
    | link target => exact ⟨nofun, rfl⟩
    | dir access entries => exact ⟨hfail, hfiles⟩

/-- Where everything below the root can be listed, the collected files are the candidates among all
files that there are, in the order in which a walk meets them that goes everywhere. No path below a
directory with an excluded name is a candidate, however the root is spelled. -/
theorem collect_eq_candidates (s : Selection) (fs : FileSystem)
    (resolves : fs.stat s.root = .ok e) (listable : e.Listable s.root)
    (named : ∀ n ∈ s.excluded, '/' ∉ n) :
    s.collect fs = .ok ((fs.filesFrom s.root).filter s.isCandidate) ∧
    ∀ names more, s.excludes (s.root.below names).lastName = true →
      s.isCandidate (s.root.below (names ++ more)) = false := by
  obtain ⟨hfail, hfiles⟩ := visits_complete resolves listable named
  constructor
  · unfold collect
    dsimp only
    rw [List.findSome?_eq_none_iff.mpr hfail, hfiles]
  · intro names more hx
    have hroot := FileSystem.ne_nil_of_stat resolves
    rw [Path.below_append]
    exact not_isCandidate_below named (Path.below_ne_nil hroot names) hx more

theorem collect_eq_candidates_linked_root :
    let a : Name := ⟨[0x61, 0x2E, 0x74], by decide⟩
    let b : Name := ⟨[0x62, 0x2E, 0x74], by decide⟩
    let dist : Name := ⟨[0x64], by decide⟩
    let src : Entry := .dir {} [(b, .file {} []), (dist, .dir {} [(a, .file {} [])]),
      (a, .file {} [])]
    let fs : FileSystem := ⟨.dir {} [(⟨[0x73], by decide⟩, src),
      (⟨[0x6C], by decide⟩, .link [0x2E, 0x2F, 0x73])], []⟩
    let s : Selection := ⟨[0x6C], [['t']], [['d']]⟩
    s.collect fs = .ok [s.root.below [a], s.root.below [b]] ∧
    fs.filesFrom s.root =
      [s.root.below [a], s.root.below [b], s.root.below [dist, a]] ∧
    s.isCandidate (s.root.below [dist, a]) = false := by
  intro a b dist src fs s
  have resolves : fs.stat s.root = .ok src := rfl
  have listable : src.Listable s.root := by decide +kernel
  have named : ∀ n ∈ s.excluded, '/' ∉ n := by decide
  obtain ⟨hcollect, hbelow⟩ := collect_eq_candidates s fs resolves listable named
  have hfiles : fs.filesFrom s.root =
      [s.root.below [a], s.root.below [b], s.root.below [dist, a]] := rfl
  refine ⟨?_, hfiles, hbelow [dist] [a] (by decide +kernel)⟩
  rw [hcollect, hfiles]
  rfl

/-- An excluded spelling with a slash keeps the root out, but none of the paths below it. -/
example :
    let fs : FileSystem := ⟨.dir {} [(⟨[0x61], by decide⟩, .dir {} []),
      (⟨[0x62, 0x2E, 0x74], by decide⟩, .file {} [])], []⟩
    let s : Selection := ⟨Path.ofText "a/..".toList, [['t']], ["a/..".toList]⟩
    s.collect fs = .ok [] ∧
    (fs.filesFrom s.root).filter s.isCandidate = [Path.ofText "a/../b.t".toList] :=
  ⟨rfl, by decide +kernel⟩

end Selection
end LogSweep
