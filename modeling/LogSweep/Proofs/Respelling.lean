import LogSweep.Proofs.Descent
import LogSweep.Proofs.PathParts
import LogSweep.Proofs.Pruning
import LogSweep.Proofs.Transcript

/-! Two spellings of a root. Slashes that repeat and parts that are `.` are no components, and paths
with the same components lead to the same place. So a sweep does the same from both spellings and
names each file by the same way below the root, unless one of the spellings makes a path too long.
-/
namespace LogSweep

namespace FileSystem
open Entry

variable {root : Entry} {xs ys rest : List Part} {part : Part} {here there : Place}

lemma ne_dot_of_named? {entries : List (Name × Entry)} {x : Name × Entry}
    (found : named? part entries = some x) : part ≠ [Path.dot] := by
  rintro rfl
  simp [named?_dot] at found

/-- In front of a part, parts that are `.` lead nowhere. -/
lemma Leads.of_dots (hpart : part ≠ [Path.dot])
    (h : ys.filter (· ≠ [Path.dot]) = (part :: rest).filter (· ≠ [Path.dot])) :
    ∃ ys', ys'.filter (· ≠ [Path.dot]) = rest.filter (· ≠ [Path.dot]) ∧
      ∀ here there, Leads root (part :: ys') here there → Leads root ys here there := by
  rw [List.filter_cons_of_pos (by simpa using hpart)] at h
  induction ys with
  | nil => cases h
  | cons y ys ih =>
    by_cases hy : y = [Path.dot]
    · subst hy
      rw [List.filter_cons_of_neg (by simp)] at h
      obtain ⟨ys', hys', hleads⟩ := ih h
      exact ⟨ys', hys', fun here there tail => .stay (hleads here there tail)⟩
    · rw [List.filter_cons_of_pos (by simpa using hy)] at h
      obtain ⟨rfl, hrest⟩ := List.cons.inj h
      exact ⟨ys, hrest, fun _ _ tail => tail⟩

lemma leads_of_filter_eq_nil (h : ys.filter (· ≠ [Path.dot]) = []) : Leads root ys here here := by
  induction ys with
  | nil => exact .stop here
  | cons y ys ih =>
    have hdots := List.filter_eq_nil_iff.mp h
    obtain rfl : y = [Path.dot] := by simpa using hdots y List.mem_cons_self
    rw [List.filter_cons_of_neg (by simp)] at h
    exact .stay (ih h)

/-- Where steps lead does not depend on the parts among them that are `.`. -/
theorem Leads.of_filter_eq (h : Leads root xs here there)
    (hf : ys.filter (· ≠ [Path.dot]) = xs.filter (· ≠ [Path.dot])) : Leads root ys here there := by
  induction h generalizing ys with
  | stop here => exact leads_of_filter_eq_nil hf
  | stay tail ih => exact ih (hf.trans (List.filter_cons_of_neg (by simp)))
  | up tail ih =>
    obtain ⟨ys', hys', hleads⟩ := of_dots (by decide) hf
    exact hleads _ _ (.up (ih hys'))
  | follow dir found tail ih =>
    obtain ⟨ys', hys', hleads⟩ := of_dots (ne_dot_of_named? found) hf
    -- the parts of the target are the same
    refine hleads _ _ (.follow dir found (ih ?_))
    rw [List.filter_append, List.filter_append, hys']
  | enter dir found real tail ih =>
    obtain ⟨ys', hys', hleads⟩ := of_dots (ne_dot_of_named? found) hf
    exact hleads _ _ (.enter dir found real (ih hys'))

end FileSystem

namespace FileSystem
open Walk

variable {fs : FileSystem} {root root' : Path} {e e' : Entry}

/-- Paths with the same components that name directories name the same one. -/
theorem locate_of_components (components : root'.components = root.components)
    (here : fs.lstat root = .ok e) (dir : e.isDir) (here' : fs.lstat root' = .ok e')
    (dir' : e'.isDir) :
    ∃ place, fs.locate false root = .ok place ∧ fs.locate false root' = .ok place ∧
      fs.root.get? place = some e ∧ e = e' := by
  obtain ⟨place, hl, hg⟩ := entry_of_locate here
  obtain ⟨place', hl', hg'⟩ := entry_of_locate here'
  have real {x : Entry} (hx : x.isDir) : x.isLink = false := by
    cases x with
    | link target => cases hx
    | file access content => rfl
    | dir access entries => rfl
  have hstart : fs.start root' = fs.start root := by
    have habsolute : root'.isAbsolute = root.isAbsolute :=
      Bool.eq_iff_iff.mpr (by rw [← Path.root_mem_components, components, Path.root_mem_components])
    rw [start, habsolute, start]
  have hparts : root'.parts.filter (· ≠ [Path.dot]) = root.parts.filter (· ≠ [Path.dot]) := by
    rw [Path.filter_parts, components, Path.filter_parts]
  have hleads := (startsAt_of_locate hl hg (real dir)).leads.of_steps
  have hleads' := (startsAt_of_locate hl' hg' (real dir')).leads.of_steps
  rw [hstart] at hleads'
  obtain rfl := (hleads'.of_filter_eq hparts.symm).unique hleads
  exact ⟨place', hl, hl', hg, Option.some.inj (hg.symm.trans hg')⟩

end FileSystem

namespace Entry

variable {e : Entry} {names : List Name} {access : Access} {content : Bytes}

/-- The way to a file is alike in a tree and itself. -/
lemma alike_of_get? (hg : e.get? names = some (.file access content)) : Alike names e e := by
  induction names generalizing e with
  | nil =>
    obtain rfl := Option.some.inj ((get?_nil e).symm.trans hg)
    exact .file access content
  | cons n names ih =>
    cases e with
    | file access content => cases hg
    | link target => cases hg
    | dir access entries =>
      rw [get?_cons_dir] at hg
      obtain ⟨c, hc, hg⟩ := Option.bind_eq_some_iff.mp hg
      exact .child hc hc (ih hg)

/-- The files below an entry are reached on the same ways from every path of the entry. -/
theorem filesBelow_eq_map (e : Entry) :
    ∃ ways : List (List Name), ∀ p, e.filesBelow p = ways.map p.below := by
  induction e using Entry.induct with
  | file access content => exact ⟨[[]], fun p => rfl⟩
  | link target => exact ⟨[], fun p => rfl⟩
  | dir access entries ih =>
    choose! ways hways using ih
    refine ⟨(Walk.byName (fun n e => (ways n e).map (n :: ·)) entries).flatMap (·.2), fun p => ?_⟩
    rw [filesBelow, filesBelowEach_eq_byName, List.map_flatMap]
    refine Walk.flatMap_byName_congr id (List.map p.below) fun n e he => ?_
    rw [id, hways n e he, List.map_map]
    rfl

end Entry

namespace FileSystem
open Entry

variable {fs fs' : FileSystem} {p p' root root' : Path} {place : Place} {names : List Name}
  {access access' : Access} {entries : List (Name × Entry)} {content : Bytes}

/-- From two paths of one directory the same file is found below it, if both paths to it keep the
limit or neither does. -/
lemma locate_below_eq (here : fs.locate false root = .ok place)
    (here' : fs.locate false root' = .ok place)
    (dir : fs.root.get? place = some (.dir access entries))
    (hg : (Entry.dir access entries).get? names = some (.file access' content))
    (limit : pathLimit ≤ (root'.below names).length ↔ pathLimit ≤ (root.below names).length) :
    fs.locate true (root'.below names) = fs.locate true (root.below names) := by
  have hn : names ≠ [] := by
    rintro rfl
    cases hg
  obtain ⟨links, hlocate⟩ := locate_below here ⟨_, _, dir⟩ hn
  obtain ⟨links', hlocate'⟩ := locate_below here' ⟨_, _, dir⟩ hn
  have hzero : (root'.below names).contains 0 = (root.below names).contains 0 := by
    have hmem : 0 ∈ root'.below names ↔ 0 ∈ root.below names := by
      rw [Path.mem_below (by decide), Path.mem_below (by decide)]
      exact or_congr_left (iff_of_false (locate_eq_ok.mp here').1 (locate_eq_ok.mp here).1)
    exact Bool.eq_iff_iff.mpr (by simpa using hmem)
  have hwithin : locateWithin fs.root true links' (names.map Name.bytes) place =
      locateWithin fs.root true links (names.map Name.bytes) place :=
    locateWithin_alike links links' (alike_of_get? hg) dir dir (filter_bytes names)
  rw [hlocate, hlocate', hzero, hwithin]
  simp only [limit]

/-! Paths that lead to the same file are read and written alike. -/

lemma readText_eq_of_locate (h : fs.locate true p' = fs.locate true p) :
    fs.readText p' = fs.readText p := by
  rw [readText, readText, read, read, stat, stat, h]

lemma rewrite_eq_of_locate (h : fs.locate true p' = fs.locate true p) (dryRun : Bool) (t : Text) :
    fs.rewrite dryRun p' t = fs.rewrite dryRun p t := by
  rw [rewrite, rewrite, writeText, writeText, write, write, h]

end FileSystem

/-- Two reporters give the same answers when they are told the same ways below two roots. -/
def Reporter.AnswersAlike (root root' : Path) (report report' : Reporter) : Prop :=
  ∀ (earlier : List (List Name)) (names : List Name) (fs : FileSystem),
    (report' (earlier.map root'.below) (root'.below names) fs).2 =
      (report (earlier.map root.below) (root.below names) fs).2

/-- An output only counts the lines before. -/
theorem Output.reporter_answersAlike (out : Output) (root root' : Path) :
    out.reporter.AnswersAlike root root' out.reporter := fun earlier names fs => by
  simp only [Output.reporter, List.length_map]

namespace Sweep
open FileSystem

/-- Two sweeps end alike: both count the same and have modified the files on the same ways below
their roots, or both fail for the same reason at a file on the same way. -/
inductive EndsAlike (root root' : Path) : Except Failure Tally → Except Failure Tally → Prop
  | ok (examined : Nat) (ways : List (List Name)) (removed : Nat) :
      EndsAlike root root' (.ok ⟨examined, ways.map root.below, removed⟩)
        (.ok ⟨examined, ways.map root'.below, removed⟩)
  | read (names : List Name) (e : IoError) :
      EndsAlike root root' (.error (.read (root.below names) e))
        (.error (.read (root'.below names) e))
  | write (names : List Name) (e : IoError) :
      EndsAlike root root' (.error (.write (root.below names) e))
        (.error (.write (root'.below names) e))
  | report (e : IoError) : EndsAlike root root' (.error (.report e)) (.error (.report e))

/-- Two sweeps leave the same files, report the same ways below their roots and end alike. -/
structure Respells (root root' : Path) (w w' : Sweep) : Prop where
  files : w'.files = w.files
  reported : ∃ ways : List (List Name),
    w.reported = ways.map root.below ∧ w'.reported = ways.map root'.below
  outcome : EndsAlike root root' w.outcome w'.outcome

variable {root root' : Path} {dryRun : Bool} {report report' : Reporter}
  {ways : List (List Name)} {fs : FileSystem} {w w' : Sweep}

/-- Counts that change alike end alike. -/
lemma EndsAlike.map {o o' : Except Failure Tally} {f f' : Tally → Tally}
    (h : EndsAlike root root' o o')
    (ok : ∀ examined (ways : List (List Name)) removed, EndsAlike root root'
      (.ok (f ⟨examined, ways.map root.below, removed⟩))
      (.ok (f' ⟨examined, ways.map root'.below, removed⟩))) :
    EndsAlike root root' (o.map f) (o'.map f') := by
  cases h with
  | ok examined ways removed => exact ok examined ways removed
  | read names e => exact .read names e
  | write names e => exact .write names e
  | report e => exact .report e

lemma Respells.afterUnmodified (h : Respells root root' w w') (names : List Name) (t : Text) :
    Respells root root' (w.afterUnmodified (turn (root.below names) t []))
      (w'.afterUnmodified (turn (root'.below names) t [])) where
  files := h.files
  reported := by simpa using h.reported
  outcome := h.outcome.map fun examined ways removed => .ok (examined + 1) ways removed

lemma Respells.afterModified (h : Respells root root' w w') (names : List Name) (t : Text) :
    Respells root root'
      (w.afterModified (modifiedTurn dryRun (root.below names) t none) (root.below names)
        t.clean.removed)
      (w'.afterModified (modifiedTurn dryRun (root'.below names) t none) (root'.below names)
        t.clean.removed) where
  files := h.files
  reported := by
    obtain ⟨ways, hw, hw'⟩ := h.reported
    exact ⟨names :: ways, by simp [hw], by simp [hw']⟩
  outcome := h.outcome.map fun examined ways more =>
    .ok (examined + 1) (names :: ways) (t.clean.removed + more)

/-- Files on the same ways below two roots are swept alike if the same places are found there. -/
theorem each_respells (quiet : report.IsQuiet) (quiet' : report'.IsQuiet)
    (alike : report.AnswersAlike root root' report')
    (found : ∀ names ∈ ways, fs.locate true (root'.below names) = fs.locate true (root.below names))
    (earlier : List (List Name)) :
    Respells root root' (each dryRun report (earlier.map root.below) (ways.map root.below) fs)
      (each dryRun report' (earlier.map root'.below) (ways.map root'.below) fs) := by
  induction ways generalizing earlier fs with
  | nil => exact ⟨rfl, ⟨[], rfl, rfl⟩, .ok 0 [] 0⟩
  | cons names ways ih =>
    obtain ⟨hnames, hways⟩ := List.forall_mem_cons.mp found
    have hread := readText_eq_of_locate hnames
    have hrewrite := rewrite_eq_of_locate hnames dryRun
    rw [List.map_cons, List.map_cons]
    cases read : fs.readText (root.below names) with
    | error e =>
      rw [each_cons_unreadable read, each_cons_unreadable (hread.trans read)]
      exact ⟨rfl, ⟨[], rfl, rfl⟩, .read names e⟩
    | ok t =>
      have read' := hread.trans read
      cases changed : t.clean.changed with
      | false =>
        rw [each_cons_unmodified read changed, each_cons_unmodified read' changed]
        exact (ih hways earlier).afterUnmodified names t
      | true =>
        cases write : fs.rewrite dryRun (root.below names) t.clean.text with
        | error e =>
          obtain ⟨rfl, hwrite⟩ := rewrite_eq_error write
          obtain ⟨-, hwrite'⟩ := rewrite_eq_error ((hrewrite _).trans write)
          rw [each_cons_unwritable read changed hwrite, each_cons_unwritable read' changed hwrite']
          exact ⟨rfl, ⟨[], reported_turn .., reported_turn ..⟩, .write names e⟩
        | ok x =>
          have hfile := file_of_rewrite read changed write
          have hfile' := file_of_rewrite read' changed ((hrewrite _).trans write)
          have hanswer := alike earlier names x
          cases answer : (report (earlier.map root.below) (root.below names) x).2 with
          | some e =>
            rw [each_cons_refused quiet hfile answer,
              each_cons_refused quiet' hfile' (hanswer.trans answer)]
            exact ⟨rfl, ⟨[names], by simp, by simp⟩, .report e⟩
          | none =>
            rw [each_cons_accepted quiet hfile answer,
              each_cons_accepted quiet' hfile' (hanswer.trans answer)]
            -- what is written moves no file
            have hshape := shape_of_bare (rewrite_frame read write).1
            have hfound : ∀ names ∈ ways,
                x.locate true (root'.below names) = x.locate true (root.below names) := by
              intro names hmem
              rw [locate_congr hshape, locate_congr hshape, hways names hmem]
            have hrest := ih hfound (earlier ++ [names])
            rw [List.map_append, List.map_append] at hrest
            exact hrest.afterModified names t

end Sweep

namespace Selection
open FileSystem

variable {s : Selection} {fs : FileSystem} {access : Access} {entries : List (Name × Entry)}

/-- From a directory that can be listed with all below it, all candidates are collected. -/
lemma collect_of_listable (here : fs.lstat s.root = .ok (.dir access entries))
    (listable : (Entry.dir access entries).Listable s.root) (named : ∀ n ∈ s.excluded, '/' ∉ n) :
    s.collect fs = .ok (((Entry.dir access entries).filesBelow s.root).filter s.isCandidate) := by
  have resolves := stat_of_dir here
  obtain ⟨hfail, hfiles⟩ := visits_complete resolves listable named
  unfold collect
  dsimp only
  rw [List.findSome?_eq_none_iff.mpr hfail, hfiles, filesFrom, here, resolves]

/-- From two paths of one directory that have the same components, the files on the same ways are
collected. -/
lemma collect_respelled {root' : Path} (components : root'.components = s.root.components)
    (here : fs.lstat s.root = .ok (.dir access entries))
    (here' : fs.lstat root' = .ok (.dir access entries))
    (listable : (Entry.dir access entries).Listable s.root)
    (listable' : (Entry.dir access entries).Listable root') (named : ∀ n ∈ s.excluded, '/' ∉ n) :
    ∃ ways : List (List Name), s.collect fs = .ok (ways.map s.root.below) ∧
      { s with root := root' }.collect fs = .ok (ways.map root'.below) ∧
      ∀ names ∈ ways, ∃ access' content,
        (Entry.dir access entries).get? names = some (.file access' content) := by
  obtain ⟨all, hall⟩ := Entry.filesBelow_eq_map (.dir access entries)
  refine ⟨all.filter (s.isCandidate ∘ s.root.below), ?_, ?_, fun names hmem => ?_⟩
  · rw [collect_of_listable here listable named, hall, List.filter_map]
  · let s' := { s with root := root' }
    have hcandidate : s'.isCandidate ∘ root'.below = s.isCandidate ∘ s.root.below := by
      refine funext fun names => ?_
      have hbelow := Path.components_below_congr (ne_nil_of_lstat here') (ne_nil_of_lstat here)
        components names
      exact isCandidate_congr (s := s) hbelow
    rw [collect_of_listable (s := s') here' listable' named, hall, List.filter_map, hcandidate]
  · have hfile : s.root.below names ∈ (Entry.dir access entries).filesBelow s.root := by
      rw [hall]
      exact List.mem_map_of_mem (List.mem_of_mem_filter hmem)
    obtain ⟨names', access', content, hnames, hg⟩ := Entry.mem_filesBelow_iff.mp hfile
    obtain rfl := Path.below_injective hnames
    exact ⟨access', content, hg⟩

end Selection

namespace Sweep
open FileSystem

/-- Respelling the root of a selection changes nothing but the spelling of what is reported. Where
two paths with the same components name a directory and everything below it can be listed from both,
the files that are collected lie on the same ways below the two paths. A sweep from either path
leaves the same files and ends alike, if the path to each of these files keeps the limit from both
or from neither, and the reporters leave all files alone and give the same answers. -/
theorem tree_respelled (s : Selection) (root' : Path) (fs : FileSystem) {access : Access}
    {entries : List (Name × Entry)} (components : root'.components = s.root.components)
    (here : fs.lstat s.root = .ok (.dir access entries))
    (here' : ∃ e, fs.lstat root' = .ok e ∧ e.isDir)
    (listable : (Entry.dir access entries).Listable s.root)
    (listable' : (Entry.dir access entries).Listable root')
    (named : ∀ n ∈ s.excluded, '/' ∉ n) :
    let s' := { s with root := root' }
    ∃ ways : List (List Name),
      s.collect fs = .ok (ways.map s.root.below) ∧ s'.collect fs = .ok (ways.map root'.below) ∧
      (∀ names, (root'.below names).components = (s.root.below names).components) ∧
      ∀ dryRun report report', Reporter.IsQuiet report → Reporter.IsQuiet report' →
        Reporter.AnswersAlike s.root root' report report' →
        (∀ names ∈ ways,
          pathLimit ≤ (root'.below names).length ↔ pathLimit ≤ (s.root.below names).length) →
        Respells s.root root' (tree s dryRun report fs) (tree s' dryRun report' fs) := by
  intro s'
  obtain ⟨e, hlstat, hdir⟩ := here'
  obtain ⟨place, hl, hl', hg, rfl⟩ := locate_of_components components here rfl hlstat hdir
  obtain ⟨ways, hcollect, hcollect', hways⟩ :=
    Selection.collect_respelled components here hlstat listable listable' named
  refine ⟨ways, hcollect, hcollect', Path.components_below_congr (ne_nil_of_locate hl')
    (ne_nil_of_locate hl) components, fun dryRun report report' quiet quiet' alike limit => ?_⟩
  rw [tree, tree, hcollect, hcollect']
  refine each_respells quiet quiet' alike (fun names hmem => ?_) []
  obtain ⟨access', content, hfile⟩ := hways names hmem
  exact locate_below_eq hl hl' hg hfile (limit names hmem)

theorem tree_respelled_dots :
    let a : Name := ⟨[0x61, 0x2E, 0x74], by decide⟩
    let b : Name := ⟨[0x62, 0x2E, 0x74], by decide⟩
    let sub : Name := ⟨[0x64], by decide⟩
    let file : Entry := .file {} (Utf8.encode "logger.info();\nx".toList)
    let src : Entry := .dir {} [(b, file), (sub, .dir {} [(a, file)])]
    let fs : FileSystem := ⟨.dir {} [(⟨[0x73], by decide⟩, src)], []⟩
    let s : Selection := ⟨Path.ofText "./s".toList, [['t']], [['n']]⟩
    let root' : Path := Path.ofText ".//s/./".toList
    let w := tree s false (Output.reporter {}) fs
    let w' := tree { s with root := root' } false (Output.reporter {}) fs
    Respells s.root root' w w' ∧ w.reported = [s.root.below [b], s.root.below [sub, a]] := by
  intro a b sub file src fs s root' w w'
  have components : root'.components = s.root.components := by decide
  have here : fs.lstat s.root = .ok src := rfl
  have here' : ∃ e, fs.lstat root' = .ok e ∧ e.isDir := ⟨src, rfl, rfl⟩
  have listable : src.Listable s.root := by decide +kernel
  have listable' : src.Listable root' := by decide +kernel
  have named : ∀ n ∈ s.excluded, '/' ∉ n := by decide
  obtain ⟨ways, hcollect, -, -, hsweep⟩ :=
    tree_respelled s root' fs components here here' listable listable' named
  have quiet := Output.reporter_isQuiet {}
  have hmap : ways.map s.root.below = [[b], [sub, a]].map s.root.below :=
    Except.ok.inj (hcollect.symm.trans rfl)
  obtain rfl := List.map_injective_iff.mpr (fun _ _ => Path.below_injective) hmap
  have limit : ∀ names ∈ [[b], [sub, a]],
      pathLimit ≤ (root'.below names).length ↔ pathLimit ≤ (s.root.below names).length := by
    decide +kernel
  have alike := Output.reporter_answersAlike {} s.root root'
  exact ⟨hsweep false _ _ quiet quiet alike limit, by decide +kernel⟩

/-- A spelling that makes the path to a file too long keeps the file from being read, though it is
collected. And a reporter that looks at the paths can tell two spellings apart. -/
theorem tree_respelled_too_long :
    let a : Name := ⟨[0x61, 0x2E, 0x74, 0x73], by decide⟩
    let src : Entry := .dir {} [(a, .file {} (Utf8.encode "logger.info();\nx".toList))]
    let fs : FileSystem := ⟨.dir {} [(⟨[0x73], by decide⟩, src)], []⟩
    let root (slashes : Nat) : Path := [0x73] ++ List.replicate slashes Path.slash
    let s (slashes : Nat) : Selection := ⟨root slashes, [['t', 's']], []⟩
    let choosy : Reporter := fun _ p fs =>
      (fs, if p = (root 0).below [a] then none else some .denied)
    let w (slashes : Nat) (report : Reporter) : Sweep := tree (s slashes) false report fs
    (∀ slashes, (root slashes).components = (root 0).components) ∧
    (fs.lstat (root 0)).toOption.any Entry.isDir ∧
    (fs.lstat (root 4092)).toOption.any Entry.isDir ∧
    ((s 4092).collect fs).toOption.map List.length = some 1 ∧
    (w 0 (Output.reporter {})).outcome = .ok ⟨1, [(root 0).below [a]], 1⟩ ∧
    (w 4092 (Output.reporter {})).outcome.toOption = none ∧
    choosy.IsQuiet ∧ (w 0 choosy).outcome.isOk ∧ (w 2 choosy).outcome.isOk = false := by
  dsimp only
  refine ⟨fun slashes => Path.components_append_slashes (by decide) slashes, by decide +kernel,
    by decide +kernel, by decide +kernel, rfl, by decide +kernel, fun _ _ _ => rfl,
    by decide +kernel, by decide +kernel⟩

end Sweep
end LogSweep
