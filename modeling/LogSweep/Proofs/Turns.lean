import LogSweep.Proofs.Candidates
import LogSweep.Proofs.SweepStep
import Mathlib.Algebra.BigOperators.Group.List.Basic
import Mathlib.Algebra.Order.Ring.Nat

/-! The turns of a sweep, with a reporter that may do anything to the files in between. The
collected files have their turns in the order in which they were collected. Each turn meets the
files as the turns before it have left them, and what it reads there decides how it ends. -/
namespace LogSweep

/-- The path whose turn begins. -/
def Event.examined? : Event → Option Path
  | .examining p => some p
  | _ => none

/-- The turn of one file in a sweep, its report included. -/
structure Turn where
  path : Path
  /-- The files that the turn meets. -/
  met : FileSystem
  /-- The files that it leaves, with all that the reporter did to them. -/
  left : FileSystem
  /-- The number of lines removed, if the file changed, or the failure that ends the sweep. -/
  outcome : Except Failure (Option Nat)

namespace Turn

/-- The reporter was told the path, whether or not it failed then. -/
def isReported (turn : Turn) : Bool :=
  match turn.outcome with
  | .ok (some _) => true
  | .error (.report _) => true
  | _ => false

def removed (turn : Turn) : Nat :=
  match turn.outcome with
  | .ok (some n) => n
  | _ => 0

/-- The paths that were reported in some turns. -/
def reports (turns : List Turn) : List Path := (turns.filter isReported).map path

/-- The files after turns that began with the given ones. -/
def filesAfter (fs : FileSystem) (turns : List Turn) : FileSystem :=
  turns.foldl (fun _ turn => turn.left) fs

/-- What a turn can be after the given reports. -/
inductive Follows (dryRun : Bool) (report : Reporter) (earlier : List Path) : Turn → Prop
  | unreadable {p : Path} {fs : FileSystem} {e : IoError} (read : fs.readText p = .error e) :
      Follows dryRun report earlier ⟨p, fs, fs, .error (.read p e)⟩
  | unmodified {p : Path} {fs : FileSystem} {t : Text} (read : fs.readText p = .ok t)
      (changed : t.clean.changed = false) : Follows dryRun report earlier ⟨p, fs, fs, .ok none⟩
  | unwritable {p : Path} {fs : FileSystem} {t : Text} {e : IoError} (read : fs.readText p = .ok t)
      (changed : t.clean.changed) (write : fs.rewrite dryRun p t.clean.text = .error e) :
      Follows dryRun report earlier ⟨p, fs, fs, .error (.write p e)⟩
  | refused {p : Path} {fs written left : FileSystem} {t : Text} {e : IoError}
      (read : fs.readText p = .ok t) (changed : t.clean.changed)
      (write : fs.rewrite dryRun p t.clean.text = .ok written)
      (answer : report earlier p written = (left, some e)) :
      Follows dryRun report earlier ⟨p, fs, left, .error (.report e)⟩
  | accepted {p : Path} {fs written left : FileSystem} {t : Text} (read : fs.readText p = .ok t)
      (changed : t.clean.changed) (write : fs.rewrite dryRun p t.clean.text = .ok written)
      (answer : report earlier p written = (left, none)) :
      Follows dryRun report earlier ⟨p, fs, left, .ok (some t.clean.removed)⟩

/-- How a sweep of some files ends after its turns: each file had one and all went well, or the last
turn failed. -/
inductive Ends (ps : List Path) (turns : List Turn) : Except Failure Tally → Prop
  | completes (paths : turns.map path = ps) (succeeded : ∀ turn ∈ turns, turn.outcome.isOk) :
      Ends ps turns (.ok ⟨ps.length, reports turns, (turns.map removed).sum⟩)
  | fails {front : List Turn} {last : Turn} {e : Failure} (turns_eq : turns = front ++ [last])
      (paths : turns.map path <+: ps) (succeeded : ∀ turn ∈ front, turn.outcome.isOk)
      (failed : last.outcome = .error e) : Ends ps turns (.error e)

variable {dryRun : Bool} {report : Reporter} {earlier ps : List Path} {fs : FileSystem}
  {turn : Turn} {turns : List Turn} {w w' : Sweep}

@[simp] lemma filesAfter_cons (fs : FileSystem) (turn : Turn) (turns : List Turn) :
    filesAfter fs (turn :: turns) = filesAfter turn.left turns := rfl

lemma reports_cons (turn : Turn) (turns : List Turn) :
    reports (turn :: turns) = reports [turn] ++ reports turns := by
  simp only [reports, ← List.map_append, ← List.filter_append, List.singleton_append]

lemma reports_sublist (turns : List Turn) : (reports turns).Sublist (turns.map path) :=
  List.filter_sublist.map path

lemma Ends.paths_prefix {outcome : Except Failure Tally} (h : Ends ps turns outcome) :
    turns.map path <+: ps := by
  cases h with
  | completes paths succeeded => exact paths ▸ List.prefix_rfl
  | fails turns_eq paths succeeded failed => exact paths

/-- The failure of one turn is that of the sweep. -/
lemma Ends.error_of_mem {outcome : Except Failure Tally} (h : Ends ps turns outcome)
    (hmem : turn ∈ turns) {e : Failure} (he : turn.outcome = .error e) : outcome = .error e := by
  have hno : turn.outcome.isOk = false := by rw [he]; rfl
  cases h with
  | completes paths succeeded =>
    rw [succeeded turn hmem] at hno
    cases hno
  | fails turns_eq paths succeeded failed =>
    rw [turns_eq, List.mem_append, List.mem_singleton] at hmem
    rcases hmem with hfront | rfl
    · rw [succeeded turn hfront] at hno
      cases hno
    · exact congrArg Except.error (Except.error.inj (failed.symm.trans he))

/-- A turn that meets a file which cannot be read as a text fails. -/
lemma Follows.outcome_of_unreadable (h : turn.Follows dryRun report earlier) {e : IoError}
    (read : turn.met.readText turn.path = .error e) :
    turn.outcome = .error (.read turn.path e) := by
  cases h with
  | unreadable read' => rw [Except.error.inj (read.symm.trans read')]
  | unmodified read' changed => cases read.symm.trans read'
  | unwritable read' changed write => cases read.symm.trans read'
  | refused read' changed write answer => cases read.symm.trans read'
  | accepted read' changed write answer => cases read.symm.trans read'

/-- A turn in front of others, with the counts that it adds. -/
lemma Ends.cons {outcome : Except Failure Tally} (h : Ends ps turns outcome)
    (ok : turn.outcome.isOk) :
    Ends (turn.path :: ps) (turn :: turns) (outcome.map fun t =>
      ⟨t.examined + 1, reports [turn] ++ t.modified, turn.removed + t.removed⟩) := by
  cases h with
  | completes paths succeeded =>
    have hok : ∀ x ∈ turn :: turns, x.outcome.isOk := List.forall_mem_cons.mpr ⟨ok, succeeded⟩
    have hpaths : (turn :: turns).map path = turn.path :: ps := by rw [List.map_cons, paths]
    have h := Ends.completes hpaths hok
    rw [reports_cons, List.map_cons, List.sum_cons, List.length_cons] at h
    exact h
  | @fails front last e turns_eq paths succeeded failed =>
    have hturns : turn :: turns = (turn :: front) ++ [last] := by rw [turns_eq, List.cons_append]
    exact .fails hturns (List.cons_prefix_cons.mpr ⟨rfl, paths⟩)
      (List.forall_mem_cons.mpr ⟨ok, succeeded⟩) failed

end Turn

namespace Sweep
open Turn FileSystem

/-- A sweep of some files after the given reports consists of turns. -/
structure ConsistsOf (w : Sweep) (turns : List Turn) (dryRun : Bool) (report : Reporter)
    (earlier ps : List Path) (fs : FileSystem) : Prop where
  follows : ∀ front turn back, turns = front ++ turn :: back →
    turn.met = filesAfter fs front ∧ turn.Follows dryRun report (earlier ++ reports front)
  ending : Ends ps turns w.outcome
  files : w.files = filesAfter fs turns
  reported : w.reported = reports turns
  examined : w.events.filterMap Event.examined? = turns.map path

variable {dryRun : Bool} {report : Reporter} {earlier ps : List Path} {p : Path}
  {fs fs' fs'' : FileSystem} {t : Text} {turn : Turn} {turns : List Turn} {w w' : Sweep}

/-- A turn that goes well in front of a sweep. -/
lemma ConsistsOf.cons (first : turn.Follows dryRun report earlier) (ok : turn.outcome.isOk)
    (h : w.ConsistsOf turns dryRun report (earlier ++ reports [turn]) ps turn.left)
    (files : w'.files = w.files) (reported : w'.reported = reports [turn] ++ w.reported)
    (outcome : w'.outcome = w.outcome.map fun t =>
      ⟨t.examined + 1, reports [turn] ++ t.modified, turn.removed + t.removed⟩)
    (examined : w'.events.filterMap Event.examined? =
      turn.path :: w.events.filterMap Event.examined?) :
    w'.ConsistsOf (turn :: turns) dryRun report earlier (turn.path :: ps) turn.met where
  follows front x back hx := by
    rcases List.cons_eq_append_iff.mp hx with ⟨rfl, hcons⟩ | ⟨front, rfl, hback⟩
    · cases hcons
      exact ⟨rfl, by simpa [reports] using first⟩
    · obtain ⟨hmet, hfollows⟩ := h.follows front x back hback
      rw [reports_cons, ← List.append_assoc]
      exact ⟨hmet, hfollows⟩
  ending := by
    rw [outcome]
    exact h.ending.cons ok
  files := by rw [files, h.files, filesAfter_cons]
  reported := by rw [reported, h.reported, ← reports_cons]
  examined := by rw [examined, h.examined, List.map_cons]

/-- A turn that fails ends the sweep. -/
lemma ConsistsOf.failed {e : Failure} (last : turn.Follows dryRun report earlier)
    (he : turn.outcome = .error e) (files : w.files = turn.left)
    (reported : w.reported = reports [turn]) (outcome : w.outcome = .error e)
    (examined : w.events.filterMap Event.examined? = [turn.path]) :
    w.ConsistsOf [turn] dryRun report earlier (turn.path :: ps) turn.met where
  follows front x back hx := by
    rcases List.cons_eq_append_iff.mp hx with ⟨rfl, hcons⟩ | ⟨front, -, hback⟩
    · cases hcons
      exact ⟨rfl, by simpa [reports] using last⟩
    · simp at hback
  ending := by
    have hturns : [turn] = [] ++ [turn] := rfl
    rw [outcome]
    exact .fails hturns (List.cons_prefix_cons.mpr ⟨rfl, List.nil_prefix⟩) nofun he
  files := files
  reported := reported
  examined := examined

/-- The turn of a path is announced once, whatever is warned of. -/
lemma examined?_examining (p : Path) (c : Cleaning) (events : List Event) :
    (.examining p :: (warnings p c ++ events)).filterMap Event.examined? =
      p :: events.filterMap Event.examined? := by
  have hsilent : (warnings p c).filterMap Event.examined? = [] := by
    unfold warnings
    split <;> rfl
  have hfirst : (Event.examining p).examined? = some p := rfl
  rw [List.filterMap_cons_some hfirst, List.filterMap_append, hsilent, List.nil_append]

/-- Whatever the reporter does, the files have their turns one after the other. -/
theorem each_turns (dryRun : Bool) (report : Reporter) (earlier ps : List Path)
    (fs : FileSystem) :
    ∃ turns, (each dryRun report earlier ps fs).ConsistsOf turns dryRun report earlier ps fs := by
  induction ps generalizing earlier fs with
  | nil => exact ⟨[], fun front turn back h => by simp at h, .completes rfl nofun, rfl, rfl, rfl⟩
  | cons p ps ih =>
    cases read : fs.readText p with
    | error e =>
      rw [each_cons_unreadable read]
      exact ⟨_, .failed (.unreadable read) rfl rfl rfl rfl rfl⟩
    | ok t =>
      have hexamined := examined?_examining p t.clean
      cases changed : t.clean.changed with
      | false =>
        obtain ⟨turns, h⟩ := ih earlier fs
        have hnone : reports [⟨p, fs, fs, .ok none⟩] = [] := rfl
        have hrest : (each dryRun report earlier ps fs).ConsistsOf turns dryRun report
            (earlier ++ reports [⟨p, fs, fs, .ok none⟩]) ps fs := by
          rwa [hnone, List.append_nil]
        rw [each_cons_unmodified read changed]
        refine ⟨_, .cons (.unmodified read changed) rfl hrest rfl (by simp [hnone]) ?_ ?_⟩
        · refine congrArg (Except.map · _) (funext fun tally => ?_)
          rw [removed, Nat.zero_add]
          rfl
        · rw [afterUnmodified_events, told_turn, List.filterMap_nil, List.append_nil]
          exact hexamined _
      | true =>
        cases write : fs.rewrite dryRun p t.clean.text with
        | error e =>
          obtain ⟨rfl, hwrite⟩ := rewrite_eq_error write
          rw [each_cons_unwritable read changed hwrite]
          refine ⟨_, .failed (.unwritable read changed write) rfl rfl (reported_turn ..) rfl ?_⟩
          rw [events_mk, told_turn]
          exact hexamined _
        | ok written =>
          have hfile := file_of_rewrite read changed write
          cases answer : report earlier p written with
          | mk left refusal =>
            cases refusal with
            | some e =>
              rw [each_cons_report_fails hfile answer]
              refine ⟨_, .failed (.refused read changed write answer) rfl rfl
                (reported_modifiedTurn ..) rfl ?_⟩
              rw [events_mk, told_modifiedTurn]
              exact hexamined _
            | none =>
              obtain ⟨turns, h⟩ := ih (earlier ++ [p]) left
              rw [each_cons_report_passes hfile answer]
              refine ⟨_, .cons (.accepted read changed write answer) rfl h rfl
                (afterModified_reported ..) rfl ?_⟩
              rw [afterModified_events, told_modifiedTurn, List.cons_append, List.append_assoc]
              exact hexamined _

end Sweep

namespace FileSystem

variable {fs : FileSystem} {p : Path}

/-- What is missing cannot be read. -/
lemma readText_of_missing {e : IoError} (h : fs.stat p = .error e) : fs.readText p = .error e := by
  rw [readText, read, h]

/-- A directory is no file to read. -/
lemma readText_of_dir {access : Access} {entries : List (Name × Entry)}
    (h : fs.stat p = .ok (.dir access entries)) :
    fs.readText p = .error (if access.read then .isDirectory else .denied) := by
  rw [readText, read, h]

lemma readText_of_invalid {content : Bytes} (h : fs.read p = .ok content)
    (invalid : Utf8.decode? content = none) : fs.readText p = .error .invalidText := by
  rw [readText, h]
  simp only [invalid]

end FileSystem

namespace Sweep
open Turn FileSystem

variable {dryRun : Bool} {report : Reporter} {ps : List Path} {fs : FileSystem} {turn : Turn}
  {turns : List Turn} {w : Sweep}

/-- A turn that meets a file which cannot be read as a text ends the sweep. -/
lemma ConsistsOf.unreadable (h : w.ConsistsOf turns dryRun report [] ps fs) (hmem : turn ∈ turns)
    {e : IoError} (read : turn.met.readText turn.path = .error e) :
    w.outcome = .error (.read turn.path e) := by
  obtain ⟨front, back, hturns⟩ := List.append_of_mem hmem
  have hfollows := (h.follows front turn back hturns).2
  exact h.ending.error_of_mem hmem (hfollows.outcome_of_unreadable read)

/-- The collected files are a snapshot. Whatever the reporter does to the files, the sweep consists
of turns of the collected files in their order, up to the end or up to the first turn that fails. A
turn meets what the turns before it have left, and what it reads there decides how it ends; a path
that is missing by then, or that leads to a directory or to no text, ends the sweep. No other file
has a turn, and no path is reported twice. -/
theorem tree_snapshot (s : Selection) (dryRun : Bool) (report : Reporter) (fs : FileSystem)
    (collected : s.collect fs = .ok ps) :
    let w := tree s dryRun report fs
    ∃ turns, w.ConsistsOf turns dryRun report [] ps fs ∧
      w.reported.Sublist ps ∧ w.reported.Nodup ∧
      (∀ p, .examining p ∈ w.events → p ∈ ps) ∧
      (∀ turn ∈ turns,
        (∀ e, turn.met.stat turn.path = .error e → w.outcome = .error (.read turn.path e)) ∧
        (∀ access entries, turn.met.stat turn.path = .ok (.dir access entries) →
          ∃ e, w.outcome = .error (.read turn.path e)) ∧
        (∀ content, turn.met.read turn.path = .ok content → Utf8.decode? content = none →
          w.outcome = .error (.read turn.path .invalidText))) ∧
      ∀ t, w.outcome = .ok t →
        turns.map Turn.path = ps ∧ t.examined = ps.length ∧ t.modified = w.reported := by
  intro w
  obtain ⟨turns, h⟩ : ∃ turns, w.ConsistsOf turns dryRun report [] ps fs := by
    have hw : w = each dryRun report [] ps fs := by simp only [w, tree, collected]
    rw [hw]
    exact each_turns dryRun report [] ps fs
  have hsublist : w.reported.Sublist ps := by
    rw [h.reported]
    exact (reports_sublist turns).trans h.ending.paths_prefix.sublist
  refine ⟨turns, h, hsublist, (Selection.collect_nodup collected).sublist hsublist, ?_, ?_, ?_⟩
  · intro p hp
    have hexamined : p ∈ w.events.filterMap Event.examined? := List.mem_filterMap.mpr ⟨_, hp, rfl⟩
    rw [h.examined] at hexamined
    exact h.ending.paths_prefix.subset hexamined
  · intro turn hmem
    exact ⟨fun e missing => h.unreadable hmem (readText_of_missing missing),
      fun access entries dir => ⟨_, h.unreadable hmem (readText_of_dir dir)⟩,
      fun content read invalid => h.unreadable hmem (readText_of_invalid read invalid)⟩
  · intro t ok
    have hending := h.ending
    rw [ok] at hending
    cases hending with
    | completes paths succeeded => exact ⟨paths, rfl, h.reported.symm⟩

theorem tree_snapshot_meddling_reporter :
    let a : Name := ⟨[0x61, 0x2E, 0x74], by decide⟩
    let b : Name := ⟨[0x62, 0x2E, 0x74], by decide⟩
    let new : Name := ⟨[0x61, 0x61, 0x2E, 0x74], by decide⟩
    let file : Entry := .file {} (Utf8.encode "logger.info();\nx".toList)
    let fs : FileSystem := ⟨.dir {} [(b, file), (a, file)], []⟩
    let s : Selection := ⟨[0x2E], [['t']], []⟩
    let report : Reporter := fun _ _ fs =>
      ({ fs with root := .dir {} [(a, file), (new, file)] }, none)
    let path (n : Name) : Path := [0x2E, 0x2F] ++ n.bytes
    let w := tree s false report fs
    s.collect w.files = .ok [path a, path new] ∧
    w.outcome = .error (.read (path b) .notFound) ∧
    (∃ turns, w.ConsistsOf turns false report [] [path a, path b] fs) ∧
    w.reported.Sublist [path a, path b] ∧ ∀ p, .examining p ∈ w.events → p ∈ [path a, path b] := by
  intro a b new file fs s report path w
  have collected : s.collect fs = .ok [path a, path b] := rfl
  obtain ⟨turns, h, hsublist, -, hexamined, -⟩ := tree_snapshot s false report fs collected
  have hend : w.outcome = .error (.read (path b) .notFound) := rfl
  exact ⟨by decide +kernel, hend, ⟨turns, h⟩, hsublist, hexamined⟩

end Sweep
end LogSweep
