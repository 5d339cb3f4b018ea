import LogSweep.Proofs.Contents
import LogSweep.Run

/-! What one file of a sweep leads to, case by case, and what a whole sweep preserves because each
of its files and reports does. -/
namespace LogSweep

/-- A reporter that leaves all files alone. It may fail. -/
def Reporter.IsQuiet (report : Reporter) : Prop :=
  ∀ earlier p fs, (report earlier p fs).1 = fs

theorem Output.reporter_isQuiet (out : Output) : out.reporter.IsQuiet := fun _ _ _ => rfl

/-- The files after a cleaned text is written to a path. A dry run writes nothing. -/
def FileSystem.rewrite (fs : FileSystem) (dryRun : Bool) (p : Path) (t : Text) :
    Except IoError FileSystem :=
  if dryRun then .ok fs else fs.writeText p t

namespace Sweep

/-- What is done about a modified file between the reading of its text and the report. A dry run
writes nothing. -/
def rewriting (dryRun : Bool) (p : Path) (t : Text) : List Act :=
  (if dryRun then [] else [.write p t.clean.text none]) ++
    [.tell (.cleaned p t.clean.removed dryRun)]

/-- What cleaning one file can lead to. -/
inductive FileResult (dryRun : Bool) (p : Path) (fs : FileSystem) : FileSweep → Prop
  | unreadable {e : IoError} (read : fs.readText p = .error e) :
      FileResult dryRun p fs ⟨fs, [], .error (.read p e)⟩
  | unmodified {t : Text} (read : fs.readText p = .ok t) (changed : t.clean.changed = false) :
      FileResult dryRun p fs ⟨fs, reading p t, .ok none⟩
  | unwritable {t : Text} {e : IoError} (read : fs.readText p = .ok t)
      (changed : t.clean.changed) (dry : dryRun = false)
      (write : fs.writeText p t.clean.text = .error e) :
      FileResult dryRun p fs
        ⟨fs, reading p t ++ [.write p t.clean.text (some e)], .error (.write p e)⟩
  | previewed {t : Text} (read : fs.readText p = .ok t) (changed : t.clean.changed)
      (dry : dryRun = true) :
      FileResult dryRun p fs
        ⟨fs, reading p t ++ rewriting dryRun p t, .ok (some t.clean.removed)⟩
  | written {t : Text} {fs' : FileSystem} (read : fs.readText p = .ok t)
      (changed : t.clean.changed) (dry : dryRun = false)
      (write : fs.writeText p t.clean.text = .ok fs') :
      FileResult dryRun p fs
        ⟨fs', reading p t ++ rewriting dryRun p t, .ok (some t.clean.removed)⟩

/-- The case decides what cleaning the file leads to. -/
theorem FileResult.eq {dryRun : Bool} {p : Path} {fs : FileSystem} {f : FileSweep}
    (h : FileResult dryRun p fs f) : file dryRun p fs = f := by
  cases h with
  | unreadable read => simp only [file, read]
  | unmodified read changed => simp [file, read, changed]
  | unwritable read changed dry write => simp [file, read, changed, dry, write]
  | previewed read changed dry => simp [file, read, changed, dry, rewriting]
  | written read changed dry write => simp [file, read, changed, dry, write, rewriting]

theorem file_result (dryRun : Bool) (p : Path) (fs : FileSystem) :
    FileResult dryRun p fs (file dryRun p fs) := by
  have of {f : FileSweep} (h : FileResult dryRun p fs f) :
      FileResult dryRun p fs (file dryRun p fs) := by rwa [h.eq]
  cases read : fs.readText p with
  | error e => exact of (.unreadable read)
  | ok t =>
    cases changed : t.clean.changed with
    | false => exact of (.unmodified read changed)
    | true =>
      cases dry : dryRun with
      | true => exact dry ▸ of (.previewed read changed dry)
      | false =>
        cases write : fs.writeText p t.clean.text with
        | error e => exact dry ▸ of (.unwritable read changed dry write)
        | ok written => exact dry ▸ of (.written read changed dry write)

/-- A file whose cleaned text is written back, or is not because the run is a dry one. -/
lemma file_of_rewrite {dryRun : Bool} {p : Path} {fs fs' : FileSystem} {t : Text}
    (read : fs.readText p = .ok t) (changed : t.clean.changed)
    (write : fs.rewrite dryRun p t.clean.text = .ok fs') :
    file dryRun p fs =
      ⟨fs', reading p t ++ rewriting dryRun p t, .ok (some t.clean.removed)⟩ := by
  cases dryRun with
  | true =>
    cases write
    exact (FileResult.previewed read changed rfl).eq
  | false => exact (FileResult.written read changed rfl write).eq

lemma rewrite_eq_error {dryRun : Bool} {p : Path} {fs : FileSystem} {t : Text} {e : IoError}
    (write : fs.rewrite dryRun p t = .error e) :
    dryRun = false ∧ fs.writeText p t = .error e := by
  cases dryRun with
  | true => cases write
  | false => exact ⟨rfl, write⟩

/-- The files are left alone, or the text of one file is replaced by the other text that cleaning it
gives. -/
theorem FileResult.files_eq {dryRun : Bool} {p : Path} {fs : FileSystem} {f : FileSweep}
    (h : FileResult dryRun p fs f) :
    f.files = fs ∨
    ∃ place content t, fs.contentAt place = some content ∧ Utf8.decode? content = some t ∧
      t.clean.changed ∧ f.files = fs.put (Utf8.encode t.clean.text) place := by
  cases h with
  | unreadable read => exact .inl rfl
  | unmodified read changed => exact .inl rfl
  | unwritable read changed dry write => exact .inl rfl
  | previewed read changed dry => exact .inl rfl
  | written read changed dry write =>
    obtain ⟨content, hread, ht⟩ := FileSystem.readText_eq_ok read
    obtain ⟨place, access, hl, hg, -⟩ := FileSystem.read_eq_ok_iff.mp hread
    obtain ⟨place', hl', hput⟩ := FileSystem.write_eq_ok write
    obtain rfl : place = place' := Except.ok.inj (hl.symm.trans hl')
    exact .inr ⟨place, content, _, FileSystem.contentAt_eq_some.mpr ⟨access, hg⟩, ht, changed, hput⟩

/-! What is told of and reported while one file has its turn. -/

lemma told_reading (p : Path) (t : Text) :
    (reading p t).filterMap Act.told? = warnings p t.clean := by
  have hread : (Act.read p t).told? = none := rfl
  rw [reading, List.filterMap_cons_none hread, List.filterMap_map]
  exact List.filterMap_some

lemma told_rewriting (dryRun : Bool) (p : Path) (t : Text) :
    (rewriting dryRun p t).filterMap Act.told? = [.cleaned p t.clean.removed dryRun] := by
  cases dryRun <;> rfl

@[simp] lemma reported_reading (p : Path) (t : Text) :
    (reading p t).filterMap Act.reported? = [] := by
  refine List.filterMap_eq_nil_iff.mpr fun a ha => ?_
  rcases List.mem_cons.mp ha with rfl | ha
  · rfl
  · obtain ⟨e, -, rfl⟩ := List.mem_map.mp ha
    rfl

@[simp] lemma reported_rewriting (dryRun : Bool) (p : Path) (t : Text) :
    (rewriting dryRun p t).filterMap Act.reported? = [] := by
  cases dryRun <;> rfl

/-- The acts of a turn in which a file is read. -/
def turn (p : Path) (t : Text) (handling : List Act) : List Act :=
  .tell (.examining p) :: (reading p t ++ handling)

lemma told_turn (p : Path) (t : Text) (handling : List Act) :
    (turn p t handling).filterMap Act.told? =
      .examining p :: (warnings p t.clean ++ handling.filterMap Act.told?) := by
  have hfirst : (Act.tell (.examining p)).told? = some (.examining p) := rfl
  rw [turn, List.filterMap_cons_some hfirst, List.filterMap_append, told_reading]

@[simp] lemma reported_turn (p : Path) (t : Text) (handling : List Act) :
    (turn p t handling).filterMap Act.reported? = handling.filterMap Act.reported? := by
  rw [turn, List.filterMap_cons_none rfl, List.filterMap_append, reported_reading,
    List.nil_append]

/-- The acts of a turn in which a file is modified and reported. -/
def modifiedTurn (dryRun : Bool) (p : Path) (t : Text) (refusal : Option IoError) : List Act :=
  turn p t (rewriting dryRun p t ++ [.report p refusal])

lemma told_modifiedTurn (dryRun : Bool) (p : Path) (t : Text) (refusal : Option IoError) :
    (modifiedTurn dryRun p t refusal).filterMap Act.told? =
      .examining p :: (warnings p t.clean ++ [.cleaned p t.clean.removed dryRun]) := by
  have hreport : [Act.report p refusal].filterMap Act.told? = [] := rfl
  rw [modifiedTurn, told_turn, List.filterMap_append, told_rewriting, hreport, List.append_nil]

@[simp] lemma reported_modifiedTurn (dryRun : Bool) (p : Path) (t : Text)
    (refusal : Option IoError) :
    (modifiedTurn dryRun p t refusal).filterMap Act.reported? = [p] := by
  rw [modifiedTurn, reported_turn, List.filterMap_append, reported_rewriting]
  rfl

/-- Until it is reported, nothing is printed about a file. -/
@[simp] lemma printed_turn (p : Path) (t : Text) (handling : List Act) :
    (turn p t handling).flatMap Act.printed = handling.flatMap Act.printed := by
  have hreading : (reading p t).flatMap Act.printed = [] := by
    simp [reading]
  rw [turn, List.flatMap_cons, List.flatMap_append, hreading]
  rfl

@[simp] lemma printed_modifiedTurn (dryRun : Bool) (p : Path) (t : Text)
    (refusal : Option IoError) :
    (modifiedTurn dryRun p t refusal).flatMap Act.printed = (Act.report p refusal).printed := by
  rw [modifiedTurn, printed_turn, List.flatMap_append]
  cases dryRun <;> simp [rewriting]

/-! The first file of several. -/

lemma events_mk (files : FileSystem) (acts : List Act) (outcome : Except Failure Tally) :
    Sweep.events ⟨files, acts, outcome⟩ = acts.filterMap Act.told? := rfl

@[simp] lemma reported_mk (files : FileSystem) (acts : List Act)
    (outcome : Except Failure Tally) :
    Sweep.reported ⟨files, acts, outcome⟩ = acts.filterMap Act.reported? := rfl

lemma afterUnmodified_events (acts : List Act) (w : Sweep) :
    (w.afterUnmodified acts).events = acts.filterMap Act.told? ++ w.events :=
  List.filterMap_append

lemma afterModified_events (acts : List Act) (p : Path) (removed : Nat) (w : Sweep) :
    (w.afterModified acts p removed).events = acts.filterMap Act.told? ++ w.events :=
  List.filterMap_append

@[simp] lemma afterUnmodified_files (acts : List Act) (w : Sweep) :
    (w.afterUnmodified acts).files = w.files := rfl

@[simp] lemma afterUnmodified_reported (p : Path) (t : Text) (w : Sweep) :
    (w.afterUnmodified (turn p t [])).reported = w.reported := by
  rw [reported, afterUnmodified, List.filterMap_append, reported_turn]
  rfl

@[simp] lemma afterModified_files (acts : List Act) (p : Path) (removed : Nat) (w : Sweep) :
    (w.afterModified acts p removed).files = w.files := rfl

@[simp] lemma afterModified_reported (dryRun : Bool) (p : Path) (t : Text) (removed : Nat)
    (w : Sweep) :
    (w.afterModified (modifiedTurn dryRun p t none) p removed).reported = p :: w.reported := by
  rw [reported, afterModified, List.filterMap_append, reported_modifiedTurn]
  rfl

section
variable {dryRun : Bool} {report : Reporter} {earlier ps : List Path} {p : Path}
  {fs fs' : FileSystem} {t : Text} {e : IoError}

lemma each_cons_unreadable (read : fs.readText p = .error e) :
    each dryRun report earlier (p :: ps) fs = ⟨fs, [.tell (.examining p)], .error (.read p e)⟩ := by
  rw [each, (FileResult.unreadable read).eq]

lemma each_cons_unmodified (read : fs.readText p = .ok t) (changed : t.clean.changed = false) :
    each dryRun report earlier (p :: ps) fs =
      (each dryRun report earlier ps fs).afterUnmodified (turn p t []) := by
  rw [each, (FileResult.unmodified read changed).eq, turn, List.append_nil]

lemma each_cons_unwritable (read : fs.readText p = .ok t) (changed : t.clean.changed)
    (write : fs.writeText p t.clean.text = .error e) :
    each false report earlier (p :: ps) fs =
      ⟨fs, turn p t [.write p t.clean.text (some e)], .error (.write p e)⟩ := by
  rw [each, (FileResult.unwritable read changed rfl write).eq, turn]

lemma each_cons_report_fails {fs'' : FileSystem}
    (modified : file dryRun p fs =
      ⟨fs', reading p t ++ rewriting dryRun p t, .ok (some t.clean.removed)⟩)
    (answer : report earlier p fs' = (fs'', some e)) :
    each dryRun report earlier (p :: ps) fs =
      ⟨fs'', modifiedTurn dryRun p t (some e), .error (.report e)⟩ := by
  rw [each, modified, modifiedTurn, turn, ← List.append_assoc]
  simp only [answer, List.cons_append]

lemma each_cons_report_passes {fs'' : FileSystem}
    (modified : file dryRun p fs =
      ⟨fs', reading p t ++ rewriting dryRun p t, .ok (some t.clean.removed)⟩)
    (answer : report earlier p fs' = (fs'', none)) :
    each dryRun report earlier (p :: ps) fs =
      (each dryRun report (earlier ++ [p]) ps fs'').afterModified
        (modifiedTurn dryRun p t none) p t.clean.removed := by
  rw [each, modified, modifiedTurn, turn, ← List.append_assoc]
  simp only [answer, List.cons_append]

lemma each_cons_refused (quiet : report.IsQuiet)
    (modified : file dryRun p fs =
      ⟨fs', reading p t ++ rewriting dryRun p t, .ok (some t.clean.removed)⟩)
    (refused : (report earlier p fs').2 = some e) :
    each dryRun report earlier (p :: ps) fs =
      ⟨fs', modifiedTurn dryRun p t (some e), .error (.report e)⟩ :=
  each_cons_report_fails modified (Prod.ext (quiet ..) refused)

lemma each_cons_accepted (quiet : report.IsQuiet)
    (modified : file dryRun p fs =
      ⟨fs', reading p t ++ rewriting dryRun p t, .ok (some t.clean.removed)⟩)
    (accepted : (report earlier p fs').2 = none) :
    each dryRun report earlier (p :: ps) fs =
      (each dryRun report (earlier ++ [p]) ps fs').afterModified
        (modifiedTurn dryRun p t none) p t.clean.removed :=
  each_cons_report_passes modified (Prod.ext (quiet ..) accepted)

end

/-- What every file and every report preserves is preserved by all files one after the other. -/
theorem each_preserves {Inv : FileSystem → Prop} {dryRun : Bool} {report : Reporter}
    (hfile : ∀ p fs, Inv fs → Inv (file dryRun p fs).files)
    (hreport : ∀ earlier p fs, Inv fs → Inv (report earlier p fs).1)
    (earlier ps : List Path) (fs : FileSystem) (h : Inv fs) :
    Inv (each dryRun report earlier ps fs).files := by
  induction ps generalizing earlier fs with
  | nil => exact h
  | cons p ps ih =>
    have hp := hfile p fs h
    rw [each]
    split
    · exact hp
    · exact ih earlier _ hp
    · have hrep := hreport earlier p _ hp
      split
      · next fs' e hr => simpa [hr] using hrep
      · next fs' hr => exact ih _ _ (by simpa [hr] using hrep)

theorem tree_preserves {Inv : FileSystem → Prop} {dryRun : Bool} {report : Reporter}
    (hfile : ∀ p fs, Inv fs → Inv (file dryRun p fs).files)
    (hreport : ∀ earlier p fs, Inv fs → Inv (report earlier p fs).1)
    (s : Selection) (fs : FileSystem) (h : Inv fs) : Inv (tree s dryRun report fs).files := by
  unfold tree
  split
  · exact h
  · exact each_preserves hfile hreport _ _ _ h

/-- If all reports are taken, what is printed are the lines of the reported paths. -/
lemma each_printed {dryRun : Bool} {report : Reporter} {earlier ps : List Path} {fs : FileSystem}
    (taken : ∀ e, (each dryRun report earlier ps fs).outcome ≠ .error (.report e)) :
    (each dryRun report earlier ps fs).acts.flatMap Act.printed =
      (each dryRun report earlier ps fs).reported.flatMap fun p =>
        Tally.reportLine p ++ ['\n'] := by
  induction ps generalizing earlier fs with
  | nil => rfl
  | cons p ps ih =>
    cases read : fs.readText p with
    | error e =>
      rw [each_cons_unreadable read]
      rfl
    | ok t =>
      cases changed : t.clean.changed with
      | false =>
        rw [each_cons_unmodified read changed] at taken ⊢
        have hrest := ih fun e he => taken e (by rw [afterUnmodified, he]; rfl)
        rw [afterUnmodified_reported, ← hrest, afterUnmodified, List.flatMap_append, printed_turn]
        rfl
      | true =>
        cases write : fs.rewrite dryRun p t.clean.text with
        | error e =>
          obtain ⟨rfl, hwrite⟩ := rewrite_eq_error write
          rw [each_cons_unwritable read changed hwrite]
          simp
        | ok written =>
          have hfile := file_of_rewrite read changed write
          cases answer : report earlier p written with
          | mk left refusal =>
            cases refusal with
            | some e =>
              rw [each_cons_report_fails hfile answer] at taken
              exact absurd rfl (taken e)
            | none =>
              rw [each_cons_report_passes hfile answer] at taken ⊢
              have hrest := ih fun e he => taken e (by rw [afterModified, he]; rfl)
              rw [afterModified_reported, List.flatMap_cons, ← hrest, afterModified,
                List.flatMap_append, printed_modifiedTurn]
              rfl

lemma tree_printed {s : Selection} {dryRun : Bool} {report : Reporter} {fs : FileSystem}
    (taken : ∀ e, (tree s dryRun report fs).outcome ≠ .error (.report e)) :
    (tree s dryRun report fs).acts.flatMap Act.printed =
      (tree s dryRun report fs).reported.flatMap fun p => Tally.reportLine p ++ ['\n'] := by
  unfold tree at taken ⊢
  split
  · rfl
  · next ps collected =>
    rw [collected] at taken
    exact each_printed taken

end Sweep

namespace Output

variable {out : Output} {before : ℕ} {lines : List Text} {acts : List Act}

lemma print_taken (h : out.print before lines = (acts, none)) :
    acts.flatMap Act.printed = lines.flatMap (· ++ ['\n']) := by
  induction lines generalizing before acts with
  | nil =>
    cases h
    rfl
  | cons l lines ih =>
    rw [print] at h
    split at h
    · cases h
    · obtain ⟨rfl, hrefusal⟩ := Prod.mk.inj h
      rw [List.flatMap_cons, List.flatMap_cons, ih (Prod.ext rfl hrefusal)]
      rfl

end Output

namespace Run

variable {out : Output} {env : Environment} {r : Request} {fs : FileSystem} {s : Selection}
  {dryRun : Bool}

/-- How a sweep that is reported ends: as the sweep does, or with its closing lines refused. -/
inductive SweepResult (out : Output) (s : Selection) (dryRun : Bool) (w : Sweep) : Run → Prop
  | stopped {e : Failure} (outcome : w.outcome = .error e) :
      SweepResult out s dryRun w ⟨w.files, .tell (.sweepStarting s dryRun) :: w.acts, .error e⟩
  | refused {t : Tally} {closing : List Act} {e : IoError} (outcome : w.outcome = .ok t)
      (print : out.print w.reported.length [[], t.summaryLine dryRun] = (closing, some e)) :
      SweepResult out s dryRun w
        ⟨w.files, .tell (.sweepStarting s dryRun) :: w.acts ++ closing, .error (.closing e)⟩
  | completed {t : Tally} {closing : List Act} (outcome : w.outcome = .ok t)
      (print : out.print w.reported.length [[], t.summaryLine dryRun] = (closing, none)) :
      SweepResult out s dryRun w
        ⟨w.files, .tell (.sweepStarting s dryRun) :: w.acts ++ closing ++
          [.tell (.sweepFinished t.removed)], .ok t⟩

theorem sweep_result (out : Output) (s : Selection) (dryRun : Bool) (fs : FileSystem) :
    SweepResult out s dryRun (Sweep.tree s dryRun out.reporter fs) (sweep out s dryRun fs) := by
  unfold sweep
  generalize Sweep.tree s dryRun out.reporter fs = w
  dsimp only
  split
  · next e outcome => exact .stopped outcome
  · next t outcome =>
    split
    · next closing e print => exact .refused outcome print
    · next closing print => exact .completed outcome print

lemma printed_tells (events : List Event) : (events.map Act.tell).flatMap Act.printed = [] := by
  simp

/-- Events in front change nothing of a report. -/
lemma report_tells (events : List Event) (run : Run) :
    Run.report { run with acts := events.map .tell ++ run.acts } = run.report := by
  rw [report, List.flatMap_append, printed_tells, List.nil_append, report]

/-- A configured run is a sweep. -/
lemma request_configured {setup : Setup}
    (h : (Layers.setupIn fs env (Path.ofText ['.']) r).2 = .ok setup) :
    let swept := sweep out (Selection.ofSettings setup.settings) setup.dryRun fs
    request out env r fs =
      { swept with
        acts := (Layers.setupIn fs env (Path.ofText ['.']) r).1.map .tell ++ swept.acts } := by
  obtain ⟨events, hs⟩ : ∃ events, Layers.setupIn fs env (Path.ofText ['.']) r =
      (events, .ok setup) := ⟨_, Prod.ext rfl h⟩
  simp only [request, hs]

lemma request_unconfigured {e : Failure}
    (h : (Layers.setupIn fs env (Path.ofText ['.']) r).2 = .error e) :
    request out env r fs =
      ⟨fs, (Layers.setupIn fs env (Path.ofText ['.']) r).1.map .tell, .error e⟩ := by
  obtain ⟨events, hs⟩ : ∃ events, Layers.setupIn fs env (Path.ofText ['.']) r =
      (events, .error e) := ⟨_, Prod.ext rfl h⟩
  simp only [request, hs]

end Run
end LogSweep
