import LogSweep.Proofs.Transcript

/-! A sweep on an output that refuses every line. The refusal ends it with the first file that
cleaning changes, or, if there is none, with the closing lines, and only in the first case does the
message tell that the report was being written. -/
namespace LogSweep

/-- The file at a path can be read as a text, and any text can be written to it. -/
structure FileSystem.Workable (fs : FileSystem) (p : Path) : Prop where
  read : ∃ t, fs.readText p = .ok t
  write : ∀ t, ∃ written, fs.writeText p t = .ok written

/-- An output that refuses every line, always for the same cause. -/
def Output.refusing (cause : IoError) : Output := ⟨some { cause }⟩

namespace FileSystem

variable {fs : FileSystem} {p : Path}

lemma Workable.rewrite (h : fs.Workable p) (dryRun : Bool) (t : Text) :
    ∃ written, fs.rewrite dryRun p t = .ok written := by
  cases dryRun with
  | true => exact ⟨fs, rfl⟩
  | false => exact h.write t

lemma Workable.unmodified (h : fs.Workable p) (hm : fs.modifies p = false) :
    ∃ t, fs.readText p = .ok t ∧ t.clean.changed = false := by
  obtain ⟨t, read⟩ := h.read
  exact ⟨t, read, (modifies_of_readText read).symm.trans hm⟩

end FileSystem

namespace Sweep
open FileSystem

variable {dryRun : Bool} {report : Reporter} {ps : List Path} {fs : FileSystem} {p : Path}
  {cause : IoError}

/-- A reporter that always fails ends the sweep with the first file that cleaning changes, and
nothing is printed. -/
theorem each_refused (dryRun : Bool) (quiet : report.IsQuiet)
    (refuses : ∀ earlier p fs, (report earlier p fs).2 = some cause) (earlier : List Path)
    (workable : ∀ q ∈ ps, fs.Workable q) (first : ps.find? fs.modifies = some p) :
    let w := each dryRun report earlier ps fs
    w.acts.flatMap Act.printed = [] ∧ w.outcome = .error (.report cause) ∧
      ∃ t, fs.readText p = .ok t ∧ fs.rewrite dryRun p t.clean.text = .ok w.files := by
  induction ps with
  | nil => cases first
  | cons q ps ih =>
    obtain ⟨hq, hps⟩ := List.forall_mem_cons.mp workable
    rw [List.find?_cons] at first
    cases hm : fs.modifies q with
    | true =>
      rw [hm] at first
      obtain rfl : q = p := Option.some.inj first
      obtain ⟨t, read⟩ := hq.read
      obtain ⟨written, write⟩ := hq.rewrite dryRun t.clean.text
      have changed : t.clean.changed := (modifies_of_readText read).symm.trans hm
      rw [each_cons_refused quiet (file_of_rewrite read changed write) (refuses ..)]
      exact ⟨printed_modifiedTurn .., rfl, t, read, write⟩
    | false =>
      rw [hm] at first
      obtain ⟨t, read, unchanged⟩ := hq.unmodified hm
      obtain ⟨printed, outcome, written⟩ := ih hps first
      rw [each_cons_unmodified read unchanged]
      refine ⟨?_, ?_, written⟩
      · rw [afterUnmodified, List.flatMap_append, printed_turn, printed]
        rfl
      · rw [afterUnmodified, outcome]
        rfl

end Sweep

namespace Run
open FileSystem

/-- On an output that refuses every line, a sweep of files that can be read and written fails and
writes nothing. If cleaning changes some of the files, the first of these has been rewritten, unless
the sweep is a dry one, and the message names the report. Otherwise the first refused line is the
empty one that closes the report; no file has been written, and the message is the bare cause. -/
theorem sweep_refused (cause : IoError) (s : Selection) (dryRun : Bool) (fs : FileSystem)
    {ps : List Path} (collected : s.collect fs = .ok ps) (workable : ∀ p ∈ ps, fs.Workable p) :
    let run := sweep (Output.refusing cause) s dryRun fs
    run.report = [] ∧ ∃ e, run.outcome = .error e ∧
      match ps.find? fs.modifies with
      | some p =>
        e = .report cause ∧ e.message = "Failed to write report: ".toList ++ cause.message ∧
          ∃ t, fs.readText p = .ok t ∧
            if dryRun then run.files = fs else fs.writeText p t.clean.text = .ok run.files
      | none => e = .closing cause ∧ e.message = cause.message ∧ run.files = fs := by
  intro run
  obtain ⟨w, hw⟩ : ∃ w, Sweep.each dryRun (Output.refusing cause).reporter [] ps fs = w := ⟨_, rfl⟩
  have tree : Sweep.tree s dryRun (Output.refusing cause).reporter fs = w := by
    rw [Sweep.tree, collected, ← hw]
  have result : SweepResult (Output.refusing cause) s dryRun w run := tree ▸ sweep_result ..
  cases first : ps.find? fs.modifies with
  | some p =>
    obtain ⟨printed, outcome, t, read, write⟩ := Sweep.each_refused dryRun
      (Output.reporter_isQuiet (Output.refusing cause)) (fun _ _ _ => rfl) [] workable first
    rw [hw] at printed outcome write
    generalize run = x at result ⊢
    cases result with
    | stopped outcome' =>
      cases outcome.symm.trans outcome'
      refine ⟨printed, _, rfl, rfl, rfl, t, read, ?_⟩
      cases dryRun with
      | true => exact (Except.ok.inj write).symm
      | false => exact write
    | refused outcome' print => cases outcome.symm.trans outcome'
    | completed outcome' print => cases outcome.symm.trans outcome'
  | none =>
    have normal : ∀ p ∈ ps, ∃ t, fs.readText p = .ok t ∧ t.clean.changed = false := fun p hp =>
      (workable p hp).unmodified (Bool.eq_false_iff.mpr (List.find?_eq_none.mp first p hp))
    obtain ⟨files, reported, outcome⟩ : w.files = fs ∧ w.reported = [] ∧
        w.outcome = .ok ⟨ps.length, [], 0⟩ :=
      hw ▸ Sweep.each_of_unmodified normal
    have silent : w.acts.flatMap Act.printed = [] := by
      have taken : ∀ e, w.outcome ≠ .error (.report e) := by simp [outcome]
      rw [← hw] at taken
      have hlines := Sweep.each_printed taken
      rw [hw, reported] at hlines
      exact hlines
    generalize run = x at result ⊢
    cases result with
    | stopped outcome' => cases outcome.symm.trans outcome'
    | refused outcome' print =>
      obtain ⟨rfl, hcause⟩ := Prod.mk.inj print
      obtain rfl : cause = _ := Option.some.inj hcause
      refine ⟨?_, _, rfl, rfl, rfl, files⟩
      rw [report, List.cons_append, List.flatMap_cons, List.flatMap_append, silent]
      rfl
    | completed outcome' print => cases print

theorem sweep_refused_two_files :
    let a : Name := ⟨[0x61, 0x2E, 0x74], by decide⟩
    let b : Name := ⟨[0x62, 0x2E, 0x74], by decide⟩
    let fs : FileSystem := ⟨.dir {} [
      (b, .file {} (Utf8.encode "logger.info();\nx".toList)),
      (a, .file {} (Utf8.encode "x\n".toList))], []⟩
    let s : Selection := ⟨[0x2E], [['t']], []⟩
    let path (n : Name) : Path := [0x2E, 0x2F] ++ n.bytes
    let run := sweep (Output.refusing .noSpace) s false fs
    s.collect fs = .ok [path a, path b] ∧ (∀ p ∈ [path a, path b], fs.Workable p) ∧
    run.report = [] ∧ run.outcome = .error (.report .noSpace) ∧
    fs.writeText (path b) "x".toList = .ok run.files := by
  intro a b fs s path run
  have collected : s.collect fs = .ok [path a, path b] := rfl
  have workable : ∀ p ∈ [path a, path b], fs.Workable p := by
    simp only [List.forall_mem_cons, List.not_mem_nil, false_implies, implies_true, and_true]
    exact ⟨⟨⟨_, rfl⟩, fun t => ⟨_, rfl⟩⟩, ⟨⟨_, rfl⟩, fun t => ⟨_, rfl⟩⟩⟩
  obtain ⟨report, e, outcome, rfl, -, t, read, written⟩ :=
    sweep_refused .noSpace s false fs collected workable
  obtain rfl : t = "logger.info();\nx".toList := Except.ok.inj (read.symm.trans rfl)
  exact ⟨collected, workable, report, outcome, written⟩

/-- The message does not always tell that the report was being written. -/
theorem sweep_refused_bare_message :
    let a : Name := ⟨[0x61, 0x2E, 0x74], by decide⟩
    let fs : FileSystem := ⟨.dir {} [(a, .file {} (Utf8.encode "x\n".toList))], []⟩
    let s : Selection := ⟨[0x2E], [['t']], []⟩
    let path : Path := [0x2E, 0x2F] ++ a.bytes
    s.collect fs = .ok [path] ∧ fs.Workable path ∧
    ∃ e, (sweep (Output.refusing .noSpace) s false fs).outcome = .error e ∧
      e.message = "No space left on device (os error 28)".toList ∧
      e.message ≠ "Failed to write report: No space left on device (os error 28)".toList :=
  ⟨rfl, ⟨⟨_, rfl⟩, fun _ => ⟨_, rfl⟩⟩, _, rfl, by decide +kernel, by decide +kernel⟩

end Run
end LogSweep
