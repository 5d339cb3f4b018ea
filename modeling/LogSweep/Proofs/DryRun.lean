import LogSweep.Proofs.FinalState

/-! Dry runs. A dry run leaves all files as they are, and it meets each of them as the real run
does, which has only rewritten other files by then. So both come to the same end and report the same
paths, up to the first file that cannot be written. -/
namespace LogSweep

/-- The answers of a reporter do not depend on whether the files of which it has been told are
cleaned or hold their old texts still. -/
def Reporter.IgnoresCleaning (report : Reporter) : Prop :=
  ∀ earlier p fs fs', Cleaned fs (earlier ++ [p]) (earlier ++ [p]).length fs' →
    (report earlier p fs').2 = (report earlier p fs).2

theorem Output.reporter_ignoresCleaning (out : Output) : out.reporter.IgnoresCleaning :=
  fun _ _ _ _ _ => rfl

namespace Cleaned
open FileSystem

variable {fs fs₁ fs₂ : FileSystem} {p : Path} {ps : List Path}

/-- Files are cleaned, and then one more is. -/
lemma concat (h : Cleaned fs ps ps.length fs₁) (apart : ∀ q ∈ ps, fs.Apart q p)
    (hp : Cleaned fs₁ [p] 1 fs₂) : Cleaned fs (ps ++ [p]) (ps ++ [p]).length fs₂ := by
  have hloc (q : Path) : fs₁.locate true q = fs.locate true q :=
    locate_congr (shape_of_bare h.bare_eq) true q
  refine ⟨hp.bare_eq.trans h.bare_eq, fun q hq => ?_, by simp, fun place hne => ?_⟩
  · rw [List.take_length, List.mem_append, List.mem_singleton] at hq
    rcases hq with hq | rfl
    · obtain ⟨t, hr, hr₁⟩ := h.first q (by rwa [List.take_length])
      refine ⟨t, hr, ?_⟩
      rw [hp.readText_eq_of_one ((apart_congr h.bare_eq).mpr (apart q hq).symm), hr₁]
    · obtain ⟨t, hr₁, hr₂⟩ := hp.first q (by simp)
      rw [h.readText_eq fun r hr => (apart r hr).symm] at hr₁
      exact ⟨t, hr₁, hr₂⟩
  · have hp' : fs₁.locate true p ≠ .ok place := by
      rw [hloc]
      exact hne p (by simp)
    rw [hp.contentAt_eq_of_one hp', h.others place fun q hq => hne q (by simp [hq])]

end Cleaned

namespace Sweep
open FileSystem

/-- A dry run and a real one come to the same end, or the real one cannot write a file, and this is
the next one that the dry run reports. -/
inductive Predicts (dry real : Sweep) : Prop
  | same (outcome : dry.outcome = real.outcome) (reported : dry.reported = real.reported)
      (written : ∀ p e, real.outcome ≠ .error (.write p e))
  | unwritable {p : Path} {e : IoError} (outcome : real.outcome = .error (.write p e))
      (reported : real.reported ++ [p] <+: dry.reported)

/-- A file in front on which both agree changes neither. -/
lemma Predicts.cons {dry real dry' real' : Sweep} {f : Tally → Tally} (h : Predicts dry real)
    (front : List Path) (outcome : dry'.outcome = dry.outcome.map f)
    (outcome' : real'.outcome = real.outcome.map f)
    (reported : dry'.reported = front ++ dry.reported)
    (reported' : real'.reported = front ++ real.reported) : Predicts dry' real' := by
  cases h with
  | same ho hr written =>
    refine .same (by rw [outcome, outcome', ho]) (by rw [reported, reported', hr]) fun p e he => ?_
    rw [outcome'] at he
    cases hreal : real.outcome with
    | error failure =>
      rw [hreal] at he
      cases he
      exact written p e hreal
    | ok t =>
      rw [hreal] at he
      cases he
  | unwritable ho hr =>
    refine .unwritable (by rw [outcome', ho]; rfl) ?_
    rw [reported, reported', List.append_assoc, List.prefix_append_right_inj]
    exact hr

/-- Where the files reported so far are all that a real run has changed, it is predicted by a dry
run. -/
theorem each_predicts {report : Reporter} (quiet : report.IsQuiet)
    (ignores : report.IgnoresCleaning) {fs fs' : FileSystem} {earlier ps : List Path}
    (apart : (earlier ++ ps).Pairwise fs.Apart)
    (cleaned : Cleaned fs earlier earlier.length fs') :
    Predicts (each true report earlier ps fs) (each false report earlier ps fs') := by
  induction ps generalizing fs' earlier with
  | nil => exact .same rfl rfl fun p e he => by cases he
  | cons p ps ih =>
    have hearlier : ∀ q ∈ earlier, fs.Apart q p := fun q hq =>
      (List.pairwise_append.mp apart).2.2 q hq p List.mem_cons_self
    -- the writes so far went to other places, so the file is met as it was
    have met : fs'.readText p = fs.readText p :=
      cleaned.readText_eq fun q hq => (hearlier q hq).symm
    cases read : fs.readText p with
    | error e =>
      rw [each_cons_unreadable read, each_cons_unreadable (met.trans read)]
      exact .same rfl rfl fun p e he => by cases he
    | ok t =>
      have read' := met.trans read
      cases changed : t.clean.changed with
      | false =>
        have hrest : (earlier ++ ps).Pairwise fs.Apart :=
          apart.sublist ((List.Sublist.refl earlier).append (List.sublist_cons_self p ps))
        rw [each_cons_unmodified read changed, each_cons_unmodified read' changed]
        exact (ih hrest cleaned).cons [] rfl rfl (by simp) (by simp)
      | true =>
        have hdry := (FileResult.previewed read changed rfl).eq
        cases write : fs'.writeText p t.clean.text with
        | error e =>
          have hunreported : [Act.write p t.clean.text (some e)].filterMap Act.reported? = [] := rfl
          rw [each_cons_unwritable read' changed write]
          refine .unwritable rfl ?_
          rw [reported_mk, reported_turn, hunreported]
          cases answer : (report earlier p fs).2 with
          | some e' => simp [each_cons_refused quiet hdry answer]
          | none => simp [each_cons_accepted quiet hdry answer]
        | ok written =>
          have hreal := (FileResult.written read' changed rfl write).eq
          have hcleaned := cleaned.concat hearlier (.written read' write)
          have hanswer : (report earlier p written).2 = (report earlier p fs).2 :=
            ignores earlier p fs written hcleaned
          cases answer : (report earlier p fs).2 with
          | some e =>
            rw [each_cons_refused quiet hdry answer,
              each_cons_refused quiet hreal (hanswer.trans answer)]
            exact .same rfl (by simp) fun p e he => by cases he
          | none =>
            rw [each_cons_accepted quiet hdry answer,
              each_cons_accepted quiet hreal (hanswer.trans answer)]
            exact (ih (by rwa [List.append_assoc]) hcleaned).cons [p] rfl rfl (by simp) (by simp)

/-- A dry run predicts the real run on the same files. -/
theorem tree_predicts (s : Selection) (fs : FileSystem) {report : Reporter}
    (quiet : report.IsQuiet) (ignores : report.IgnoresCleaning) :
    Predicts (tree s true report fs) (tree s false report fs) := by
  unfold tree
  cases hc : s.collect fs with
  | error failure => exact .same rfl rfl fun p e he => by cases he
  | ok ps =>
    exact each_predicts quiet ignores (Selection.collect_pairwise_apart hc) (Cleaned.none fs [])

lemma file_dry (p : Path) (fs : FileSystem) : (file true p fs).files = fs := by
  have h := file_result true p fs
  generalize file true p fs = f at h
  cases h with
  | unreadable read => rfl
  | unmodified read changed => rfl
  | unwritable read changed dry write => cases dry
  | previewed read changed dry => rfl
  | written read changed dry write => cases dry

lemma tree_dry (s : Selection) (fs : FileSystem) {report : Reporter} (quiet : report.IsQuiet) :
    (tree s true report fs).files = fs := by
  have hfile : ∀ p fs', fs' = fs → (file true p fs').files = fs := fun p fs' h => by
    rw [file_dry, h]
  have hreport : ∀ earlier p fs', fs' = fs → (report earlier p fs').1 = fs :=
    fun earlier p fs' h => by rw [quiet, h]
  exact @tree_preserves (· = fs) true report hfile hreport s fs rfl

end Sweep

/-- The parts of a report around the verb of its last line. -/
lemma Tally.report_eq (t : Tally) (lines : Text) (dryRun : Bool) :
    lines ++ '\n' :: t.summaryLine dryRun ++ ['\n'] =
      lines ++ '\n' :: "Processed ".toList ++ Text.ofNat t.examined ++ " files, ".toList ++
        (if dryRun then "would modify" else "modified").toList ++
        (' ' :: Text.ofNat t.modified.length ++ " files".toList ++ ['\n']) := by
  unfold summaryLine
  generalize "Processed ".toList = a
  generalize " files, ".toList = b
  generalize " files".toList = c
  simp

namespace Run

variable {out : Output} {s : Selection} {dryRun : Bool} {fs : FileSystem} {t : Tally}

/-- A sweep that is reported to its end. -/
lemma sweep_ok (h : (sweep out s dryRun fs).outcome = .ok t) :
    let w := Sweep.tree s dryRun out.reporter fs
    w.outcome = .ok t ∧
    (sweep out s dryRun fs).report =
      w.reported.flatMap (fun p => Tally.reportLine p ++ ['\n']) ++
        '\n' :: t.summaryLine dryRun ++ ['\n'] := by
  intro w
  have result := sweep_result out s dryRun fs
  generalize sweep out s dryRun fs = run at h result
  cases result with
  | stopped outcome => cases h
  | refused outcome print => cases h
  | completed outcome print =>
    obtain rfl := Except.ok.inj h
    refine ⟨outcome, ?_⟩
    have hclosing := Output.print_taken print
    have hlines : w.acts.flatMap Act.printed =
        w.reported.flatMap fun p => Tally.reportLine p ++ ['\n'] :=
      Sweep.tree_printed fun e he => by cases outcome.symm.trans he
    simp [report, hclosing, hlines, w]

/-- Whether a run is a dry one makes no difference for its settings. -/
lemma setupIn_dryRun {env : Environment} {dir : Path} {r : Request} {setup : Setup}
    (h : (Layers.setupIn fs env dir r).2 = .ok setup) (dryRun : Bool) :
    (Layers.setupIn fs env dir { r with dryRun }).2 = .ok { setup with dryRun } := by
  obtain ⟨s, hs, rfl⟩ := map_eq_ok h
  have hmerged : (Layers.merge fs (Layers.sources fs env dir { r with dryRun }) {}).2 = .ok s := hs
  change Except.map _ _ = _
  rw [hmerged]
  rfl

lemma request_ok {env : Environment} {r : Request} (h : (request out env r fs).outcome = .ok t) :
    ∃ setup, (Layers.setupIn fs env (Path.ofText ['.']) r).2 = .ok setup ∧
      setup.dryRun = r.dryRun ∧
      (sweep out (Selection.ofSettings setup.settings) setup.dryRun fs).outcome = .ok t ∧
      (request out env r fs).report =
        (sweep out (Selection.ofSettings setup.settings) setup.dryRun fs).report := by
  cases configured : (Layers.setupIn fs env (Path.ofText ['.']) r).2 with
  | error e =>
    rw [request_unconfigured configured] at h
    cases h
  | ok setup =>
    rw [request_configured configured] at h ⊢
    obtain ⟨s, -, rfl⟩ := map_eq_ok configured
    exact ⟨_, rfl, rfl, h, report_tells _ _⟩

/-- The verb of the last line alone tells the report of a dry run from that of a real one. -/
lemma request_reports {env : Environment} {r : Request} {t' : Tally}
    (h : (request out env { r with dryRun := false } fs).outcome = .ok t)
    (h' : (request out env { r with dryRun := true } fs).outcome = .ok t') :
    ∃ lines : Text,
      (request out env { r with dryRun := false } fs).report =
        lines ++ '\n' :: t.summaryLine false ++ ['\n'] ∧
      (request out env { r with dryRun := true } fs).report =
        lines ++ '\n' :: t.summaryLine true ++ ['\n'] := by
  obtain ⟨setup, hs, dry, hsweep, hreport⟩ := request_ok h
  obtain ⟨setup', hs', dry', hsweep', hreport'⟩ := request_ok h'
  obtain rfl : { setup with dryRun := true } = setup' :=
    Except.ok.inj ((setupIn_dryRun hs true).symm.trans hs')
  rw [dry] at hsweep hreport
  obtain ⟨ht, hr⟩ := sweep_ok hsweep
  obtain ⟨ht', hr'⟩ := sweep_ok hsweep'
  cases Sweep.tree_predicts (Selection.ofSettings setup.settings) fs out.reporter_isQuiet
    out.reporter_ignoresCleaning with
  | same outcome reported written =>
    obtain rfl : t' = t := Except.ok.inj (ht'.symm.trans (outcome.trans ht))
    rw [reported] at hr'
    exact ⟨_, hreport.trans hr, hreport'.trans hr'⟩
  | unwritable outcome reported =>
    rw [ht] at outcome
    cases outcome

end Run

/-- A dry run leaves every file as it is. With a reporter that changes no files, and to whom it makes
no difference whether those that it has been told of are cleaned, it comes to the end of the real
run and reports the same paths, unless the real run cannot write a file: then the dry run goes on
and reports this file next. The texts of two runs that succeed differ in the verb of the last line
only. -/
theorem dry_run_predicts (s : Selection) (fs : FileSystem) {report : Reporter}
    (quiet : report.IsQuiet) :
    (Sweep.tree s true report fs).files = fs ∧
    (report.IgnoresCleaning →
      ((∀ p e, (Sweep.tree s false report fs).outcome ≠ .error (.write p e)) →
        (Sweep.tree s true report fs).outcome = (Sweep.tree s false report fs).outcome ∧
        (Sweep.tree s true report fs).reported = (Sweep.tree s false report fs).reported) ∧
      ∀ p e, (Sweep.tree s false report fs).outcome = .error (.write p e) →
        (Sweep.tree s false report fs).reported ++ [p] <+:
          (Sweep.tree s true report fs).reported) ∧
    ∀ (out : Output) (env : Environment) (r : Request) (t t' : Tally),
      (Run.request out env { r with dryRun := false } fs).outcome = .ok t →
      (Run.request out env { r with dryRun := true } fs).outcome = .ok t' →
      ∃ (lines : Text) (examined modified : Nat),
        let front := lines ++ '\n' :: "Processed ".toList ++ Text.ofNat examined ++ " files, ".toList
        let back := ' ' :: Text.ofNat modified ++ " files".toList ++ ['\n']
        (Run.request out env { r with dryRun := false } fs).report =
          front ++ "modified".toList ++ back ∧
        (Run.request out env { r with dryRun := true } fs).report =
          front ++ "would modify".toList ++ back := by
  refine ⟨Sweep.tree_dry s fs quiet, fun ignores => ?_, fun out env r t t' h h' => ?_⟩
  · cases Sweep.tree_predicts s fs quiet ignores with
    | same outcome reported written =>
      exact ⟨fun _ => ⟨outcome, reported⟩, fun p e he => absurd he (written p e)⟩
    | @unwritable p e outcome reported =>
      refine ⟨fun written => absurd outcome (written p e), fun q e' he => ?_⟩
      rw [outcome] at he
      cases he
      exact reported
  · obtain ⟨lines, hreal, hdry⟩ := Run.request_reports h h'
    exact ⟨lines, t.examined, t.modified.length, hreal.trans (t.report_eq lines false),
      hdry.trans (t.report_eq lines true)⟩

theorem dry_run_predicts_two_files :
    let fs (write : Bool) : FileSystem :=
      ⟨.dir {} [(⟨[0x62, 0x2E, 0x74, 0x73], by decide⟩,
          .file { write } (Utf8.encode "x\nlogger.warn();".toList)),
        (⟨[0x61, 0x2E, 0x74, 0x73], by decide⟩,
          .file {} (Utf8.encode "logger.info();\nx".toList))], []⟩
    let s : Selection := ⟨[0x2E], [['t', 's']], []⟩
    let second : Path := [0x2E, 0x2F, 0x62, 0x2E, 0x74, 0x73]
    let w (dryRun write : Bool) : Sweep := Sweep.tree s dryRun (Output.reporter {}) (fs write)
    let run (dryRun : Bool) : Run := Run.request {} {} { root := some ['.'], dryRun } (fs true)
    (w true true).files = fs true ∧
    (w true true).outcome = (w false true).outcome ∧
    (w false false).reported ++ [second] <+: (w true false).reported ∧
    ∃ (lines : Text) (examined modified : Nat),
      let front := lines ++ '\n' :: "Processed ".toList ++ Text.ofNat examined ++ " files, ".toList
      let back := ' ' :: Text.ofNat modified ++ " files".toList ++ ['\n']
      (run false).report = front ++ "modified".toList ++ back ∧
      (run true).report = front ++ "would modify".toList ++ back := by
  intro fs s second w run
  have quiet := Output.reporter_isQuiet {}
  have ignores := Output.reporter_ignoresCleaning {}
  obtain ⟨hfiles, hsame, hreports⟩ := dry_run_predicts s (fs true) quiet
  obtain ⟨-, hrefused, -⟩ := dry_run_predicts s (fs false) quiet
  obtain ⟨t, hok⟩ : ∃ t, (w false true).outcome = .ok t := ⟨_, rfl⟩
  have hwritten : ∀ p e, (w false true).outcome ≠ .error (.write p e) := by simp [hok]
  have hwrite : (w false false).outcome = .error (.write second .denied) := rfl
  obtain ⟨t, hreal⟩ : ∃ t, (run false).outcome = .ok t := ⟨_, rfl⟩
  obtain ⟨t', hdry⟩ : ∃ t, (run true).outcome = .ok t := ⟨_, rfl⟩
  exact ⟨hfiles, ((hsame ignores).1 hwritten).1, (hrefused ignores).2 second .denied hwrite,
    hreports {} {} { root := some ['.'] } t t' hreal hdry⟩

/-- A reporter that looks into the file it is told of can tell a dry run from a real one: it finds
the call in the dry run only, and fails there. -/
theorem dry_run_betrayed_by_looking :
    let a : Name := ⟨[0x61, 0x2E, 0x74], by decide⟩
    let fs : FileSystem :=
      ⟨.dir {} [(a, .file {} (Utf8.encode "logger.info();\nx".toList))], []⟩
    let s : Selection := ⟨[0x2E], [['t']], []⟩
    let path : Path := [0x2E, 0x2F] ++ a.bytes
    let looking : Reporter := fun _ p fs => (fs, if fs.modifies p then some .denied else none)
    looking.IsQuiet ∧
    (Sweep.tree s false looking fs).outcome = .ok ⟨1, [path], 1⟩ ∧
    (∀ p e, (Sweep.tree s false looking fs).outcome ≠ .error (.write p e)) ∧
    (Sweep.tree s true looking fs).outcome = .error (.report .denied) := by
  intro a fs s path looking
  have hreal : (Sweep.tree s false looking fs).outcome = .ok ⟨1, [path], 1⟩ := rfl
  exact ⟨fun _ _ _ => rfl, hreal, by simp [hreal], rfl⟩

end LogSweep
