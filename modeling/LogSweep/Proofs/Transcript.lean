import LogSweep.Proofs.DryRun
import LogSweep.Proofs.Restart
import LogSweep.Proofs.Turns

/-! The report of a run, on an output that takes every line. It names the files that the run
changed, each once and in the order in which they were handled, whatever ends the run, and the
totals of a run that succeeds are the number of collected files and the number of lines above. -/
namespace LogSweep

namespace FileSystem

/-- Paths that lead, one by one and in order, to all the files whose content another file system has
otherwise. -/
structure ChangesAt (fs fs' : FileSystem) (paths : List Path) (places : List Place) : Prop where
  leads : List.Forall₂ (fun p place => fs.locate true p = .ok place) paths places
  nodup : places.Nodup
  changed : ∀ place, place ∈ places ↔ fs'.contentAt place ≠ fs.contentAt place

variable {fs fs' : FileSystem} {dryRun : Bool} {p : Path} {t : Text}

lemma changesAt_self (fs : FileSystem) : fs.ChangesAt fs [] [] :=
  ⟨.nil, List.nodup_nil, fun place => by simp⟩

/-- The file that is read lies at the place to which its path leads. -/
lemma content_of_readText (h : fs.readText p = .ok t) :
    ∃ place content, fs.locate true p = .ok place ∧ fs.contentAt place = some content ∧
      Utf8.decode? content = some t := by
  obtain ⟨content, hread, ht⟩ := readText_eq_ok h
  obtain ⟨place, access, hl, hg, -⟩ := read_eq_ok_iff.mp hread
  exact ⟨place, content, hl, contentAt_eq_some.mpr ⟨access, hg⟩, ht⟩

/-- Paths that lead to different places, with these places. -/
lemma exists_places {ps : List Path} (found : ∀ p ∈ ps, ∃ place, fs.locate true p = .ok place)
    (apart : ps.Pairwise fs.Apart) :
    ∃ places, List.Forall₂ (fun p place => fs.locate true p = .ok place) ps places ∧
      places.Nodup ∧ ∀ place, place ∈ places ↔ ∃ p ∈ ps, fs.locate true p = .ok place := by
  induction ps with
  | nil => exact ⟨[], .nil, List.nodup_nil, by simp⟩
  | cons p ps ih =>
    obtain ⟨hap, hps⟩ := List.pairwise_cons.mp apart
    obtain ⟨place, hl⟩ := found p List.mem_cons_self
    obtain ⟨places, hfound, hnodup, hmem⟩ :=
      ih (fun q hq => found q (List.mem_cons_of_mem p hq)) hps
    refine ⟨place :: places, .cons hl hfound, List.nodup_cons.mpr ⟨fun h => ?_, hnodup⟩, ?_⟩
    · obtain ⟨q, hq, hlq⟩ := (hmem place).mp h
      exact hap q hq place hl hlq
    · intro there
      rw [List.mem_cons, hmem]
      constructor
      · rintro (rfl | ⟨q, hq, hlq⟩)
        · exact ⟨p, List.mem_cons_self, hl⟩
        · exact ⟨q, List.mem_cons_of_mem p hq, hlq⟩
      · rintro ⟨q, hq, hlq⟩
        rcases List.mem_cons.mp hq with rfl | hq
        · exact .inl (Except.ok.inj (hlq.symm.trans hl))
        · exact .inr ⟨q, hq, hlq⟩

/-- A rewritten file changes nothing that is met at the other paths. -/
lemma rewrite_frame (read : fs.readText p = .ok t)
    (write : fs.rewrite dryRun p t.clean.text = .ok fs') :
    fs'.bare = fs.bare ∧ ∀ q, fs.Apart p q → fs'.readText q = fs.readText q := by
  cases dryRun with
  | true =>
    cases write
    exact ⟨rfl, fun _ _ => rfl⟩
  | false =>
    have hwritten := Cleaned.written read write
    exact ⟨hwritten.bare_eq, fun q apart => hwritten.readText_eq_of_one apart⟩

end FileSystem

namespace Sweep
open FileSystem

variable {report : Reporter} {earlier ps : List Path} {fs : FileSystem} {p : Path} {t : Text}
  {place : Place} {content : Bytes}

/-- A file whose text is in normal form is never written. -/
lemma each_keeps (dryRun : Bool) (quiet : report.IsQuiet) (earlier ps : List Path)
    (h : fs.contentAt place = some content) (ht : Utf8.decode? content = some t)
    (normal : t.clean.changed = false) :
    (each dryRun report earlier ps fs).files.contentAt place = some content := by
  refine @each_preserves (·.contentAt place = some content) dryRun report ?_ ?_ earlier ps fs h
  · intro p fs h
    rcases (file_result dryRun p fs).files_eq with hf | ⟨there, content', t', hc, ht', changed, hf⟩
    · rwa [hf]
    · rw [hf, contentAt_put]
      split
      · next heq =>
        subst heq
        obtain rfl : content = content' := Option.some.inj (h.symm.trans hc)
        obtain rfl : t = t' := Option.some.inj (ht.symm.trans ht')
        rw [normal] at changed
        cases changed
      · exact h
  · intro earlier p fs h
    rwa [quiet earlier p fs]

/-- Wherever a sweep ends, the files that changed are those that were reported. -/
theorem each_changed_iff_reported (quiet : report.IsQuiet) (earlier : List Path)
    (apart : ps.Pairwise fs.Apart) (place : Place) :
    (each false report earlier ps fs).files.contentAt place ≠ fs.contentAt place ↔
      ∃ p ∈ (each false report earlier ps fs).reported, fs.locate true p = .ok place := by
  obtain ⟨n, cleaned, reported⟩ := (each_exact quiet earlier apart).progress
  rw [reported]
  constructor
  · intro hne
    obtain ⟨p, hp, hl⟩ : ∃ p ∈ ps, fs.locate true p = .ok place := by
      by_contra hno
      exact hne (cleaned.others place fun p hp hl => hno ⟨p, hp, hl⟩)
    rw [← List.take_append_drop n ps, List.mem_append] at hp
    rcases hp with hfirst | hlater
    · obtain ⟨t, hread, -⟩ := cleaned.first p hfirst
      obtain ⟨place', content, hl', hcontent, ht⟩ := content_of_readText hread
      obtain rfl : place = place' := Except.ok.inj (hl.symm.trans hl')
      refine ⟨p, List.mem_filter.mpr ⟨hfirst, ?_⟩, hl⟩
      rw [modifies_of_readText hread]
      by_contra hnormal
      have hkept := each_keeps false quiet earlier ps hcontent ht (Bool.eq_false_iff.mpr hnormal)
      exact hne (hkept.trans hcontent.symm)
    · exact absurd (cleaned.later p hlater place hl) hne
  · rintro ⟨p, hp, hl⟩ heq
    obtain ⟨hfirst, modified⟩ := List.mem_filter.mp hp
    obtain ⟨t, hread, hread'⟩ := cleaned.first p hfirst
    -- with its old content the file would be read as its old text, which is not in normal form
    have hsame : t.clean.text = t := by
      rw [readText_congr cleaned.bare_eq fun place' hl' => ?_, hread] at hread'
      · exact (Except.ok.inj hread').symm
      · obtain rfl : place = place' := Except.ok.inj (hl.symm.trans hl')
        exact heq
    have hchanged : t.clean.changed = (t.clean.text != t) := rfl
    rw [modifies_of_readText hread, hchanged, hsame, bne_self_eq_false] at modified
    cases modified

/-- What a sweep reported are the paths of the changed files. -/
lemma each_changesAt (quiet : report.IsQuiet) (earlier : List Path)
    (apart : ps.Pairwise fs.Apart) :
    ∃ places, fs.ChangesAt (each false report earlier ps fs).files
      (each false report earlier ps fs).reported places := by
  obtain ⟨n, cleaned, reported⟩ := (each_exact quiet earlier apart).progress
  have hsublist : ((ps.take n).filter fs.modifies).Sublist ps :=
    List.filter_sublist.trans (List.take_sublist n ps)
  have found : ∀ p ∈ (each false report earlier ps fs).reported,
      ∃ place, fs.locate true p = .ok place := by
    intro p hp
    rw [reported] at hp
    obtain ⟨t, hread, -⟩ := cleaned.first p (List.mem_filter.mp hp).1
    obtain ⟨place, content, hl, -⟩ := content_of_readText hread
    exact ⟨place, hl⟩
  obtain ⟨places, leads, nodup, hmem⟩ :=
    exists_places found (reported ▸ apart.sublist hsublist)
  exact ⟨places, leads, nodup, fun place =>
    (hmem place).trans (each_changed_iff_reported quiet earlier apart place).symm⟩

/-- A sweep leaves the bare tree as it is. A dry one changes nothing, and a real one the files that
it reports. -/
lemma each_effect (dryRun : Bool) (quiet : report.IsQuiet) (earlier : List Path)
    (apart : ps.Pairwise fs.Apart) :
    let w := each dryRun report earlier ps fs
    w.files.bare = fs.bare ∧
      if dryRun then w.files = fs else ∃ places, fs.ChangesAt w.files w.reported places := by
  intro w
  cases dryRun with
  | true =>
    have hfiles : w.files = fs := by
      refine @each_preserves (· = fs) true report ?_ ?_ earlier ps fs rfl
      · exact fun p fs' h => by rw [file_dry, h]
      · exact fun earlier p fs' h => by rw [quiet, h]
    exact ⟨by rw [hfiles], hfiles⟩
  | false =>
    obtain ⟨n, cleaned, -⟩ := (each_exact quiet earlier apart).progress
    exact ⟨cleaned.bare_eq, each_changesAt quiet earlier apart⟩

/-- A sweep handles some files to the end: all of them, or those in front of one that cannot be read
or written. Those that cleaning changes are reported. -/
inductive Passes (fs : FileSystem) (ps : List Path) (w : Sweep) : List Path → Prop
  | completes {t : Tally} (ok : w.outcome = .ok t) (examined : t.examined = ps.length)
      (modified : t.modified = w.reported) (reported : w.reported = ps.filter fs.modifies) :
      Passes fs ps w ps
  | stops {k : Nat} {p : Path} {cause : IoError} (path : ps[k]? = some p)
      (error : w.outcome = .error (.read p cause) ∨ w.outcome = .error (.write p cause))
      (reported : w.reported = (ps.take k).filter fs.modifies) : Passes fs ps w (ps.take k)

variable {dryRun : Bool} {fs' : FileSystem} {handled : List Path} {w w' : Sweep}

lemma Passes.reported_eq (h : Passes fs ps w handled) :
    w.reported = handled.filter fs.modifies := by
  cases h with
  | completes ok examined modified reported => exact reported
  | stops path error reported => exact reported

/-- The totals are the number of the files handled and of those reported. -/
lemma Passes.closing (h : Passes fs ps w handled) (dryRun : Bool) :
    (match w.outcome with
      | .error _ => []
      | .ok t => '\n' :: t.summaryLine dryRun ++ ['\n']) =
    if w.outcome.isOk then
      '\n' :: "Processed ".toList ++ Text.ofNat handled.length ++ " files, ".toList ++
        (if dryRun then "would modify" else "modified").toList ++
        (' ' :: Text.ofNat (handled.filter fs.modifies).length ++ " files".toList ++ ['\n'])
    else [] := by
  cases h with
  | @completes t ok examined modified reported =>
    have hok : (Except.ok t : Except Failure Tally).isOk = true := rfl
    rw [ok, if_pos hok, ← reported, ← modified, ← examined]
    exact t.report_eq [] dryRun
  | stops path error reported => rcases error with error | error <;> rw [error] <;> rfl

lemma Passes.cons {f : Tally → Tally} (h : Passes fs' ps w handled)
    (met : ∀ q ∈ ps, fs'.readText q = fs.readText q) (outcome : w'.outcome = w.outcome.map f)
    (reported : w'.reported = [p].filter fs.modifies ++ w.reported)
    (examined : ∀ t, (f t).examined = t.examined + 1)
    (modified : ∀ t, (f t).modified = [p].filter fs.modifies ++ t.modified) :
    Passes fs (p :: ps) w' (p :: handled) := by
  have hfilter {qs : List Path} (hqs : qs ⊆ ps) :
      [p].filter fs.modifies ++ qs.filter fs'.modifies = (p :: qs).filter fs.modifies := by
    have hmet : qs.filter fs'.modifies = qs.filter fs.modifies := List.filter_congr fun q hq => by
      rw [modifies, modifies, cleaning?_congr (met q (hqs hq))]
    rw [hmet, ← List.filter_append, List.singleton_append]
  cases h with
  | @completes t ok examined' modified' reported' =>
    refine .completes (t := f t) (by rw [outcome, ok]; rfl) ?_ ?_ ?_
    · rw [examined, examined', List.length_cons]
    · rw [modified, modified', reported]
    · rw [reported, reported', hfilter (List.Subset.refl ps)]
  | @stops k q cause path error reported' =>
    have herror : w'.outcome = .error (.read q cause) ∨ w'.outcome = .error (.write q cause) :=
      error.imp (fun h => by rw [outcome, h]; rfl) fun h => by rw [outcome, h]; rfl
    refine .stops (k := k + 1) path herror ?_
    · rw [reported, reported', hfilter (List.take_subset k ps), List.take_succ_cons]

/-- With a reporter that never fails, files whose paths lead to different places are handled one
after the other. -/
theorem each_passes (dryRun : Bool) (quiet : report.IsQuiet) (accepts : report.Accepts)
    (earlier : List Path) (apart : ps.Pairwise fs.Apart) :
    ∃ handled, Passes fs ps (each dryRun report earlier ps fs) handled := by
  induction ps generalizing earlier fs with
  | nil => exact ⟨[], .completes rfl rfl rfl rfl⟩
  | cons p ps ih =>
    obtain ⟨hap, hps⟩ := List.pairwise_cons.mp apart
    cases read : fs.readText p with
    | error e =>
      rw [each_cons_unreadable read]
      exact ⟨_, .stops (k := 0) rfl (.inl rfl) rfl⟩
    | ok t =>
      have hm := modifies_of_readText read
      cases changed : t.clean.changed with
      | false =>
        obtain ⟨handled, h⟩ := ih earlier hps
        rw [each_cons_unmodified read changed]
        refine ⟨_, h.cons (fun _ _ => rfl) rfl ?_ (fun _ => rfl) fun t => ?_⟩
        · simp [hm, changed]
        · simp [Tally.examineOne, hm, changed]
      | true =>
        cases write : fs.rewrite dryRun p t.clean.text with
        | error e =>
          obtain ⟨rfl, hwrite⟩ := rewrite_eq_error write
          rw [each_cons_unwritable read changed hwrite]
          exact ⟨_, .stops (k := 0) rfl (.inr rfl) (reported_turn ..)⟩
        | ok written =>
          obtain ⟨bare, met⟩ := rewrite_frame read write
          have hps' : ps.Pairwise written.Apart := hps.imp (apart_congr bare).mpr
          obtain ⟨handled, h⟩ := ih (earlier ++ [p]) hps'
          rw [each_cons_accepted quiet (file_of_rewrite read changed write) (accepts ..)]
          refine ⟨_, h.cons (fun q hq => met q (hap q hq)) rfl ?_ (fun _ => rfl) fun t => ?_⟩
          · simp [hm, changed]
          · simp [Tally.examineOne, Tally.modifyOne, hm, changed]

/-- A reporter that never fails ends no sweep. -/
lemma tree_taken (s : Selection) (dryRun : Bool) (quiet : report.IsQuiet)
    (accepts : report.Accepts) (fs : FileSystem) (e : IoError) :
    (tree s dryRun report fs).outcome ≠ .error (.report e) := by
  unfold tree
  cases collected : s.collect fs with
  | error failure => nofun
  | ok ps =>
    obtain ⟨handled, passes⟩ :=
      each_passes dryRun quiet accepts [] (Selection.collect_pairwise_apart collected)
    intro he
    cases passes with
    | completes ok => cases ok.symm.trans he
    | stops path error => rcases error with error | error <;> cases error.symm.trans he

end Sweep

namespace Run
open FileSystem

/-- The files that a run handles to the end, and what ends the run. -/
inductive Handles (env : Environment) (r : Request) (fs : FileSystem) (run : Run) :
    List Path → Prop
  | unconfigured {e : Failure}
      (rejected : (Layers.setupIn fs env (Path.ofText ['.']) r).2 = .error e)
      (outcome : run.outcome = .error e) (files : run.files = fs) : Handles env r fs run []
  | unwalked {setup : Setup} {p : Path} {cause : IoError}
      (configured : (Layers.setupIn fs env (Path.ofText ['.']) r).2 = .ok setup)
      (stuck : (Selection.ofSettings setup.settings).collect fs = .error (p, cause))
      (outcome : run.outcome = .error (.walk p cause)) (files : run.files = fs) :
      Handles env r fs run []
  | stopped {setup : Setup} {ps : List Path} {k : Nat} {p : Path} {cause : IoError}
      (configured : (Layers.setupIn fs env (Path.ofText ['.']) r).2 = .ok setup)
      (collected : (Selection.ofSettings setup.settings).collect fs = .ok ps) (path : ps[k]? = some p)
      (outcome : run.outcome = .error (.read p cause) ∨ run.outcome = .error (.write p cause)) :
      Handles env r fs run (ps.take k)
  | completed {setup : Setup} {ps : List Path} {t : Tally}
      (configured : (Layers.setupIn fs env (Path.ofText ['.']) r).2 = .ok setup)
      (collected : (Selection.ofSettings setup.settings).collect fs = .ok ps)
      (outcome : run.outcome = .ok t) : Handles env r fs run ps

/-- A sweep whose output takes every line. -/
lemma sweep_taken (s : Selection) (dryRun : Bool) (fs : FileSystem) :
    let w := Sweep.tree s dryRun (Output.reporter {}) fs
    let run := sweep {} s dryRun fs
    run.files = w.files ∧ run.outcome = w.outcome ∧
    run.report = w.reported.flatMap (fun p => Tally.reportLine p ++ ['\n']) ++
      match w.outcome with
      | .error _ => []
      | .ok t => '\n' :: t.summaryLine dryRun ++ ['\n'] := by
  intro w run
  have hlines : w.acts.flatMap Act.printed =
      w.reported.flatMap fun p => Tally.reportLine p ++ ['\n'] :=
    Sweep.tree_printed (Sweep.tree_taken s dryRun (Output.reporter_isQuiet {}) (fun _ _ _ => rfl) fs)
  have result : SweepResult {} s dryRun w run := sweep_result {} s dryRun fs
  generalize run = x at result ⊢
  cases result with
  | stopped outcome =>
    rw [outcome]
    exact ⟨rfl, rfl, hlines.trans (List.append_nil _).symm⟩
  | refused outcome print => cases print
  | completed outcome print =>
    have hclosing := Output.print_taken print
    rw [outcome]
    refine ⟨rfl, rfl, ?_⟩
    simp [report, hlines, hclosing]

/-- On an output that takes every line, the report of a run consists of a line for each file that it
handled and that cleaning changes, in this order, and after a success the totals follow: the number
of all collected files and the number of the lines above. Unless the run is a dry one, these lines
name the changed files and no others, each once, however the run ends. -/
theorem request_report (env : Environment) (r : Request) (fs : FileSystem) :
    let run := request {} env r fs
    ∃ handled, run.Handles env r fs handled ∧
      let printed := handled.filter fs.modifies
      run.report = printed.flatMap (fun p => "✓ ".toList ++ p.display ++ ['\n']) ++
        (if run.outcome.isOk then
          '\n' :: "Processed ".toList ++ Text.ofNat handled.length ++ " files, ".toList ++
            (if r.dryRun then "would modify" else "modified").toList ++
            (' ' :: Text.ofNat printed.length ++ " files".toList ++ ['\n'])
        else []) ∧
      run.files.bare = fs.bare ∧
      if r.dryRun then run.files = fs else ∃ places, fs.ChangesAt run.files printed places := by
  intro run
  have quiet := Output.reporter_isQuiet {}
  have accepts : (Output.reporter {}).Accepts := fun _ _ _ => rfl
  have hnone {run : Run} (h : run.files = fs) : run.files.bare = fs.bare ∧
      if r.dryRun then run.files = fs else ∃ places, fs.ChangesAt run.files [] places := by
    rw [h]
    refine ⟨rfl, ?_⟩
    split
    · rfl
    · exact ⟨[], changesAt_self fs⟩
  cases configured : (Layers.setupIn fs env (Path.ofText ['.']) r).2 with
  | error e =>
    have hrun : run = _ := request_unconfigured configured
    have outcome : run.outcome = .error e := by rw [hrun]
    have files : run.files = fs := by rw [hrun]
    have written : run.report = [] := by
      rw [hrun]
      exact printed_tells _
    refine ⟨[], .unconfigured configured outcome files, ?_, hnone files⟩
    rw [written, outcome]
    rfl
  | ok setup =>
    have hrun : run = _ := request_configured configured
    obtain ⟨files', outcome', report'⟩ :=
      sweep_taken (Selection.ofSettings setup.settings) setup.dryRun fs
    have hfiles := (congrArg files hrun).trans files'
    have houtcome := (congrArg outcome hrun).trans outcome'
    have hreport := ((congrArg report hrun).trans (report_tells _ _)).trans report'
    have hdry : setup.dryRun = r.dryRun := by
      obtain ⟨s, -, rfl⟩ := map_eq_ok configured
      rfl
    rw [hdry] at hfiles houtcome hreport
    unfold Sweep.tree at hfiles houtcome hreport
    cases collected : (Selection.ofSettings setup.settings).collect fs with
    | error failure =>
      obtain ⟨p, cause⟩ := failure
      rw [collected] at hfiles houtcome hreport
      refine ⟨[], .unwalked configured collected houtcome hfiles, ?_, hnone hfiles⟩
      rw [hreport, houtcome]
      rfl
    | ok ps =>
      rw [collected] at hfiles houtcome hreport
      dsimp only at hfiles houtcome hreport
      have apart := Selection.collect_pairwise_apart collected
      obtain ⟨handled, passes⟩ := Sweep.each_passes r.dryRun quiet accepts [] apart
      obtain ⟨bare, changes⟩ := Sweep.each_effect r.dryRun quiet [] apart
      rw [passes.reported_eq] at hreport changes
      refine ⟨handled, ?_, ?_, by rw [hfiles, bare], by rwa [hfiles]⟩
      · cases passes with
        | completes ok examined modified reported =>
          exact .completed configured collected (houtcome.trans ok)
        | stops path error reported =>
          exact .stopped configured collected path (error.imp houtcome.trans houtcome.trans)
      · rw [hreport, houtcome, passes.closing]
        rfl

end Run
end LogSweep
