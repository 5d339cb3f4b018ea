import LogSweep.Proofs.FinalState

/-! Sweeping again. A sweep that failed at a file is started anew once the file is repaired, and if
it comes to its end then, both sweeps have done the work of one: what the first one cleaned is met
in normal form and not reported again, and the repair concerns a file that it did not clean. -/
namespace LogSweep

/-- The path of the file that could not be read or written. -/
def Failure.file? : Failure → Option Path
  | .read p _ => some p
  | .write p _ => some p
  | _ => none

/-- A reporter that never fails. -/
def Reporter.Accepts (report : Reporter) : Prop := ∀ earlier p fs, (report earlier p fs).2 = none

/-- What is done to the files after a sweep. A file that could not be read or written gets another
access and content, and otherwise nothing changes. -/
inductive Repair (fs : FileSystem) : Except Failure Tally → (FileSystem → FileSystem) → Prop
  | success (t : Tally) : Repair fs (.ok t) id
  | report (cause : IoError) : Repair fs (.error (.report cause)) id
  | file {e : Failure} {p : Path} {place : Place} (failing : e.file? = some p)
      (leads : fs.LeadsTo p place) (access : Access) (content : Bytes) :
      Repair fs (.error e) (FileSystem.alterFile (fun _ => (access, content)) place)

namespace FileSystem

/-- The file that a path is read from is not the one that another path names. -/
def Clear (fs : FileSystem) (p q : Path) : Prop :=
  ∀ place, fs.locate true p = .ok place → ¬ fs.LeadsTo q place

variable {fs : FileSystem} {p q : Path}

lemma Clear.apart (h : fs.Clear p q) : fs.Apart p q := fun place hp hq =>
  h place hp (locate_leads (.inl rfl) hq)

end FileSystem

lemma Selection.collect_pairwise_clear {s : Selection} {fs : FileSystem} {ps : List Path}
    (h : s.collect fs = .ok ps) : ps.Pairwise fs.Clear :=
  (collect_nodup h).imp_of_mem fun hp hq hne _ hlp hlq =>
    hne (collect_apart h hp hq (FileSystem.locate_leads (.inl rfl) hlp) hlq)

namespace Repair
open FileSystem

variable {fs x : FileSystem} {outcome : Except Failure Tally} {repair : FileSystem → FileSystem}
  {p : Path}

lemma of_map {f : Tally → Tally} (h : Repair fs (outcome.map f) repair) :
    Repair fs outcome repair := by
  cases outcome with
  | error e => exact h
  | ok t =>
    cases h
    exact .success t

lemma shape_eq (h : Repair fs outcome repair) (x : FileSystem) : (repair x).shape = x.shape := by
  cases h with
  | success t => rfl
  | report cause => rfl
  | file failing leads access content => exact shape_alterFile ..

/-- A path apart from the failing file is read after the repair as before, and it may be written
after the repair or before. -/
lemma frame (h : Repair fs outcome repair) (hx : x.bare = fs.bare)
    (clear : ∀ e q, outcome = .error e → e.file? = some q → fs.Clear p q) :
    (repair x).readText p = x.readText p ∧
      ∀ t, (repair x).writeText p t = (x.writeText p t).map repair := by
  have hid : ∀ t, x.writeText p t = (x.writeText p t).map id := fun t => by
    cases x.writeText p t <;> rfl
  cases h with
  | success t => exact ⟨rfl, hid⟩
  | report cause => exact ⟨rfl, hid⟩
  | @file e q place failing leads access content =>
    have hne : x.locate true p ≠ .ok place := by
      rw [locate_congr (shape_of_bare hx)]
      exact fun hl => clear e q rfl failing place hl leads
    exact ⟨readText_alterFile hne, writeText_alterFile hne⟩

end Repair

namespace Sweep
open FileSystem

variable {dryRun : Bool} {report again whole : Reporter} {earlier ps : List Path}
  {fs fs' : FileSystem} {p : Path} {t : Tally}

/-- Files in normal form are counted, and nothing else happens. -/
lemma each_of_unmodified
    (h : ∀ p ∈ ps, ∃ t, fs.readText p = .ok t ∧ t.clean.changed = false) :
    (each dryRun report earlier ps fs).files = fs ∧
    (each dryRun report earlier ps fs).reported = [] ∧
    (each dryRun report earlier ps fs).outcome = .ok ⟨ps.length, [], 0⟩ := by
  induction ps with
  | nil => exact ⟨rfl, rfl, rfl⟩
  | cons p ps ih =>
    obtain ⟨t, hr, hc⟩ := h p List.mem_cons_self
    obtain ⟨hfiles, hreported, houtcome⟩ := ih fun q hq => h q (List.mem_cons_of_mem p hq)
    rw [each_cons_unmodified hr hc]
    refine ⟨hfiles, (afterUnmodified_reported ..).trans hreported, ?_⟩
    rw [afterUnmodified, houtcome]
    rfl

/-- A sweep that comes to its end does so with every reporter that never fails. -/
lemma each_of_accepts (quiet : report.IsQuiet) (quiet' : whole.IsQuiet) (accepts : whole.Accepts)
    (ok : (each dryRun report earlier ps fs).outcome = .ok t) (earlier' : List Path) :
    each dryRun whole earlier' ps fs = each dryRun report earlier ps fs := by
  induction ps generalizing earlier earlier' fs t with
  | nil => rfl
  | cons p ps ih =>
    cases read : fs.readText p with
    | error e =>
      rw [each_cons_unreadable read] at ok
      cases ok
    | ok text =>
      cases changed : text.clean.changed with
      | false =>
        rw [each_cons_unmodified read changed] at ok
        rw [each_cons_unmodified read changed, each_cons_unmodified read changed]
        obtain ⟨t', ht', -⟩ := map_eq_ok ok
        exact congrArg (afterUnmodified _) (ih ht' earlier')
      | true =>
        cases write : fs.rewrite dryRun p text.clean.text with
        | error e =>
          obtain ⟨rfl, hwrite⟩ := rewrite_eq_error write
          rw [each_cons_unwritable read changed hwrite] at ok
          cases ok
        | ok fs' =>
          have hfile := file_of_rewrite read changed write
          cases answer : (report earlier p fs').2 with
          | some e =>
            rw [each_cons_refused quiet hfile answer] at ok
            cases ok
          | none =>
            rw [each_cons_accepted quiet hfile answer] at ok ⊢
            rw [each_cons_accepted quiet' hfile (accepts ..)]
            obtain ⟨t', ht', -⟩ := map_eq_ok ok
            exact congrArg (afterModified _ p _) (ih ht' _)

/-- Two sweeps one after the other did the work of one that came to its end. -/
structure DidTogether (first second whole : Sweep) : Prop where
  outcome : ∃ t, whole.outcome = .ok t
  files : whole.files = second.files
  reported : whole.reported = first.reported ++ second.reported

namespace DidTogether

variable {first second whole : Sweep}

lemma unmodified (h : DidTogether first second whole) (p : Path) (text text' text'' : Text) :
    DidTogether (first.afterUnmodified (turn p text [])) (second.afterUnmodified (turn p text' []))
      (whole.afterUnmodified (turn p text'' [])) := by
  obtain ⟨t, ht⟩ := h.outcome
  refine ⟨⟨t.examineOne, ?_⟩, h.files, by simp [h.reported]⟩
  rw [afterUnmodified, ht]
  rfl

/-- What the first sweep modified is not modified by the second one. -/
lemma modified (h : DidTogether first second whole) (p : Path) (text text' : Text) :
    let removed := text.clean.removed
    DidTogether (first.afterModified (modifiedTurn false p text none) p removed)
      (second.afterUnmodified (turn p text' []))
      (whole.afterModified (modifiedTurn false p text none) p removed) := by
  intro removed
  obtain ⟨t, ht⟩ := h.outcome
  refine ⟨⟨(t.modifyOne p removed).examineOne, ?_⟩, h.files, by simp [h.reported]⟩
  rw [afterModified, ht]
  rfl

end DidTogether

lemma Exact.file_mem {w : Sweep} (h : Exact fs ps w) {e : Failure} {q : Path}
    (he : w.outcome = .error e) (hq : e.file? = some q) : q ∈ ps := by
  cases h with
  | completes ok state =>
    rw [ok] at he
    cases he
  | fails error state =>
    rw [error] at he
    cases he
    cases state with
    | read path refused cleaned reported =>
      cases hq
      exact List.mem_of_getElem? path
    | write path modified cleaned reported =>
      cases hq
      exact List.mem_of_getElem? path
    | report path modified cleaned reported => cases hq

/-- A file that was cleaned is met in normal form. -/
lemma cleaned_once {text : Text} (hr : fs.readText p = .ok text)
    (hw : fs.writeText p text.clean.text = .ok fs') :
    fs'.bare = fs.bare ∧ fs'.readText p = .ok text.clean.text ∧
      text.clean.text.clean.changed = false := by
  obtain ⟨place, hl, rfl⟩ := write_eq_ok hw
  refine ⟨bare_put .., readText_put hl hr _, ?_⟩
  rw [Text.clean_of_isNormal (Text.isNormal_clean text)]

section
variable {start : FileSystem} {repair : FileSystem → FileSystem}

/-- What a repair changes does not show at a path in front of the files that were swept before. -/
lemma frame_of_clear {w : Sweep} (clear : ∀ q ∈ ps, start.Clear p q) (exact : Exact fs ps w)
    (repaired : Repair start w.outcome repair) {x : FileSystem} (hx : x.bare = start.bare) :
    (repair x).readText p = x.readText p ∧
      ∀ t, (repair x).writeText p t = (x.writeText p t).map repair :=
  repaired.frame hx fun _ q he hq => clear q (exact.file_mem he hq)

/-- A path in front of the files that were swept is read after a repair as it was before. -/
lemma readText_repaired {w : Sweep} (bare : fs.bare = start.bare)
    (clear : ∀ q ∈ ps, start.Clear p q) (exact : Exact fs ps w)
    (repaired : Repair start w.outcome repair) :
    (repair w.files).readText p = fs.readText p := by
  obtain ⟨n, hc, -⟩ := exact.progress
  rw [(frame_of_clear clear exact repaired (hc.bare_eq.trans bare)).1]
  exact hc.readText_eq fun q hq => (apart_congr bare).mpr (clear q hq).apart

/-- A file is not reported again after the report about it failed. -/
lemma didTogether_of_refused {text text' : Text} {e : IoError}
    (quiet : again.IsQuiet) (quiet' : whole.IsQuiet) (accepts : whole.Accepts)
    (cleaned : file false p fs =
      ⟨fs', reading p text ++ rewriting false p text, .ok (some text.clean.removed)⟩)
    (read : fs'.readText p = .ok text') (unchanged : text'.clean.changed = false)
    (ok : (each false again earlier (p :: ps) fs').outcome = .ok t) (earlier' : List Path) :
    DidTogether ⟨fs', modifiedTurn false p text (some e), .error (.report e)⟩
      (each false again earlier (p :: ps) fs') (each false whole earlier' (p :: ps) fs) := by
  rw [each_cons_unmodified read unchanged] at ok ⊢
  obtain ⟨t', ht', -⟩ := map_eq_ok ok
  rw [each_cons_accepted quiet' cleaned (accepts ..),
    each_of_accepts quiet quiet' accepts ht' (earlier' ++ [p])]
  exact ⟨⟨_, by rw [afterModified, ht']; rfl⟩, rfl, by simp⟩

/-- If a sweep is started anew after a repair and comes to its end, one sweep of the repaired files
comes to its end too, with the same files and the reports of both. -/
theorem each_restart (quiet : report.IsQuiet) (quiet' : again.IsQuiet) (quiet'' : whole.IsQuiet)
    (accepts : whole.Accepts) (apart : ps.Pairwise start.Clear) (bare : fs.bare = start.bare)
    (earlier earlier' earlier'' : List Path)
    (repaired : Repair start (each false report earlier ps fs).outcome repair)
    (ok : (each false again earlier' ps (repair (each false report earlier ps fs).files)).outcome =
      .ok t) :
    DidTogether (each false report earlier ps fs)
      (each false again earlier' ps (repair (each false report earlier ps fs).files))
      (each false whole earlier'' ps (repair fs)) := by
  -- `start` is what the first sweep began with, and `fs` is how far it has come
  induction ps generalizing fs earlier earlier' earlier'' t with
  | nil => exact ⟨⟨_, rfl⟩, rfl, rfl⟩
  | cons p ps ih =>
    obtain ⟨clear, hps⟩ := List.pairwise_cons.mp apart
    -- where the first sweep does nothing, the other two do the same
    have hsame {e : Failure} {acts : List Act}
        (hfirst : each false report earlier (p :: ps) fs = ⟨fs, acts, .error e⟩)
        (unreported : acts.filterMap Act.reported? = []) :
        DidTogether (each false report earlier (p :: ps) fs)
          (each false again earlier' (p :: ps)
            (repair (each false report earlier (p :: ps) fs).files))
          (each false whole earlier'' (p :: ps) (repair fs)) := by
      rw [hfirst] at ok ⊢
      rw [each_of_accepts quiet' quiet'' accepts ok earlier'']
      exact ⟨⟨t, ok⟩, rfl, by simp [unreported]⟩
    have hexact {fs' : FileSystem} (hb : fs'.bare = start.bare) (earlier : List Path) :
        Exact fs' ps (each false report earlier ps fs') :=
      each_exact quiet earlier (hps.imp fun h => (apart_congr hb).mpr h.apart)
    cases hr : fs.readText p with
    | error e => exact hsame (each_cons_unreadable hr) rfl
    | ok text =>
      cases hc : text.clean.changed with
      | false =>
        rw [each_cons_unmodified hr hc] at repaired ok ⊢
        have hrest := repaired.of_map
        have hagain := readText_repaired bare clear (hexact bare earlier) hrest
        have hwhole := (frame_of_clear clear (hexact bare earlier) hrest bare).1
        rw [afterUnmodified_files, each_cons_unmodified (hagain.trans hr) hc] at ok ⊢
        rw [each_cons_unmodified (hwhole.trans hr) hc]
        obtain ⟨t', ht', -⟩ := map_eq_ok ok
        exact (ih hps bare earlier earlier' earlier'' hrest ht').unmodified p text text text
      | true =>
        cases hw : fs.writeText p text.clean.text with
        | error e => exact hsame (each_cons_unwritable hr hc hw) (reported_turn ..)
        | ok fs' =>
          have hfile := (FileResult.written hr hc rfl hw).eq
          obtain ⟨bare', hr', hc'⟩ := cleaned_once hr hw
          replace bare' := bare'.trans bare
          cases ha : (report earlier p fs').2 with
          | some e =>
            rw [each_cons_refused quiet hfile ha] at repaired ok ⊢
            cases repaired with
            | file failing leads access content => cases failing
            | report cause =>
              exact didTogether_of_refused quiet' quiet'' accepts hfile hr' hc' ok earlier''
          | none =>
            rw [each_cons_accepted quiet hfile ha] at repaired ok ⊢
            have hrest := repaired.of_map
            have hexact' := hexact bare' (earlier ++ [p])
            have hagain := readText_repaired bare' clear hexact' hrest
            obtain ⟨hwhole, hwrite⟩ := frame_of_clear clear hexact' hrest bare
            have hw' : (repair fs).writeText p text.clean.text = .ok (repair fs') := by
              rw [hwrite, hw]
              rfl
            have hfile' := (FileResult.written (hwhole.trans hr) hc rfl hw').eq
            rw [afterModified_files, each_cons_unmodified (hagain.trans hr') hc'] at ok ⊢
            rw [each_cons_accepted quiet'' hfile' (accepts ..)]
            obtain ⟨t', ht', -⟩ := map_eq_ok ok
            exact (ih hps bare' (earlier ++ [p]) earlier' (earlier'' ++ [p]) hrest ht').modified p text _

end

variable {s : Selection} {repair : FileSystem → FileSystem}

lemma tree_of_collect (hc : s.collect fs = .ok ps) :
    tree s false report fs = each false report [] ps fs := by
  rw [tree, hc]

/-- A sweep that succeeds has come to the end of the collected files. -/
lemma tree_completes (quiet : report.IsQuiet) (ok : (tree s false report fs).outcome = .ok t) :
    ∃ ps, s.collect fs = .ok ps ∧ tree s false report fs = each false report [] ps fs ∧
      Completes fs ps (tree s false report fs) t := by
  unfold tree at ok ⊢
  cases hc : s.collect fs with
  | error failure =>
    rw [hc] at ok
    cases ok
  | ok ps =>
    rw [hc] at ok
    refine ⟨ps, rfl, rfl, ?_⟩
    dsimp only at ok ⊢
    cases each_exact quiet [] (Selection.collect_pairwise_apart hc) with
    | fails error state =>
      rw [error] at ok
      cases ok
    | completes ok' state =>
      rw [ok'] at ok
      cases ok
      exact state

/-- The sweep after one that succeeded finds all files in normal form. -/
lemma tree_again (quiet : report.IsQuiet) (ok : (tree s false report fs).outcome = .ok t) :
    (tree s false again (tree s false report fs).files).files = (tree s false report fs).files ∧
    (tree s false again (tree s false report fs).files).reported = [] ∧
    (tree s false again (tree s false report fs).files).outcome = .ok ⟨t.examined, [], 0⟩ := by
  obtain ⟨ps, hc, -, state⟩ := tree_completes quiet ok
  have hagain := (Selection.collect_congr (shape_of_bare state.cleaned.bare_eq) s).trans hc
  rw [tree_of_collect hagain, state.examined]
  refine each_of_unmodified fun p hp => ?_
  rw [← List.take_length (l := ps)] at hp
  obtain ⟨text, -, hr⟩ := state.cleaned.first p hp
  exact ⟨_, hr, by rw [Text.clean_of_isNormal (Text.isNormal_clean text)]⟩

/-- A sweep that succeeds reports no path twice. -/
lemma tree_reported_nodup (quiet : report.IsQuiet)
    (ok : (tree s false report fs).outcome = .ok t) : (tree s false report fs).reported.Nodup := by
  obtain ⟨ps, hc, -, state⟩ := tree_completes quiet ok
  rw [state.reported]
  exact (Selection.collect_nodup hc).filter _

/-- A sweep that succeeds goes the same way with every reporter that never fails. -/
lemma tree_of_accepts (quiet : report.IsQuiet) (quiet' : whole.IsQuiet) (accepts : whole.Accepts)
    (ok : (tree s false report fs).outcome = .ok t) :
    tree s false whole fs = tree s false report fs := by
  obtain ⟨ps, hc, hw, -⟩ := tree_completes quiet ok
  rw [hw] at ok ⊢
  rw [tree_of_collect hc, each_of_accepts quiet quiet' accepts ok []]

lemma tree_didTogether (quiet : report.IsQuiet) (quiet' : again.IsQuiet) (quiet'' : whole.IsQuiet)
    (accepts : whole.Accepts) (repaired : Repair fs (tree s false report fs).outcome repair)
    (ok : (tree s false again (repair (tree s false report fs).files)).outcome = .ok t) :
    DidTogether (tree s false report fs)
      (tree s false again (repair (tree s false report fs).files))
      (tree s false whole (repair fs)) := by
  cases hc : s.collect fs with
  | error failure =>
    -- a walk that fails leaves nothing to repair
    rw [tree, hc] at repaired
    cases repaired with
    | file failing leads access content => cases failing
  | ok ps =>
    rw [tree_of_collect hc] at repaired ok ⊢
    obtain ⟨n, cleaned, -⟩ := (each_exact quiet [] (Selection.collect_pairwise_apart hc)).progress
    have hshape := (repaired.shape_eq _).trans (shape_of_bare cleaned.bare_eq)
    have hagain := (Selection.collect_congr hshape s).trans hc
    have hwhole := (Selection.collect_congr (repaired.shape_eq fs) s).trans hc
    rw [tree_of_collect hagain] at ok ⊢
    rw [tree_of_collect hwhole]
    exact each_restart quiet quiet' quiet'' accepts (Selection.collect_pairwise_clear hc) rfl
      [] [] [] repaired ok

/-- A sweep that is started anew loses nothing and repeats nothing. After one that succeeded the
next one counts the same files and does nothing else. After one that failed at a file, the next one
may succeed once the file is repaired: then one sweep of the repaired files would have succeeded
too, and one that succeeds leaves the same files and reports what the two reported, no path
twice. -/
theorem tree_restart (s : Selection) (fs : FileSystem) {report again : Reporter}
    (quiet : report.IsQuiet) (quiet' : again.IsQuiet) :
    let first := tree s false report fs
    (∀ t, first.outcome = .ok t →
      let second := tree s false again first.files
      second.files = first.files ∧ second.reported = [] ∧
        second.outcome = .ok ⟨t.examined, [], 0⟩) ∧
    ∀ repair, Repair fs first.outcome repair →
      let second := tree s false again (repair first.files)
      ∀ t, second.outcome = .ok t → ∀ single : Reporter, single.IsQuiet →
        let whole := tree s false single (repair fs)
        (single.Accepts → ∃ t', whole.outcome = .ok t') ∧
        ∀ t', whole.outcome = .ok t' →
          whole.files = second.files ∧ whole.reported = first.reported ++ second.reported ∧
            whole.reported.Nodup := by
  intro first
  refine ⟨fun t ok => tree_again quiet ok, ?_⟩
  intro repair repaired second t ok single quiet'' whole
  refine ⟨fun accepts => (tree_didTogether quiet quiet' quiet'' accepts repaired ok).outcome,
    fun t' ok' => ?_⟩
  -- another reporter might fail, but the one that succeeded did what any other would have done
  have hall : (Output.reporter {}).Accepts := fun _ _ _ => rfl
  have h := tree_didTogether quiet quiet' (Output.reporter_isQuiet {}) hall repaired ok
  have hwhole := tree_of_accepts quiet'' (Output.reporter_isQuiet {}) hall ok'
  rw [hwhole] at h
  exact ⟨h.files, h.reported, tree_reported_nodup quiet'' ok'⟩

theorem tree_restart_unreadable_file :
    let a : Name := ⟨[0x61, 0x2E, 0x70], by decide⟩
    let b : Name := ⟨[0x62, 0x2E, 0x70], by decide⟩
    let fs : FileSystem := ⟨.dir {} [(b, .file { read := false } [0xFF]),
      (a, .file {} (Utf8.encode "logger.info();\nx".toList))], []⟩
    let sweep (fs : FileSystem) : Sweep :=
      tree ⟨[0x2E], [['p']], []⟩ false (Output.reporter {}) fs
    let repair := FileSystem.alterFile
      (fun _ => ({}, Utf8.encode "y\nlogger.warn();".toList)) [b]
    let path (n : Name) : Path := [0x2E, 0x2F] ++ n.bytes
    let first := sweep fs
    let second := sweep (repair first.files)
    let whole := sweep (repair fs)
    let third := sweep second.files
    first.outcome = .error (.read (path b) .denied) ∧
    whole.files = second.files ∧ whole.reported = first.reported ++ second.reported ∧
    first.reported = [path a] ∧ second.reported = [path b] ∧
    third.files = second.files ∧ third.reported = [] := by
  intro a b fs sweep repair path first second whole third
  have quiet := Output.reporter_isQuiet {}
  have hfirst : first.outcome = .error (.read (path b) .denied) := rfl
  have repaired : Repair fs first.outcome repair := by
    rw [hfirst]
    exact .file rfl (locate_leads (.inl rfl) rfl) _ _
  have hsecond : second.outcome = .ok ⟨2, [path b], 1⟩ :=
    eq_ok_of_toOption (by decide +kernel)
  have hwhole : whole.outcome = .ok ⟨2, [path a, path b], 2⟩ :=
    eq_ok_of_toOption (by decide +kernel)
  obtain ⟨hfiles, hreported, -⟩ :=
    ((tree_restart _ fs quiet quiet).2 repair repaired _ hsecond _ quiet).2 _ hwhole
  obtain ⟨hthird, hnone, -⟩ := (tree_restart _ (repair first.files) quiet quiet).1 _ hsecond
  refine ⟨hfirst, hfiles, hreported, ?_, ?_, hthird, hnone⟩
  · decide +kernel
  · decide +kernel

end Sweep
end LogSweep
