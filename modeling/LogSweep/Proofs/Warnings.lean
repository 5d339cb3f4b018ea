import LogSweep.Proofs.Acts
import LogSweep.Proofs.Verbosity

/-! No text that ends inside a call is cut off silently. At a level that shows warnings, such a text
is warned of before its file is written or reported, and the file is one that the run modifies or
fails on. -/
namespace LogSweep

/-- What is due are the warnings about the texts that were read. -/
lemma Act.flatMap_due (acts : List Act) :
    acts.flatMap due = (acts.filterMap read?).flatMap fun x => Sweep.warnings x.1 x.2.clean := by
  induction acts with
  | nil => rfl
  | cons a acts ih =>
    rw [List.flatMap_cons, ih]
    cases a <;> rfl

namespace FileSystem

variable {fs : FileSystem} {p q : Path} {t : Text}

lemma reading?_eq_some (h : fs.reading? q = some (p, t)) : q = p ∧ fs.readText p = .ok t := by
  obtain ⟨t', ht', heq⟩ := Option.map_eq_some_iff.mp h
  obtain ⟨rfl, rfl⟩ := Prod.mk.inj heq
  exact ⟨rfl, eq_ok_of_toOption ht'⟩

lemma flatMap_warnings (fs : FileSystem) (ps : List Path) :
    ((ps.filterMap fs.reading?).flatMap fun x => Sweep.warnings x.1 x.2.clean) =
      (ps.filter fs.endsInsideCall).map .unterminated := by
  induction ps with
  | nil => rfl
  | cons p ps ih =>
    cases read : fs.readText p with
    | error e =>
      have hclosed := endsInsideCall_of_error read
      rw [List.filterMap_cons_none (reading?_of_error read),
        List.filter_cons_of_neg (by simp [hclosed]), ih]
    | ok t =>
      have hopen := endsInsideCall_of_readText read
      rw [List.filterMap_cons_some (reading?_of_readText read), List.flatMap_cons, ih,
        Sweep.warnings, List.filter_cons, hopen]
      split <;> rfl

end FileSystem

/-- At a level that shows warnings, all of them are shown. -/
lemma Event.filter_shownAt {level : Severity} (h : Severity.warn.shownAt level)
    (es : List Event) : (shownAt level es).filter isWarning = es.filter isWarning := by
  rw [shownAt, List.filter_filter]
  refine List.filter_congr fun e _ => ?_
  cases hw : e.isWarning with
  | false => rfl
  | true =>
    have hsev : e.severity = .warn := eq_of_beq hw
    rw [hsev, h, Bool.and_self]

namespace Act

variable {level : Severity} {acts : List Act}

/-- An act that is done at no level tells of something. -/
lemma eq_tell_of_not_done {a : Act} (h : a.doneAt level = false) :
    ∃ e, a = tell e ∧ e.severity.shownAt level = false := by
  cases a <;> simp_all [doneAt]

lemma doneAt_of_handled {a : Act} {p : Path} (h : a.handled? = some p) :
    a.doneAt level = true := by
  cases a <;> cases h <;> rfl

/-- At a level that shows warnings, what is done is warned of as before. -/
lemma Warned.doneAt (h : Warned acts) (shown : Severity.warn.shownAt level) :
    Warned (acts.filter (doneAt level)) where
  warnings := by
    have hdue : (acts.filter (Act.doneAt level)).flatMap due = acts.flatMap due := by
      rw [flatMap_due, flatMap_due, List.filterMap_filter]
      congr 1
      refine List.filterMap_congr fun a _ => ?_
      cases a with
      | tell e => cases h : Act.doneAt level (.tell e) <;> rfl
      | _ => rfl
    rw [told_doneAt, Event.filter_shownAt shown, h.warnings, hdue]
  ahead front a back p heq ha := by
    obtain ⟨front', back', rfl, rfl, hback⟩ := List.filter_eq_append_iff.mp heq
    obtain ⟨skipped, rest, rfl, hskipped, -, -⟩ := List.filter_eq_cons_iff.mp hback
    obtain ⟨t, hread, htell⟩ := h.ahead (front' ++ skipped) a rest p (by simp) ha
    have hkept {b : Act} (hb : b ∈ front' ++ skipped) (done : b.doneAt level) :
        b ∈ front'.filter (Act.doneAt level) := by
      rcases List.mem_append.mp hb with hb | hb
      · exact List.mem_filter.mpr ⟨hb, done⟩
      · exact absurd done (hskipped b hb)
    refine ⟨t, hkept hread rfl, fun e he => hkept (htell e he) ?_⟩
    have hwarning : e.severity = .warn := eq_of_beq (warnings_isWarning he).1
    rwa [Act.doneAt, hwarning]

end Act

/-- At a level that shows warnings, what is done comes to the same. -/
lemma Enacts.doneAt {fs files : FileSystem} {examined : List Path} {acts : List Act}
    {outcome : Except Failure Tally} {level : Severity}
    (h : Enacts fs examined acts files outcome) (shown : Severity.warn.shownAt level) :
    Enacts fs examined (acts.filter (Act.doneAt level)) files outcome where
  files := by
    rw [List.foldl_filter, ← h.files]
    congr 1
    funext fs a
    split
    · rfl
    · next undone =>
      obtain ⟨e, rfl, -⟩ := Act.eq_tell_of_not_done (Bool.eq_false_iff.mpr undone)
      rfl
  warned := h.warned.doneAt shown
  reads := by
    rw [← h.reads, List.filterMap_filter]
    refine List.filterMap_congr fun a _ => ?_
    cases a with
    | tell e => cases h : Act.doneAt level (.tell e) <;> rfl
    | _ => rfl
  accounted p hp hopen := (h.accounted p hp hopen).mono
    (fun a ha hhandled => List.mem_filter.mpr ⟨ha, Act.doneAt_of_handled hhandled⟩) fun _ he => he

namespace Program
open FileSystem

/-- Nothing is cut off silently. At a level that shows warnings, those that an execution shows are
exactly one for each examined file whose text ends inside a call, in the order of the walk, however
the run ends. Each comes before every attempt to write or report that file, and the file is
reported, and counted if the run succeeds, or the run fails because it cannot be reported or
written. All this is told of the acts of the execution, which lead to the files that it leaves and
to all that it writes to its outputs. -/
theorem execute_warns (out : Output) (env : Environment) (fs : FileSystem) {args : List Bytes}
    {i : Invocation} (accepted : CommandLine.parse env args = .ok i)
    (level : Severity.warn.shownAt (Severity.ofText i.level)) :
    let x := execute out env args fs
    let run := Run.request out env i.request fs
    let examined := run.events.filterMap Event.examined?
    x.acts = (.tell .starting :: run.acts).filter (Act.doneAt (Severity.ofText i.level)) ∧
    x.acts.foldl Act.after fs = x.files ∧
    examined <+: Run.candidates env i.request fs ∧ examined.Nodup ∧
    x.acts.filterMap Act.read? = examined.filterMap fs.reading? ∧
    (x.acts.filterMap Act.told?).filter Event.isWarning =
      (examined.filter fs.endsInsideCall).map .unterminated ∧
    (∀ front a back p, x.acts = front ++ a :: back → a.handled? = some p →
      fs.endsInsideCall p → .tell (.unterminated p) ∈ front) ∧
    ∀ p ∈ examined, fs.endsInsideCall p →
      (.report p none ∈ x.acts ∧ ∀ t, run.outcome = .ok t → p ∈ t.modified) ∨
      (∃ cause, .report p (some cause) ∈ x.acts ∧ run.outcome = .error (.report cause)) ∨
      ∃ t cause, .write p t (some cause) ∈ x.acts ∧ run.outcome = .error (.write p cause) := by
  intro x run examined
  have hx : x = invoke out env i fs := execute_of_ok accepted out fs
  have hacts : x.acts = (.tell .starting :: run.acts).filter
      (Act.doneAt (Severity.ofText i.level)) := hx ▸ invoke_acts out env i fs
  have hfiles : x.files = run.files := hx ▸ invoke_files out env i fs
  have starting : ∀ a ∈ [Act.tell .starting], a.IsNeutral :=
    List.forall_mem_singleton.mpr (.tells ⟨rfl, rfl⟩)
  have unfolds : Unfolds fs (Run.candidates env i.request fs) (.tell .starting :: run.acts)
      run.files run.outcome := by
    have h := (Run.request_unfolds out env i.request fs).between starting
      (List.forall_mem_nil _) (fun _ he => he) fun _ ok => ok
    rwa [List.append_nil] at h
  have prefixed : examined <+: Run.candidates env i.request fs := unfolds.examined
  have h : Enacts fs examined x.acts x.files run.outcome := by
    rw [hacts, hfiles]
    exact unfolds.enacts.doneAt level
  refine ⟨hacts, h.files, prefixed,
    (Run.candidates_nodup env i.request fs).sublist prefixed.sublist, h.reads, ?_, ?_, ?_⟩
  · rw [h.warned.warnings, Act.flatMap_due, h.reads, flatMap_warnings]
  · intro front a back p heq ha hopen
    obtain ⟨t, hread, htell⟩ := h.warned.ahead front a back p heq ha
    have hmem : (p, t) ∈ x.acts.filterMap Act.read? := by
      rw [heq]
      exact List.mem_filterMap.mpr ⟨_, List.mem_append_left _ hread, rfl⟩
    rw [h.reads] at hmem
    obtain ⟨q, -, hq⟩ := List.mem_filterMap.mp hmem
    obtain ⟨rfl, read⟩ := reading?_eq_some hq
    rw [endsInsideCall_of_readText read] at hopen
    exact htell _ (by simp [Sweep.warnings, hopen])
  · intro p hp hopen
    cases h.accounted p hp hopen with
    | reported report =>
      refine .inl ⟨report, fun t ok => unfolds.counted t ok p ?_⟩
      rw [hacts] at report
      exact (List.mem_filter.mp report).1
    | unreported report failed => exact .inr (.inl ⟨_, report, failed⟩)
    | unwritten write failed => exact .inr (.inr ⟨_, _, write, failed⟩)

/-- The first of two files ends inside a call and cannot be written, so the second has no turn. It is
warned of before the attempt to write it. -/
theorem execute_warns_unwritable :
    let t : Text := "a\nlogger.info(\nx".toList
    let cut : Entry := .file { write := false } (Utf8.encode t)
    let src : Entry := .dir {} [(⟨[0x62, 0x2E, 0x74, 0x73], by decide⟩, cut),
      (⟨[0x61, 0x2E, 0x74, 0x73], by decide⟩, cut)]
    let fs : FileSystem := ⟨.dir {} [(⟨[0x73], by decide⟩, src)], []⟩
    let args : List Bytes := [Utf8.encode ['s']]
    let a : Path := Path.ofText "s/a.ts".toList
    let x := execute {} {} args fs
    let run := Run.request {} {} { root := some ['s'] } fs
    CommandLine.parse {} args = .ok ⟨{ root := some ['s'] }, "warn".toList⟩ ∧
    Severity.warn.shownAt (Severity.ofText "warn".toList) = true ∧
    run.events.filterMap Event.examined? = [a] ∧ fs.endsInsideCall a = true ∧
    x.acts = [.read a t, .tell (.unterminated a), .write a t.clean.text (some .denied)] ∧
    (x.acts.filterMap Act.told?).filter Event.isWarning = [.unterminated a] ∧
    run.outcome = .error (.write a .denied) := by
  intro t cut src fs args a x run
  have accepted : CommandLine.parse {} args = .ok ⟨{ root := some ['s'] }, "warn".toList⟩ := rfl
  have level : Severity.warn.shownAt (Severity.ofText "warn".toList) = true := by decide
  have examined : run.events.filterMap Event.examined? = [a] := by decide +kernel
  have hopen : fs.endsInsideCall a = true := by decide +kernel
  obtain ⟨-, -, -, -, -, warned, -⟩ := execute_warns {} {} fs accepted level
  refine ⟨accepted, level, examined, hopen, by decide +kernel, ?_, rfl⟩
  rw [warned, examined, List.filter_cons_of_pos hopen]
  rfl

end Program
end LogSweep
