import LogSweep.Proofs.Shrinking
import LogSweep.Proofs.Transcript

/-! What the acts of a run come to. Done one after the other, they leave the files that the run
leaves, and a text that ends inside a call is warned of after the act that reads it and before any
act that handles its file. -/
namespace LogSweep

namespace Event

def isWarning (e : Event) : Bool := e.severity == .warn

/-- The event neither is a warning nor begins the turn of a file. -/
def IsNeutral (e : Event) : Prop := e.isWarning = false ∧ e.examined? = none

end Event

namespace Act

def read? : Act → Option (Path × Text)
  | read p t => some (p, t)
  | _ => none

/-- The path of a file that is written or reported, refused or not. -/
def handled? : Act → Option Path
  | write p _ _ => some p
  | report p _ => some p
  | _ => none

/-- The warnings that are due when a text is read. -/
def due : Act → List Event
  | read p t => Sweep.warnings p t.clean
  | _ => []

/-- The files after an act. -/
def after (fs : FileSystem) : Act → FileSystem
  | write p t none => (fs.writeText p t).toOption.getD fs
  | _ => fs

/-- The paths whose turns are begun by some acts. -/
def examined (acts : List Act) : List Path := (acts.filterMap told?).filterMap Event.examined?

/-- What may be done about a file after its text was read and warned of. -/
inductive Handles (p : Path) : Act → Prop
  | writes (t : Text) (refusal : Option IoError) : Handles p (write p t refusal)
  | tells (removed : Nat) (dryRun : Bool) : Handles p (tell (.cleaned p removed dryRun))
  | reports (refusal : Option IoError) : Handles p (report p refusal)

/-- What may be done that is about no file of the tree. -/
inductive IsNeutral : Act → Prop
  | tells {e : Event} (neutral : e.IsNeutral) : IsNeutral (tell e)
  | prints (t : Text) (refusal : Option IoError) : IsNeutral (print t refusal)

/-- The warnings that are told are those that were due, in the order in which the texts were read,
and each file is handled after it was read and warned of. -/
structure Warned (acts : List Act) : Prop where
  warnings : (acts.filterMap told?).filter Event.isWarning = acts.flatMap due
  ahead : ∀ front a back p, acts = front ++ a :: back → a.handled? = some p →
    ∃ t, read p t ∈ front ∧ ∀ e ∈ Sweep.warnings p t.clean, tell e ∈ front

variable {p : Path} {t : Text} {acts acts' handling : List Act}

/-- An act of two histories is one of the first or one of the second. -/
lemma split_append {front back : List Act} {a : Act} (h : acts ++ acts' = front ++ a :: back) :
    (∃ back', acts = front ++ a :: back') ∨
    ∃ front', front = acts ++ front' ∧ acts' = front' ++ a :: back := by
  rcases List.append_eq_append_iff.mp h with ⟨front', hfront, hacts'⟩ | ⟨between, hacts, hback⟩
  · exact .inr ⟨front', hfront, hacts'⟩
  · cases between with
    | nil => exact .inr ⟨[], by simpa using hacts.symm, hback.symm⟩
    | cons b between =>
      obtain ⟨rfl, -⟩ := List.cons.inj hback
      exact .inl ⟨between, hacts⟩

lemma Warned.append (h : Warned acts) (h' : Warned acts') : Warned (acts ++ acts') where
  warnings := by
    rw [List.filterMap_append, List.filter_append, h.warnings, h'.warnings, List.flatMap_append]
  ahead front a back p heq ha := by
    rcases split_append heq with ⟨back', hacts⟩ | ⟨front', rfl, hacts'⟩
    · exact h.ahead front a back' p hacts ha
    · obtain ⟨t, hread, htell⟩ := h'.ahead front' a back p hacts' ha
      exact ⟨t, List.mem_append_right _ hread, fun e he => List.mem_append_right _ (htell e he)⟩

lemma examined_append (acts acts' : List Act) :
    examined (acts ++ acts') = examined acts ++ examined acts' := by
  rw [examined, List.filterMap_append, List.filterMap_append]
  rfl

/-! Acts about no file. -/

lemma IsNeutral.silent {a : Act} (h : a.IsNeutral) :
    a.due = [] ∧ a.read? = none ∧ a.handled? = none ∧ ∀ fs, after fs a = fs := by
  cases h <;> exact ⟨rfl, rfl, rfl, fun _ => rfl⟩

lemma IsNeutral.of_told {a : Act} {e : Event} (h : a.IsNeutral) (told : a.told? = some e) :
    e.IsNeutral := by
  cases h with
  | tells neutral =>
    cases told
    exact neutral
  | prints t refusal => cases told

lemma neutral_tells {events : List Event} (h : ∀ e ∈ events, e.IsNeutral) :
    ∀ a ∈ events.map tell, a.IsNeutral := by
  intro a ha
  obtain ⟨e, he, rfl⟩ := List.mem_map.mp ha
  exact .tells (h e he)

lemma examined_of_neutral (h : ∀ a ∈ acts, a.IsNeutral) : examined acts = [] := by
  refine List.filterMap_eq_nil_iff.mpr fun e he => ?_
  obtain ⟨a, ha, told⟩ := List.mem_filterMap.mp he
  exact ((h a ha).of_told told).2

lemma reads_of_neutral (h : ∀ a ∈ acts, a.IsNeutral) : acts.filterMap read? = [] :=
  List.filterMap_eq_nil_iff.mpr fun a ha => (h a ha).silent.2.1

lemma after_of_neutral (h : ∀ a ∈ acts, a.IsNeutral) (fs : FileSystem) :
    acts.foldl after fs = fs := by
  induction acts with
  | nil => rfl
  | cons a acts ih =>
    obtain ⟨ha, hacts⟩ := List.forall_mem_cons.mp h
    rw [List.foldl_cons, ha.silent.2.2.2, ih hacts]

lemma warned_of_neutral (h : ∀ a ∈ acts, a.IsNeutral) : Warned acts where
  warnings := by
    have hdue : acts.flatMap due = [] :=
      List.flatMap_eq_nil_iff.mpr fun a ha => (h a ha).silent.1
    rw [hdue, List.filter_eq_nil_iff]
    intro e he
    obtain ⟨a, ha, told⟩ := List.mem_filterMap.mp he
    simp [((h a ha).of_told told).1]
  ahead front a back p heq ha := by
    have hmem : a ∈ acts := heq ▸ List.mem_append_right front List.mem_cons_self
    rw [(h a hmem).silent.2.2.1] at ha
    cases ha

/-! One file. -/

lemma Handles.silent {a : Act} (h : a.Handles p) : a.due = [] ∧ a.read? = none := by
  cases h <;> exact ⟨rfl, rfl⟩

lemma Handles.of_told {a : Act} {e : Event} (h : a.Handles p) (told : a.told? = some e) :
    e.IsNeutral := by
  cases h <;> cases told
  exact ⟨rfl, rfl⟩

lemma Handles.of_handled {a : Act} {q : Path} (h : a.Handles p) (handled : a.handled? = some q) :
    q = p := by
  cases h <;> cases handled <;> rfl

lemma warnings_isWarning {c : Cleaning} {e : Event} (h : e ∈ Sweep.warnings p c) :
    e.isWarning = true ∧ e.examined? = none := by
  unfold Sweep.warnings at h
  split at h
  · obtain rfl := List.mem_singleton.mp h
    exact ⟨rfl, rfl⟩
  · cases h

end Act

namespace Sweep
open Act

variable {p : Path} {t : Text} {handling : List Act}

lemma read?_turn (handles : ∀ a ∈ handling, a.Handles p) :
    (turn p t handling).filterMap read? = [(p, t)] := by
  have hwarnings : ((warnings p t.clean).map Act.tell).filterMap read? = [] := by simp [read?]
  have hhandling : handling.filterMap read? = [] :=
    List.filterMap_eq_nil_iff.mpr fun a ha => (handles a ha).silent.2
  have hread : (Act.read p t).read? = some (p, t) := rfl
  rw [turn, List.filterMap_cons_none rfl, reading, List.cons_append,
    List.filterMap_cons_some hread, List.filterMap_append, hwarnings, hhandling]
  rfl

lemma examined_turn (handles : ∀ a ∈ handling, a.Handles p) :
    examined (turn p t handling) = [p] := by
  have hhandling : (handling.filterMap told?).filterMap Event.examined? = [] := by
    refine List.filterMap_eq_nil_iff.mpr fun e he => ?_
    obtain ⟨a, ha, told⟩ := List.mem_filterMap.mp he
    exact ((handles a ha).of_told told).2
  rw [examined, told_turn, examined?_examining, hhandling]

lemma after_turn (p : Path) (t : Text) (handling : List Act) (fs : FileSystem) :
    (turn p t handling).foldl after fs = handling.foldl after fs := by
  have hreading : (reading p t).foldl after fs = fs := by
    simp [reading, List.foldl_map, after]
  rw [turn, List.foldl_cons, List.foldl_append]
  exact congrArg (handling.foldl after ·) hreading

/-- A file is handled in order. -/
lemma warned_turn (handles : ∀ a ∈ handling, a.Handles p) : Warned (turn p t handling) where
  warnings := by
    have hquiet : (handling.filterMap told?).filter Event.isWarning = [] := by
      rw [List.filter_eq_nil_iff]
      intro e he
      obtain ⟨a, ha, told⟩ := List.mem_filterMap.mp he
      simp [((handles a ha).of_told told).1]
    have hdue : handling.flatMap due = [] :=
      List.flatMap_eq_nil_iff.mpr fun a ha => (handles a ha).silent.1
    have hall : (warnings p t.clean).filter Event.isWarning = warnings p t.clean :=
      List.filter_eq_self.mpr fun e he => (warnings_isWarning he).1
    have hexamining : (Event.examining p).isWarning = false := rfl
    rw [told_turn, List.filter_cons_of_neg (by simp [hexamining]), List.filter_append, hall,
      hquiet, turn, List.flatMap_cons, List.flatMap_append, hdue]
    simp [reading, due]
  ahead front a back q heq ha := by
    have hhead : turn p t handling = (Act.tell (.examining p) :: reading p t) ++ handling := rfl
    rcases split_append (hhead.symm.trans heq) with ⟨back', hfirst⟩ | ⟨front', hfront, hlater⟩
    · have hmem : a ∈ Act.tell (.examining p) :: reading p t :=
        hfirst ▸ List.mem_append_right front List.mem_cons_self
      simp only [reading, List.mem_cons, List.mem_map] at hmem
      rcases hmem with rfl | rfl | ⟨e, -, rfl⟩ <;> cases ha
    · have hmem : a ∈ handling := hlater ▸ List.mem_append_right front' List.mem_cons_self
      obtain rfl := (handles a hmem).of_handled ha
      rw [hfront]
      exact ⟨t, by simp [reading], fun e he => by simp [reading, he]⟩

end Sweep

namespace FileSystem

/-- The file that a path leads to holds a text which ends inside a call. -/
def endsInsideCall (fs : FileSystem) (p : Path) : Bool :=
  (fs.cleaning? p).any Cleaning.unterminated

/-- What is read at a path, if it is a text. -/
def reading? (fs : FileSystem) (p : Path) : Option (Path × Text) :=
  (fs.readText p).toOption.map fun t => (p, t)

variable {fs fs' : FileSystem} {p : Path} {t : Text}

lemma endsInsideCall_of_readText (h : fs.readText p = .ok t) :
    fs.endsInsideCall p = t.clean.unterminated := by
  rw [endsInsideCall, cleaning?_of_readText h, Option.any_some]

lemma endsInsideCall_of_error {e : IoError} (h : fs.readText p = .error e) :
    fs.endsInsideCall p = false := by
  rw [endsInsideCall, cleaning?, h]
  rfl

lemma endsInsideCall_congr (h : fs'.readText p = fs.readText p) :
    fs'.endsInsideCall p = fs.endsInsideCall p := by
  rw [endsInsideCall, endsInsideCall, cleaning?_congr h]

lemma reading?_of_readText (h : fs.readText p = .ok t) : fs.reading? p = some (p, t) := by
  rw [reading?, h]
  rfl

lemma reading?_of_error {e : IoError} (h : fs.readText p = .error e) : fs.reading? p = none := by
  rw [reading?, h]
  rfl

lemma reading?_congr (h : fs'.readText p = fs.readText p) :
    fs'.reading? p = fs.reading? p := by
  rw [reading?, reading?, h]

end FileSystem

/-- A file is reported, or the failure is that it cannot be reported or written. -/
inductive Accounted (acts : List Act) (outcome : Except Failure Tally) (p : Path) : Prop
  | reported (report : .report p none ∈ acts)
  | unreported {cause : IoError} (report : .report p (some cause) ∈ acts)
      (failed : outcome = .error (.report cause))
  | unwritten {t : Text} {cause : IoError} (write : .write p t (some cause) ∈ acts)
      (failed : outcome = .error (.write p cause))

/-- What acts on files come to. They lead to the given files, the examined paths are those whose
texts are read, with warnings where they are due, and a file whose text ends inside a call is
accounted for. -/
structure Enacts (fs : FileSystem) (examined : List Path) (acts : List Act) (files : FileSystem)
    (outcome : Except Failure Tally) : Prop where
  files : acts.foldl Act.after fs = files
  warned : Act.Warned acts
  reads : acts.filterMap Act.read? = examined.filterMap fs.reading?
  accounted : ∀ p ∈ examined, fs.endsInsideCall p → Accounted acts outcome p

variable {fs fs' files : FileSystem} {p : Path} {t : Text} {examined : List Path}
  {acts later hs : List Act} {outcome outcome' : Except Failure Tally}

lemma Accounted.mono (h : Accounted acts outcome p)
    (kept : ∀ a ∈ acts, a.handled? = some p → a ∈ later)
    (fails : ∀ e, outcome = .error e → outcome' = .error e) : Accounted later outcome' p := by
  cases h with
  | reported report => exact .reported (kept _ report rfl)
  | unreported report failed => exact .unreported (kept _ report rfl) (fails _ failed)
  | unwritten write failed => exact .unwritten (kept _ write rfl) (fails _ failed)

namespace Enacts
open FileSystem

lemma nothing (fs : FileSystem) (outcome : Except Failure Tally) : Enacts fs [] [] fs outcome where
  files := rfl
  warned := Act.warned_of_neutral nofun
  reads := rfl
  accounted := nofun

/-- A file that holds a text in front of others. -/
lemma cons (rest : Enacts fs' examined later files outcome) (read : fs.readText p = .ok t)
    (handles : ∀ a ∈ hs, a.Handles p) (met : ∀ q ∈ examined, fs'.readText q = fs.readText q)
    (between : hs.foldl Act.after fs = fs')
    (fails : ∀ e, outcome = .error e → outcome' = .error e)
    (accounted : t.clean.unterminated → Accounted hs outcome' p) :
    Enacts fs (p :: examined) (Sweep.turn p t hs ++ later) files outcome' where
  files := by rw [List.foldl_append, Sweep.after_turn, between, rest.files]
  warned := (Sweep.warned_turn handles).append rest.warned
  reads := by
    rw [List.filterMap_append, Sweep.read?_turn handles, rest.reads,
      List.filterMap_cons_some (reading?_of_readText read), List.singleton_append]
    exact congrArg _ (List.filterMap_congr fun q hq => reading?_congr (met q hq))
  accounted q hq hopen := by
    rcases List.mem_cons.mp hq with rfl | hq
    · rw [endsInsideCall_of_readText read] at hopen
      exact (accounted hopen).mono (fun a ha _ => by simp [Sweep.turn, ha]) fun _ he => he
    · rw [← endsInsideCall_congr (met q hq)] at hopen
      exact (rest.accounted q hq hopen).mono (fun a ha _ => List.mem_append_right _ ha) fails

/-- A file that cannot be read as a text ends the sweep. -/
lemma unreadable {e : IoError} (read : fs.readText p = .error e) :
    Enacts fs [p] [.tell (.examining p)] fs (.error (.read p e)) where
  files := rfl
  warned := ⟨rfl, fun front a back q heq ha => by
    have hmem : a ∈ [Act.tell (.examining p)] :=
      heq ▸ List.mem_append_right front List.mem_cons_self
    obtain rfl := List.mem_singleton.mp hmem
    cases ha⟩
  reads := by
    rw [List.filterMap_cons_none (reading?_of_error read)]
    rfl
  accounted q hq hopen := by
    obtain rfl := List.mem_singleton.mp hq
    rw [endsInsideCall_of_error read] at hopen
    cases hopen

/-- Acts about no file in front and behind, which may end in a failure of their own. -/
lemma between {before behind : List Act} (h : Enacts fs examined acts files outcome)
    (hbefore : ∀ a ∈ before, a.IsNeutral) (hbehind : ∀ a ∈ behind, a.IsNeutral)
    (fails : ∀ e, outcome = .error e → outcome' = .error e) :
    Enacts fs examined (before ++ acts ++ behind) files outcome' where
  files := by
    rw [List.foldl_append, List.foldl_append, Act.after_of_neutral hbefore, h.files,
      Act.after_of_neutral hbehind]
  warned := ((Act.warned_of_neutral hbefore).append h.warned).append (Act.warned_of_neutral hbehind)
  reads := by
    rw [List.filterMap_append, List.filterMap_append, Act.reads_of_neutral hbefore, h.reads,
      Act.reads_of_neutral hbehind, List.append_nil, List.nil_append]
  accounted p hp hopen :=
    (h.accounted p hp hopen).mono (fun a ha _ => by simp [ha]) fails

end Enacts

namespace Sweep
open FileSystem

variable {dryRun : Bool} {report : Reporter} {earlier ps : List Path}

/-! What is done about a file once its text is read. -/

lemma handles_rewriting (dryRun : Bool) (p : Path) (t : Text) (refusal : Option IoError) :
    ∀ a ∈ rewriting dryRun p t ++ [.report p refusal], a.Handles p := by
  intro a ha
  cases dryRun with
  | true =>
    simp only [rewriting, if_true, List.nil_append, List.mem_append, List.mem_singleton] at ha
    rcases ha with rfl | rfl
    · exact .tells _ _
    · exact .reports _
  | false =>
    simp only [rewriting, Bool.false_eq_true, if_false, List.mem_append, List.mem_singleton] at ha
    rcases ha with (rfl | rfl) | rfl
    · exact .writes _ _
    · exact .tells _ _
    · exact .reports _

lemma after_rewriting (write : fs.rewrite dryRun p t.clean.text = .ok fs')
    (refusal : Option IoError) :
    (rewriting dryRun p t ++ [Act.report p refusal]).foldl Act.after fs = fs' := by
  cases dryRun with
  | true => exact Except.ok.inj write
  | false =>
    have hwrite : fs.writeText p t.clean.text = .ok fs' := write
    simp [rewriting, Act.after, hwrite, Except.toOption]

/-- With a quiet reporter, the acts of a sweep come to what the sweep leads to. -/
theorem each_enacts (dryRun : Bool) (quiet : report.IsQuiet) (earlier : List Path)
    (apart : ps.Pairwise fs.Apart) :
    let w := each dryRun report earlier ps fs
    ∃ examined, Act.examined w.acts = examined ∧ examined <+: ps ∧
      Enacts fs examined w.acts w.files w.outcome := by
  induction ps generalizing earlier fs with
  | nil => exact ⟨[], rfl, List.nil_prefix, .nothing fs _⟩
  | cons p ps ih =>
    obtain ⟨hap, hps⟩ := List.pairwise_cons.mp apart
    cases read : fs.readText p with
    | error e =>
      rw [each_cons_unreadable read]
      exact ⟨[p], rfl, ⟨ps, rfl⟩, .unreadable read⟩
    | ok t =>
      have hfirst {hs later : List Act} {examined : List Path} (handles : ∀ a ∈ hs, a.Handles p)
          (hlater : Act.examined later = examined) :
          Act.examined (turn p t hs ++ later) = p :: examined := by
        rw [Act.examined_append, examined_turn handles, hlater, List.singleton_append]
      cases changed : t.clean.changed with
      | false =>
        obtain ⟨examined, hexamined, began, rest⟩ := ih earlier hps
        have closed : ¬ t.clean.unterminated := fun hopen => by
          rw [Text.changed_of_unterminated hopen] at changed
          cases changed
        rw [each_cons_unmodified read changed]
        exact ⟨_, hfirst (List.forall_mem_nil _) hexamined, List.cons_prefix_cons.mpr ⟨rfl, began⟩,
          rest.cons read (List.forall_mem_nil _) (fun _ _ => rfl) rfl
            (fun e he => by simp [afterUnmodified, he, Except.map]) fun hopen => absurd hopen closed⟩
      | true =>
        cases write : fs.rewrite dryRun p t.clean.text with
        | error e =>
          obtain ⟨rfl, hwrite⟩ := rewrite_eq_error write
          have handles : ∀ a ∈ [Act.write p t.clean.text (some e)], a.Handles p := by
            simpa using Act.Handles.writes t.clean.text (some e)
          have rest := Enacts.nothing fs (.error (.write p e))
          rw [each_cons_unwritable read changed hwrite, ← List.append_nil (turn p t _)]
          exact ⟨_, hfirst handles rfl, ⟨ps, rfl⟩, rest.cons read handles (List.forall_mem_nil _) rfl
            (fun _ he => he) fun _ => .unwritten List.mem_cons_self rfl⟩
        | ok written =>
          obtain ⟨bare, met⟩ := rewrite_frame read write
          have hfile := file_of_rewrite read changed write
          cases answer : (report earlier p written).2 with
          | some e =>
            have handles := handles_rewriting dryRun p t (some e)
            have rest := Enacts.nothing written (.error (.report e))
            rw [each_cons_refused quiet hfile answer, modifiedTurn, ← List.append_nil (turn p t _)]
            exact ⟨_, hfirst handles rfl, ⟨ps, rfl⟩, rest.cons read handles (List.forall_mem_nil _)
              (after_rewriting write _) (fun _ he => he) fun _ => .unreported (by simp) rfl⟩
          | none =>
            have handles := handles_rewriting dryRun p t none
            have hps' : ps.Pairwise written.Apart := hps.imp (apart_congr bare).mpr
            obtain ⟨examined, hexamined, began, rest⟩ := ih (earlier ++ [p]) hps'
            rw [each_cons_accepted quiet hfile answer]
            exact ⟨_, hfirst handles hexamined, List.cons_prefix_cons.mpr ⟨rfl, began⟩,
              rest.cons read handles (fun q hq => met q (hap q (began.subset hq)))
                (after_rewriting write _) (fun e he => by simp [afterModified, he, Except.map])
                fun _ => .reported (by simp)⟩

/-- The totals name the reported files. -/
lemma each_modified {tally : Tally} (ok : (each dryRun report earlier ps fs).outcome = .ok tally) :
    tally.modified = (each dryRun report earlier ps fs).reported := by
  obtain ⟨turns, h⟩ := each_turns dryRun report earlier ps fs
  have hending := h.ending
  rw [ok] at hending
  cases hending with
  | completes paths succeeded => exact h.reported.symm

end Sweep

lemma Layers.merge_isNeutral (fs : FileSystem) (ps : List Path) (s : Settings) :
    ∀ e ∈ (merge fs ps s).1, e.IsNeutral := by
  induction ps generalizing s with
  | nil => nofun
  | cons p ps ih =>
    rw [merge]
    cases config fs p with
    | error e => nofun
    | ok c => exact List.forall_mem_cons.mpr ⟨⟨rfl, rfl⟩, ih _⟩

lemma Output.print_isNeutral (out : Output) (before : Nat) (lines : List Text) :
    ∀ a ∈ (out.print before lines).1, a.IsNeutral := by
  induction lines generalizing before with
  | nil => nofun
  | cons l lines ih =>
    rw [print]
    cases out.refuses before with
    | some e => exact List.forall_mem_singleton.mpr (.prints _ _)
    | none => exact List.forall_mem_cons.mpr ⟨.prints _ _, ih _⟩

/-- What the acts about a tree come to. Some of the collected files in front are examined, and the
totals of a success name the reported files. -/
structure Unfolds (fs : FileSystem) (ps : List Path) (acts : List Act) (files : FileSystem)
    (outcome : Except Failure Tally) : Prop where
  examined : Act.examined acts <+: ps
  enacts : Enacts fs (Act.examined acts) acts files outcome
  counted : ∀ t, outcome = .ok t → ∀ p, .report p none ∈ acts → p ∈ t.modified

lemma Unfolds.nothing (fs : FileSystem) (e : Failure) : Unfolds fs [] [] fs (.error e) :=
  ⟨List.nil_prefix, .nothing fs _, nofun⟩

lemma Unfolds.between {ps : List Path} {before behind : List Act}
    (h : Unfolds fs ps acts files outcome) (hbefore : ∀ a ∈ before, a.IsNeutral)
    (hbehind : ∀ a ∈ behind, a.IsNeutral) (fails : ∀ e, outcome = .error e → outcome' = .error e)
    (succeeds : ∀ t, outcome' = .ok t → outcome = .ok t) :
    Unfolds fs ps (before ++ acts ++ behind) files outcome' := by
  have hexamined : Act.examined (before ++ acts ++ behind) = Act.examined acts := by
    rw [Act.examined_append, Act.examined_append, Act.examined_of_neutral hbefore,
      Act.examined_of_neutral hbehind, List.append_nil, List.nil_append]
  have hunreported {as : List Act} {p : Path} (has : ∀ a ∈ as, a.IsNeutral) :
      Act.report p none ∉ as := fun hmem => by cases has _ hmem
  refine ⟨hexamined ▸ h.examined, hexamined ▸ h.enacts.between hbefore hbehind fails, ?_⟩
  intro t ok p hp
  rw [List.mem_append, List.mem_append] at hp
  have hmem := (hp.resolve_right (hunreported hbehind)).resolve_left (hunreported hbefore)
  exact h.counted t (succeeds t ok) p hmem

namespace Run
open FileSystem

/-- The files that a run collects. -/
def candidates (env : Environment) (r : Request) (fs : FileSystem) : List Path :=
  match (Layers.setupIn fs env (Path.ofText ['.']) r).2 with
  | .error _ => []
  | .ok setup => ((Selection.ofSettings setup.settings).collect fs).toOption.getD []

lemma tree_unfolds (out : Output) (s : Selection) (dryRun : Bool) (fs : FileSystem) :
    let w := Sweep.tree s dryRun out.reporter fs
    Unfolds fs ((s.collect fs).toOption.getD []) w.acts w.files w.outcome := by
  unfold Sweep.tree
  cases collected : s.collect fs with
  | error failure => exact .nothing fs _
  | ok ps =>
    obtain ⟨examined, rfl, began, h⟩ := Sweep.each_enacts dryRun out.reporter_isQuiet []
      (Selection.collect_pairwise_apart collected)
    refine ⟨began, h, fun t ok p hp => ?_⟩
    rw [Sweep.each_modified ok]
    exact List.mem_filterMap.mpr ⟨_, hp, rfl⟩

lemma sweep_unfolds (out : Output) (s : Selection) (dryRun : Bool) (fs : FileSystem) :
    let run := sweep out s dryRun fs
    Unfolds fs ((s.collect fs).toOption.getD []) run.acts run.files run.outcome := by
  intro run
  have tree := tree_unfolds out s dryRun fs
  have starting : ∀ a ∈ [Act.tell (.sweepStarting s dryRun)], a.IsNeutral :=
    List.forall_mem_singleton.mpr (.tells ⟨rfl, rfl⟩)
  have result : SweepResult out s dryRun _ run := sweep_result out s dryRun fs
  generalize run = x at result ⊢
  cases result with
  | stopped outcome =>
    have h := tree.between starting (List.forall_mem_nil _) (fun _ he => he) fun _ ok => ok
    rwa [List.append_nil, outcome] at h
  | @refused t closing e outcome print =>
    have hclosing := out.print_isNeutral (Sweep.tree s dryRun out.reporter fs).reported.length
      [[], t.summaryLine dryRun]
    rw [print] at hclosing
    exact tree.between starting hclosing (fun e he => by cases outcome.symm.trans he) nofun
  | @completed t closing outcome print =>
    have hclosing := out.print_isNeutral (Sweep.tree s dryRun out.reporter fs).reported.length
      [[], t.summaryLine dryRun]
    rw [print] at hclosing
    have finished : (Act.tell (.sweepFinished t.removed)).IsNeutral := .tells ⟨rfl, rfl⟩
    have hbehind : ∀ a ∈ closing ++ [.tell (.sweepFinished t.removed)], a.IsNeutral :=
      List.forall_mem_append.mpr ⟨hclosing, List.forall_mem_singleton.mpr finished⟩
    have h : Unfolds fs _ _ _ (.ok t) := tree.between starting hbehind
      (fun e he => by cases outcome.symm.trans he) fun t' ok => outcome.trans ok
    rwa [← List.append_assoc] at h

theorem request_unfolds (out : Output) (env : Environment) (r : Request) (fs : FileSystem) :
    let run := request out env r fs
    Unfolds fs (candidates env r fs) run.acts run.files run.outcome := by
  have neutral := Act.neutral_tells
    (Layers.merge_isNeutral fs (Layers.sources fs env (Path.ofText ['.']) r) {})
  intro run
  unfold candidates
  cases configured : (Layers.setupIn fs env (Path.ofText ['.']) r).2 with
  | error e =>
    have hrun : run = _ := request_unconfigured configured
    have h : Unfolds fs [] ((Layers.setupIn fs env (Path.ofText ['.']) r).1.map .tell ++ [] ++ [])
        fs (.error e) :=
      (Unfolds.nothing fs e).between neutral nofun (fun _ he => he) fun _ ok => ok
    rw [hrun]
    rwa [List.append_nil, List.append_nil] at h
  | ok setup =>
    have hrun : run = _ := request_configured configured
    have h := (sweep_unfolds out (Selection.ofSettings setup.settings) setup.dryRun fs).between
      neutral (List.forall_mem_nil _) (fun _ he => he) fun _ ok => ok
    rw [hrun]
    rwa [List.append_nil] at h

lemma candidates_nodup (env : Environment) (r : Request) (fs : FileSystem) :
    (candidates env r fs).Nodup := by
  unfold candidates
  cases (Layers.setupIn fs env (Path.ofText ['.']) r).2 with
  | error e => exact List.nodup_nil
  | ok setup =>
    dsimp only
    cases collected : (Selection.ofSettings setup.settings).collect fs with
    | error failure => exact List.nodup_nil
    | ok ps => exact Selection.collect_nodup collected

end Run
end LogSweep
