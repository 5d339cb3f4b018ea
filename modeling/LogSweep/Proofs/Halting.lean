import LogSweep.Proofs.Joining
import LogSweep.Proofs.Verbosity

/-! Command lines that start no run. Which ones these are, and why, does not depend on the level
that is given. The help alone shows the level, if it is the variable that gives it. -/
namespace LogSweep

/-- What follows on alike steps is alike if it does not depend on what a view leaves out of them. -/
lemma map_bind_congr {ε α β γ : Type} {x x' : Except ε α} {m : α → α} {f : α → Except ε β}
    {view : β → γ} (first : x'.map m = x.map m)
    (next : ∀ a, (f (m a)).map view = (f a).map view) :
    (x' >>= f).map view = (x >>= f).map view := by
  cases x with
  | error e =>
    cases x' with
    | error e' => exact congrArg Except.error (Except.error.inj first)
    | ok a' => cases first
  | ok a =>
    cases x' with
    | error e' => cases first
    | ok a' =>
      have hm : m a' = m a := Except.ok.inj first
      have hnext := next a'
      rw [hm, next a] at hnext
      exact hnext.symm

namespace CommandLine

/-- Any text as a value. What is no text stays as it is. -/
def maskedValue (v : Bytes) : Bytes := if (Utf8.decode? v).isSome then [] else v

namespace Reading

/-- What is pending, without the level that it is. -/
def maskedPending : Parameter × Option Bytes → Parameter × Option Bytes
  | (.logLevel, some v) => (.logLevel, some (maskedValue v))
  | pending => pending

/-- The reading without the level that it gives. That it gives one is kept. -/
def masked (r : Reading) : Reading :=
  { r with logLevel := r.logLevel.map fun _ => [], pending := r.pending.map maskedPending }

/-- A view of what a function makes of a reading does not show the level. -/
def Ignores {α β : Type} (view : α → β) (f : Reading → Except Halt α) : Prop :=
  ∀ r, (f r.masked).map view = (f r).map view

variable {r r' s : Reading} {p : Parameter} {v : Bytes} {arg : Bytes} {args : List Bytes}
  {α β : Type} {view : α → β} {f : Reading → Except Halt Reading} {g : Reading → Except Halt α}

lemma Ignores.bind (hf : Ignores masked f) (hg : Ignores view g) :
    Ignores view fun r => f r >>= g :=
  fun r => map_bind_congr (hf r) hg

lemma maskedPending_maskedPending (pending : Parameter × Option Bytes) :
    maskedPending (maskedPending pending) = maskedPending pending := by
  obtain ⟨p, v⟩ := pending
  cases p with
  | logLevel =>
    cases v with
    | none => rfl
    | some v => cases h : (Utf8.decode? v).isSome <;> simp [maskedPending, maskedValue, h]
  | _ => rfl

lemma masked_masked (r : Reading) : r.masked.masked = r.masked := by
  simp [masked, Function.comp_def, maskedPending_maskedPending]

lemma has_masked (r : Reading) (p : Parameter) : r.masked.has p = r.has p := by
  cases p <;> simp [masked, has]

lemma set_masked (r : Reading) (p : Parameter) (t : Text) :
    (r.masked.set p t).masked = (r.set p t).masked := by
  cases p <;> simp [masked, set, Function.comp_def, maskedPending_maskedPending]

lemma take_ignores (p : Parameter) (v : Bytes) : Ignores masked (take · p v) := by
  intro r
  dsimp only
  unfold take
  rw [has_masked]
  cases r.has p with
  | true => rfl
  | false =>
    cases Utf8.decode? v with
    | none => rfl
    | some t => exact congrArg Except.ok (set_masked r p t)

lemma maskedValue_encode (t : Text) : maskedValue (Utf8.encode t) = [] := by
  simp [maskedValue]

/-- Which level is taken does not show. -/
lemma take_maskedValue (r : Reading) (v : Bytes) :
    (r.take .logLevel (maskedValue v)).map masked = (r.take .logLevel v).map masked := by
  cases decoded : Utf8.decode? v with
  | none => rw [maskedValue, decoded]; rfl
  | some t =>
    have hvalue : maskedValue v = Utf8.encode [] := by rw [maskedValue, decoded]; rfl
    unfold take
    rw [hvalue, Utf8.decode?_encode, decoded]
    split <;> rfl

lemma take_level_alike (r : Reading) (level level' : Text) :
    (r.take .logLevel (Utf8.encode level')).map masked =
      (r.take .logLevel (Utf8.encode level)).map masked := by
  rw [← take_maskedValue r (Utf8.encode level), ← take_maskedValue r (Utf8.encode level'),
    maskedValue_encode, maskedValue_encode]

lemma settle_ignores : Ignores masked settle := by
  intro r
  have hrest : { r.masked with pending := none } = { r with pending := none }.masked := rfl
  cases pending : r.pending with
  | none =>
    have hmasked : r.masked.pending = none := by rw [masked, pending]; rfl
    rw [settle_of_pending_none pending, settle_of_pending_none hmasked]
    exact congrArg Except.ok r.masked_masked
  | some waiting =>
    have hmasked : r.masked.pending = some (maskedPending waiting) := by rw [masked, pending]; rfl
    obtain ⟨p, v⟩ := waiting
    cases v with
    | none =>
      unfold settle
      rw [pending, hmasked]
      cases p <;> rfl
    | some v =>
      rw [settle_of_pending pending]
      cases p with
      | logLevel =>
        rw [settle_of_pending hmasked, hrest, take_maskedValue]
        exact take_ignores .logLevel v _
      | _ =>
        rw [settle_of_pending hmasked, hrest]
        exact take_ignores _ v _

lemma path_ignores (arg : Bytes) : Ignores masked (path · arg) := by
  intro r
  have hroot : r.masked.rootRead = r.rootRead := rfl
  dsimp only
  unfold path
  rw [hroot]
  split
  · rfl
  · refine map_bind_congr (settle_ignores r) fun s => ?_
    exact congrArg Except.ok (by simp [masked, Function.comp_def])

lemma option_ignores (p : Parameter) (value : Option Bytes) :
    Ignores masked (option · p value) := by
  cases value with
  | none =>
    refine settle_ignores.bind fun s => congrArg Except.ok ?_
    simp [masked, Function.comp_def]
  | some v => exact settle_ignores.bind (take_ignores p v)

lemma flag_ignores (shown : String) (value : Option Bytes)
    {effect : Reading → Except Halt Reading} (h : Ignores masked effect) :
    Ignores masked (flag · shown value effect) := by
  cases value with
  | none => exact settle_ignores.bind h
  | some v => exact fun r => rfl

lemma beDry_ignores : Ignores masked beDry := by
  intro r
  have hdry : r.masked.dryRun = r.dryRun := rfl
  unfold beDry
  rw [hdry]
  split
  · rfl
  · exact congrArg Except.ok (by simp [masked, Function.comp_def, maskedPending_maskedPending])

lemma long_ignores (arg : Bytes) : Ignores masked (long · arg) := by
  intro r
  dsimp only
  unfold long
  dsimp only
  split_ifs
  · exact option_ignores _ _ r
  · exact option_ignores _ _ r
  · exact flag_ignores _ _ beDry_ignores r
  · exact flag_ignores _ _ (fun _ => rfl) r
  · exact flag_ignores _ _ (fun _ => rfl) r
  · rfl

lemma short_ignores (arg : Bytes) : Ignores masked (short · arg) := by
  intro r
  dsimp only
  unfold short
  split
  · exact flag_ignores _ _ (fun _ => rfl) r
  · exact flag_ignores _ _ (fun _ => rfl) r
  · rfl
  · rfl

/-- What an argument does to a reading does not depend on the level that has been read. -/
theorem step_ignores (arg : Bytes) : Ignores masked (step · arg) := by
  intro r
  dsimp only
  cases only : r.onlyPaths with
  | true =>
    rw [step_of_onlyPaths only, step_of_onlyPaths (r := r.masked) only]
    exact path_ignores arg r
  | false =>
    rcases argument_cases arg with rfl | ⟨name, hname, rfl⟩ | ⟨letter, letters, hl, rfl⟩ | plain
    · rw [step_endOfOptions only, step_endOfOptions (r := r.masked) only]
      exact congrArg Except.ok (by simp [masked, Function.comp_def, maskedPending_maskedPending])
    · rw [step_long only hname, step_long (r := r.masked) only hname]
      exact long_ignores name r
    · rw [step_short only hl, step_short (r := r.masked) only hl]
      exact short_ignores _ r
    · by_cases waiting : ∃ p, r.pending = some (p, none)
      · obtain ⟨p, hp⟩ := waiting
        have hp' : r.masked.pending = some (p, none) := by
          rw [masked, hp]
          cases p <;> rfl
        rw [step_value only plain hp, step_value (r := r.masked) only plain hp']
        exact congrArg Except.ok (by simp [masked, Function.comp_def])
      · have full : ∀ p, r.pending ≠ some (p, none) := fun p hp => waiting ⟨p, hp⟩
        have full' : ∀ p, r.masked.pending ≠ some (p, none) := by
          intro p hp
          obtain ⟨⟨p', v⟩, hpending, hmasked⟩ := Option.map_eq_some_iff.mp hp
          cases v with
          | none => exact full p' hpending
          | some v => cases p' <;> simp [maskedPending] at hmasked
        rw [step_path only plain full, step_path (r := r.masked) only plain full']
        exact path_ignores arg r

theorem run_ignores (args : List Bytes) : Ignores masked fun r => args.foldlM step r := by
  induction args with
  | nil => exact fun r => congrArg Except.ok r.masked_masked
  | cons arg args ih =>
    intro r
    simp only [List.foldlM_cons]
    exact map_bind_congr (step_ignores arg r) ih

lemma orVariable_ignores (p : Parameter) (value : Option Bytes) :
    Ignores masked (orVariable · p value) := by
  intro r
  dsimp only
  unfold orVariable
  cases value with
  | none => exact congrArg Except.ok r.masked_masked
  | some v =>
    dsimp only
    rw [has_masked]
    split
    · exact congrArg Except.ok r.masked_masked
    · exact take_ignores p v r

/-- The request at the end of a command line does not depend on the level that has been read. -/
theorem finish_ignores (env : Environment) : Ignores Invocation.request (finish env) := by
  have hlevel := orVariable_ignores .logLevel env.logLevel
  exact settle_ignores.bind ((orVariable_ignores .config env.config).bind
    (hlevel.bind fun _ => rfl))

/-- Nor does it depend on which level stands in the variable. -/
lemma finish_variable (env : Environment) (level level' : Text) (r : Reading) :
    (r.finish { env with logLevel := some (Utf8.encode level') }).map Invocation.request =
      (r.finish { env with logLevel := some (Utf8.encode level) }).map Invocation.request := by
  have hlevel (c : Reading) : (c.orVariable .logLevel (some (Utf8.encode level'))).map masked =
      (c.orVariable .logLevel (some (Utf8.encode level))).map masked := by
    unfold orVariable
    dsimp only
    split
    · rfl
    · exact take_level_alike c level level'
  unfold finish
  cases r.settle with
  | error e => rfl
  | ok s =>
    change Except.map _ (s.orVariable .config env.config >>= _) =
      Except.map _ (s.orVariable .config env.config >>= _)
    cases s.orVariable .config env.config with
    | error e => rfl
    | ok c => exact map_bind_congr (hlevel c) fun _ => rfl

end Reading

section
variable {r : Reading} {v : Bytes} (only : r.onlyPaths = false)
include only

lemma foldlM_option (plain : IsPlain v) : [Parameter.logLevel.flag, v].foldlM Reading.step r =
    r.settle >>= fun s => .ok { s with pending := some (.logLevel, some v) } := by
  rw [List.foldlM_cons, Reading.step_flag only (.inr rfl), Reading.option]
  cases settle : r.settle with
  | error e => rfl
  | ok s =>
    have honly : s.onlyPaths = false := (Reading.settled settle).2.2.1.trans only
    have hvalue : { s with pending := some (.logLevel, none) }.step v =
        .ok { s with pending := some (.logLevel, some v) } := Reading.step_value honly plain rfl
    change [v].foldlM Reading.step { s with pending := some (.logLevel, none) } = _
    rw [List.foldlM_cons, hvalue]
    rfl

lemma foldlM_joinedOption :
    [Parameter.logLevel.flag ++ 0x3D :: v].foldlM Reading.step r =
      r.settle >>= fun s => s.take .logLevel v := by
  rw [List.foldlM_cons, Reading.step_flag_append only (.inr rfl), Reading.option]
  exact bind_pure _

end

open Reading

/-- Two levels are given in the same way: in the variable, or as an option at the same place among
the same arguments. A level behind its option starts with no hyphen. -/
inductive SwapsLevel : Environment → List Bytes → Environment → List Bytes → Prop
  | inVariable (env : Environment) (args : List Bytes) (level level' : Text) :
      SwapsLevel { env with logLevel := some (Utf8.encode level) } args
        { env with logLevel := some (Utf8.encode level') } args
  | inOption (env : Environment) {front : List Bytes} (options : endOfOptions ∉ front)
      (back : List Bytes) {level level' : Text} (plain : IsPlain (Utf8.encode level))
      (plain' : IsPlain (Utf8.encode level')) :
      SwapsLevel env (front ++ [Parameter.logLevel.flag, Utf8.encode level] ++ back)
        env (front ++ [Parameter.logLevel.flag, Utf8.encode level'] ++ back)
  | inJoinedOption (env : Environment) {front : List Bytes} (options : endOfOptions ∉ front)
      (back : List Bytes) (level level' : Text) :
      SwapsLevel env (front ++ [Parameter.logLevel.flag ++ 0x3D :: Utf8.encode level] ++ back)
        env (front ++ [Parameter.logLevel.flag ++ 0x3D :: Utf8.encode level'] ++ back)

/-- Arguments that give a level alike come to the same between the same arguments. -/
lemma parse_of_alike (env : Environment) {front inserted inserted' : List Bytes}
    (options : endOfOptions ∉ front) (back : List Bytes)
    (alike : ∀ r : Reading, r.onlyPaths = false →
      (inserted'.foldlM step r).map masked = (inserted.foldlM step r).map masked) :
    (parse env (front ++ inserted' ++ back)).map Invocation.request =
      (parse env (front ++ inserted ++ back)).map Invocation.request := by
  unfold parse
  simp only [List.foldlM_append, bind_assoc]
  cases hfront : front.foldlM step {} with
  | error e => rfl
  | ok r =>
    have only : r.onlyPaths = false := (onlyPaths_of_run hfront options).trans rfl
    exact map_bind_congr (alike r only) ((run_ignores back).bind (finish_ignores env))

/-- A command line asks for the same whatever level it gives, and for the same reason it asks for
nothing. -/
theorem parse_of_swapsLevel {env env' : Environment} {args args' : List Bytes}
    (h : SwapsLevel env args env' args') :
    (parse env' args').map Invocation.request = (parse env args).map Invocation.request := by
  cases h with
  | inVariable env _ level level' =>
    unfold parse
    cases args.foldlM step {} with
    | error e => rfl
    | ok r => exact finish_variable env level level' r
  | @inOption _ front options back level level' plain plain' =>
    refine parse_of_alike env options back fun r only => ?_
    rw [foldlM_option only plain, foldlM_option only plain']
    cases r.settle with
    | error e => rfl
    | ok s => exact congrArg Except.ok (by simp [masked, maskedPending, maskedValue])
  | @inJoinedOption _ front options back level level' =>
    refine parse_of_alike env options back fun r only => ?_
    rw [foldlM_joinedOption only, foldlM_joinedOption only]
    cases r.settle with
    | error e => rfl
    | ok s => exact take_level_alike s level level'

lemma helpOnLevel_encode (level : Text) : helpOnLevel (some (Utf8.encode level)) =
    "      \x1b[1m--log-level".toList ++ '\x1b' :: ("[0m".toList ++
      (" <LOG_LEVEL>  Log level for diagnostics on stderr".toList ++
        (" [env: LOGSTRIP_LOG_LEVEL=".toList ++
          (level.flatMap shownVariable.indented ++ "] [default: warn]".toList)))) := by
  change "      ".toList ++ ("\x1b[1m".toList ++ "--log-level".toList ++ "\x1b[0m".toList) ++
    " <LOG_LEVEL>  Log level for diagnostics on stderr".toList ++
    (" [env: ".toList ++ "LOGSTRIP_LOG_LEVEL".toList ++ ['='] ++
      (Utf8.display (Utf8.encode level)).flatMap shownVariable.indented ++ [']']) ++
    " [default: warn]".toList = _
  rw [Utf8.display_encode]
  simp

lemma isVisible_of_mem_indented {level : Text} (h : ∀ c ∈ level, Text.isVisible c) :
    ∀ c ∈ level.flatMap shownVariable.indented, Text.isVisible c := by
  intro c hc
  obtain ⟨x, hx, hcx⟩ := List.mem_flatMap.mp hc
  unfold shownVariable.indented at hcx
  split at hcx
  · rcases List.mem_cons.mp hcx with rfl | hspace
    · decide
    · rw [List.eq_of_mem_replicate hspace]
      decide
  · rw [List.mem_singleton.mp hcx]
    exact h x hx

/-- The help shows the level that stands in the variable, if its characters are shown at all, and
depends on it nowhere else. -/
theorem help_shows_level (env : Environment) :
    ∃ front back : Text, ∀ level : Text, (∀ c ∈ level, Text.isVisible c) →
      help { env with logLevel := some (Utf8.encode level) } =
        front ++ " [env: LOGSTRIP_LOG_LEVEL=".toList ++ level.flatMap shownVariable.indented ++
          back := by
  let above := Text.unlines (helpAboveLevel env.config)
  let below := Text.unlines helpBelowLevel
  obtain ⟨shown, hshown⟩ := Text.visibleFrom_append_escape .outside false
    (above ++ '\n' :: "      \x1b[1m--log-level".toList)
  refine ⟨shown ++ " <LOG_LEVEL>  Log level for diagnostics on stderr".toList,
    Text.visible ("] [default: warn]".toList ++ '\n' :: below), fun level visible => ?_⟩
  have hstyled : styledHelp { env with logLevel := some (Utf8.encode level) } =
      above ++ '\n' :: (helpOnLevel (some (Utf8.encode level)) ++ '\n' :: below) := by
    have hbelow : helpBelowLevel ≠ [] := List.cons_ne_nil _ _
    have habove : helpAboveLevel env.config ≠ [] := List.cons_ne_nil _ _
    exact (Text.unlines_append habove (List.cons_ne_nil _ _)).trans
      (congrArg (above ++ '\n' :: ·) (Text.unlines_cons _ hbelow))
  have habout : ∀ c ∈ " <LOG_LEVEL>  Log level for diagnostics on stderr".toList,
      Text.isVisible c := by simp [Text.isVisible]
  have hequals : ∀ c ∈ " [env: LOGSTRIP_LOG_LEVEL=".toList, Text.isVisible c := by
    simp [Text.isVisible]
  have hreset (rest : Text) : Text.visibleFrom .escape false ("[0m".toList ++ rest) =
      Text.visible rest := rfl
  rw [help, Text.visible, hstyled, helpOnLevel_encode]
  simp only [List.append_assoc, List.cons_append] at hshown ⊢
  rw [hshown, hreset, Text.visible_append habout, Text.visible_append hequals,
    Text.visible_append (isVisible_of_mem_indented visible)]

end CommandLine

namespace Program
open CommandLine

/-- Why a command line starts no run does not depend on the level that it gives, and an execution
then shows the same. Only of the help this need not hold if the level stands in the variable. -/
theorem execute_halted (out : Output) (fs : FileSystem) {env env' : Environment}
    {args args' : List Bytes} {halt : Halt} (swaps : SwapsLevel env args env' args')
    (halted : parse env args = .error halt) :
    parse env' args' = .error halt ∧
    (halt ≠ .help ∨ env' = env → execute out env' args' fs = execute out env args fs) ∧
    (halt = .help → execute out env' args' fs = showText out fs (help env')) := by
  have hparse := parse_of_swapsLevel swaps
  rw [halted] at hparse
  have halted' : parse env' args' = .error halt := by
    cases parsed : parse env' args' with
    | ok i => rw [parsed] at hparse; cases hparse
    | error halt' =>
      rw [parsed] at hparse
      exact congrArg _ (Except.error.inj hparse)
  refine ⟨halted', fun same => ?_, fun isHelp => ?_⟩
  · rw [execute, execute, halted, halted']
    cases halt with
    | help =>
      obtain rfl : env' = env := same.resolve_left (fun h => h rfl)
      rfl
    | version => rfl
    | usage e => rfl
  · rw [execute, halted', isHelp]

end Program
end LogSweep
