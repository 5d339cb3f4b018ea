import LogSweep.Program
import LogSweep.Proofs.Reading
import Mathlib.Data.List.Nodup

/-! The order of the arguments. Each value that a command line gives is taken for its own parameter
wherever it stands among the others, so in every order the program does what the run does that is
asked for the same values. -/
namespace LogSweep

/-- The arguments that give a parameter its value. -/
def Parameter.arguments : Parameter → Text → List Bytes
  | root, t => [Utf8.encode t]
  | config, t => [config.flag, Utf8.encode t]
  | logLevel, t => [logLevel.flag, Utf8.encode t]
  | dryRun, _ => [dryRun.flag]

namespace CommandLine

/-- What a command line has to give for a request and a level. -/
def given (r : Request) (level : Option Text) : List (Parameter × Text) :=
  (r.root.map (Parameter.root, ·)).toList ++ (r.config.map (Parameter.config, ·)).toList ++
    (level.map (Parameter.logLevel, ·)).toList ++
    if r.dryRun then [(Parameter.dryRun, [])] else []

/-- The command line that gives values in an order. -/
def arguments (order : List (Parameter × Text)) : List Bytes :=
  order.flatMap fun g => g.1.arguments g.2

/-- No parameter is given twice. -/
lemma nodup_given (r : Request) (level : Option Text) :
    ((given r level).map Prod.fst).Nodup := by
  rcases r with ⟨_ | root, _ | config, _ | _⟩ <;> cases level <;> simp [given]

namespace Reading

variable {r s : Reading} {p p' : Parameter} {t t' : Text} {order order' : List (Parameter × Text)}
  {env : Environment}

/-- The reading with one more value. -/
def put (s : Reading) : Parameter × Text → Reading
  | (.root, t) => { s with root := some t, rootRead := true }
  | (p, t) => s.set p t

lemma has_put (s : Reading) (g : Parameter × Text) (p : Parameter) :
    (s.put g).has p = (s.has p || g.1 == p) := by
  obtain ⟨p', t⟩ := g
  rw [← has_set s p' p t]
  cases p' <;> cases p <;> rfl

/-- Values of two parameters may be put in either order. -/
lemma put_comm (h : p ≠ p') (t t' : Text) (s : Reading) :
    (s.put (p, t)).put (p', t') = (s.put (p', t')).put (p, t) := by
  cases p <;> cases p' <;> first | exact absurd rfl h | rfl

/-- The order of values does not matter as long as no parameter has two of them. -/
lemma foldl_put_eq_of_perm (perm : order.Perm order') (nodup : (order.map Prod.fst).Nodup)
    (s : Reading) : order.foldl put s = order'.foldl put s := by
  refine perm.foldl_eq' (fun g hg g' hg' s => ?_) s
  by_cases h : g.1 = g'.1
  · rw [List.inj_on_of_nodup_map nodup hg hg' h]
  · exact put_comm h g.2 g'.2 s

/-- So far, a command line gives what has been put into a reading. -/
structure Gives (r s : Reading) : Prop where
  settle : r.settle = .ok s
  options : r.onlyPaths = false
  rootRead : s.rootRead = s.has .root

/-- The arguments for a value put it into the reading. -/
lemma gives_put (h : Gives r s) (plain : t.head? ≠ some '-') (first : s.has p = false) :
    ∃ r', (p.arguments t).foldlM step r = .ok r' ∧ Gives r' (s.put (p, t)) := by
  obtain ⟨hpending, hroot, honly, -⟩ := settled h.settle
  have options : s.onlyPaths = false := honly.trans h.options
  have hplain := isPlain_encode plain
  -- the value is taken as soon as anything is read behind it
  have htaken : { s with pending := some (p, some (Utf8.encode t)) }.settle = .ok (s.set p t) := by
    rw [settle_of_pending rfl, ← hpending]
    exact take_eq_ok.mpr ⟨first, t, Utf8.decode?_encode t, rfl⟩
  have hoption (isOption : p = .config ∨ p = .logLevel) :
      [p.flag, Utf8.encode t].foldlM step r =
        .ok { s with pending := some (p, some (Utf8.encode t)) } := by
    have hflag := (Next.option h.options isOption rfl h.settle).step
    have hvalue := (Next.value (r := { s with pending := some (p, none) }) options hplain rfl).step
    rw [List.foldlM_cons, hflag]
    change [Utf8.encode t].foldlM step _ = _
    rw [List.foldlM_cons, hvalue]
    rfl
  cases p with
  | root =>
    have hfirst : r.rootRead = false := by rw [← hroot, h.rootRead, first]
    have hpath := (Next.path (.inr hplain) hfirst h.settle).step
    have hread : [Utf8.encode t].foldlM step r =
        .ok { s with pending := some (.root, some (Utf8.encode t)), rootRead := true } := by
      rw [List.foldlM_cons, hpath]
      rfl
    refine ⟨_, hread, ?_, options, rfl⟩
    rw [settle_of_pending (p := .root) rfl]
    refine take_eq_ok.mpr ⟨first, t, Utf8.decode?_encode t, ?_⟩
    rw [← hpending]
    rfl
  | config => exact ⟨_, hoption (.inl rfl), htaken, options, h.rootRead⟩
  | logLevel => exact ⟨_, hoption (.inr rfl), htaken, options, h.rootRead⟩
  | dryRun =>
    have hstep := (Next.dryRun h.options rfl h.settle first).step
    refine ⟨_, ?_, settle_of_pending_none hpending, options, h.rootRead⟩
    rw [Parameter.arguments, List.foldlM_cons, hstep]
    rfl

/-- So do the arguments for several values. -/
lemma gives_foldl_put (h : Gives r s) (plain : ∀ g ∈ order, g.2.head? ≠ some '-')
    (nodup : (order.map Prod.fst).Nodup) (first : ∀ g ∈ order, s.has g.1 = false) :
    ∃ r', (arguments order).foldlM step r = .ok r' ∧ Gives r' (order.foldl put s) := by
  induction order generalizing r s with
  | nil => exact ⟨r, rfl, h⟩
  | cons g order ih =>
    obtain ⟨hplain, plain⟩ := List.forall_mem_cons.mp plain
    obtain ⟨hfirst, first⟩ := List.forall_mem_cons.mp first
    obtain ⟨hnew, nodup⟩ := List.nodup_cons.mp nodup
    obtain ⟨r₁, hr₁, h₁⟩ := gives_put h hplain hfirst
    have hfirst₁ : ∀ g' ∈ order, (s.put g).has g'.1 = false := by
      intro g' hg'
      have hne : g.1 ≠ g'.1 := fun he => hnew (he ▸ List.mem_map_of_mem hg')
      simpa [has_put, first g' hg'] using hne
    obtain ⟨r', hr', h'⟩ := ih h₁ plain nodup hfirst₁
    refine ⟨r', ?_, h'⟩
    rw [arguments, List.flatMap_cons, List.foldlM_append, hr₁]
    exact hr'

/-- The reading in which a text stands in for a value that is not there. -/
def fill (s : Reading) (p : Parameter) (t : Option Text) : Reading :=
  if s.has p then s else t.elim s (s.set p)

lemma fill_config (s : Reading) (t : Option Text) :
    s.fill .config t = { s with config := s.config.or t } := by
  rcases s with ⟨root, _ | config⟩ <;> cases t <;> rfl

lemma fill_logLevel (s : Reading) (t : Option Text) :
    s.fill .logLevel t = { s with logLevel := s.logLevel.or t } := by
  rcases s with ⟨root, config, _ | level⟩ <;> cases t <;> rfl

/-- A variable with a text is read where its option is not given. -/
lemma orVariable_of_text (value : Option Bytes)
    (text : s.has p = false → ∀ v, value = some v → (Utf8.decode? v).isSome) :
    s.orVariable p value = .ok (s.fill p (value.bind Utf8.decode?)) := by
  cases value with
  | none => simp [orVariable, fill]
  | some v =>
    cases first : s.has p with
    | true => simp [orVariable, fill, first]
    | false =>
      obtain ⟨t, ht⟩ := Option.isSome_iff_exists.mp (text first v rfl)
      have htake : s.take p v = .ok (s.set p t) := take_eq_ok.mpr ⟨first, t, ht, rfl⟩
      simp [orVariable, fill, first, htake, ht]

/-- The end of a command line whose variables are texts, as far as they stand in for an option. -/
lemma finish_of_texts (h : r.settle = .ok s)
    (config : s.config = none → ∀ v, env.config = some v → (Utf8.decode? v).isSome)
    (default : s.logLevel = none → ∀ v, env.logLevel = some v → (Utf8.decode? v).isSome) :
    r.finish env = .ok ⟨⟨s.root, s.config.or (env.config.bind Utf8.decode?), s.dryRun⟩,
      (s.logLevel.or (env.logLevel.bind Utf8.decode?)).getD "warn".toList⟩ := by
  have hconfig := orVariable_of_text (s := s) (p := .config) env.config fun hno =>
    config (Option.isSome_eq_false_iff.mp hno |> Option.isNone_iff_eq_none.mp)
  rw [fill_config] at hconfig
  have hlevel := orVariable_of_text (p := .logLevel)
    (s := { s with config := s.config.or (env.config.bind Utf8.decode?) }) env.logLevel fun hno =>
      default (Option.isSome_eq_false_iff.mp hno |> Option.isNone_iff_eq_none.mp)
  rw [fill_logLevel] at hlevel
  rw [finish, h]
  change s.orVariable .config env.config >>= _ = _
  rw [hconfig]
  change Reading.orVariable _ .logLevel env.logLevel >>= _ = _
  rw [hlevel]
  rfl

end Reading

open Reading

/-- In every order, the values that are given are read. -/
theorem parse_of_perm {r : Request} {level : Option Text} {order : List (Parameter × Text)}
    {env : Environment} (perm : order.Perm (given r level))
    (plain : ∀ g ∈ given r level, g.2.head? ≠ some '-')
    (config : r.config = none → ∀ v, env.config = some v → (Utf8.decode? v).isSome)
    (default : level = none → ∀ v, env.logLevel = some v → (Utf8.decode? v).isSome) :
    parse env (arguments order) = .ok
      ⟨{ r with config := r.config.or (env.config.bind Utf8.decode?) },
        (level.or (env.logLevel.bind Utf8.decode?)).getD "warn".toList⟩ := by
  have nodup : (order.map Prod.fst).Nodup := (perm.map Prod.fst).nodup_iff.mpr (nodup_given r level)
  have hplain : ∀ g ∈ order, g.2.head? ≠ some '-' := fun g hg => plain g (perm.mem_iff.mp hg)
  have hempty : Gives {} {} := ⟨rfl, rfl, rfl⟩
  obtain ⟨r', hr', h'⟩ := gives_foldl_put hempty hplain nodup fun g _ => by cases g.1 <;> rfl
  rw [foldl_put_eq_of_perm perm nodup] at h'
  have hread : (given r level).foldl put {} =
      { root := r.root, config := r.config, logLevel := level, dryRun := r.dryRun,
        rootRead := r.root.isSome } := by
    rcases r with ⟨_ | root, _ | config, _ | _⟩ <;> cases level <;> rfl
  rw [hread] at h'
  rw [parse, hr']
  exact finish_of_texts h'.settle config default

end CommandLine

namespace Program
open CommandLine

/-- In every order of its arguments, the program does what the run does that is asked for the values
they give, with the variable for the configuration in place of an option that is left out. -/
theorem execute_of_perm (out : Output) (env : Environment) (fs : FileSystem) {r : Request}
    {level : Option Text} {order : List (Parameter × Text)} (perm : order.Perm (given r level))
    (plain : ∀ g ∈ given r level, g.2.head? ≠ some '-')
    (config : r.config = none → ∀ v, env.config = some v → (Utf8.decode? v).isSome)
    (default : level = none → ∀ v, env.logLevel = some v → (Utf8.decode? v).isSome) :
    let asked : Request := { r with config := r.config.or (env.config.bind Utf8.decode?) }
    let run := Run.request out env asked fs
    let x := execute out env (arguments order) fs
    x.files = run.files ∧ x.output = run.report ∧
      (∀ t, run.outcome = .ok t → x.status = 0) ∧
      ∀ e, run.outcome = .error e →
        x.status = 1 ∧ ∃ shown, x.errors = shown ++ ["Error: ".toList ++ e.message] := by
  intro asked run x
  have hx : x = invoke out env ⟨asked, _⟩ fs :=
    execute_of_ok (parse_of_perm perm plain config default) out fs
  have houtput : x.output = run.report := by rw [hx, invoke_output]
  rw [houtput, hx, invoke]
  change _ ∧ _ ∧ (∀ t, run.outcome = .ok t → _) ∧ ∀ e, run.outcome = .error e → _
  dsimp only
  cases (Run.request out env asked fs).outcome with
  | ok t => exact ⟨rfl, rfl, fun _ _ => rfl, nofun⟩
  | error e =>
    refine ⟨rfl, rfl, nofun, fun e' he => ?_⟩
    obtain rfl := Except.error.inj he
    exact ⟨rfl, _, rfl⟩

theorem execute_of_perm_root_between_options :
    let file : Entry := .file {} (Utf8.encode "logger.info();\nx".toList)
    let src : Entry := .dir {} [(⟨[0x61, 0x2E, 0x74, 0x73], by decide⟩, file)]
    let fs : FileSystem :=
      ⟨.dir {} [(⟨[0x63], by decide⟩, .file {} []), (⟨[0x73], by decide⟩, src)], []⟩
    let env : Environment := { config := some (Utf8.encode ['c']), logLevel := some [0xFF] }
    let order : List (Parameter × Text) := [(.dryRun, []), (.root, ['s']), (.logLevel, ['5'])]
    let run := Run.request {} env { root := some ['s'], config := some ['c'], dryRun := true } fs
    let x := execute {} env (arguments order) fs
    x.files = run.files ∧ x.output = run.report ∧ x.status = 0 ∧ x.errors.length = 6 := by
  intro file src fs env order run x
  have perm : order.Perm (given { root := some ['s'], dryRun := true } (some ['5'])) := by decide
  have plain : ∀ g ∈ given { root := some ['s'], dryRun := true } (some ['5']),
      g.2.head? ≠ some '-' := by decide
  have config : ∀ v, env.config = some v → (Utf8.decode? v).isSome := by
    rintro v ⟨⟩
    decide
  obtain ⟨hfiles, houtput, hstatus, -⟩ :=
    execute_of_perm {} env fs perm plain (fun _ => config) nofun
  obtain ⟨t, ht⟩ : ∃ t, run.outcome = .ok t := ⟨_, rfl⟩
  exact ⟨hfiles, houtput, hstatus t ht, by decide +kernel⟩

end Program
end LogSweep
