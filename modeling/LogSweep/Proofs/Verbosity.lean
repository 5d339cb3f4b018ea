import LogSweep.Program
import LogSweep.Proofs.Reading

/-! The level of a run decides which of its events are shown, and nothing else. Wherever and however
a level is added to a command line, the rest of it asks for the same run. -/
namespace LogSweep

namespace CommandLine

/-- The argument is the option for the level, with or without a value. -/
def isLevelOption (arg : Bytes) : Bool := arg.takeWhile (· ≠ 0x3D) == Parameter.logLevel.flag

/-- No argument is the option for the level. Behind the end of options, all are paths. -/
def LacksLevel (args : List Bytes) : Prop :=
  ∀ arg ∈ args.takeWhile (· ≠ endOfOptions), isLevelOption arg = false

/-- The ways to add a level to a command line and its environment: not at all or in the variable, if
there is no option for it, or as an option in front of the end of options, next to any value of the
variable. -/
inductive AddsLevel (env : Environment) (args : List Bytes) :
    Text → Environment → List Bytes → Prop
  | byDefault (lacks : LacksLevel args) :
      AddsLevel env args "warn".toList { env with logLevel := none } args
  | byVariable (lacks : LacksLevel args) (level : Text) :
      AddsLevel env args level { env with logLevel := some (Utf8.encode level) } args
  | byOption {front back : List Bytes} (args_eq : args = front ++ back)
      (options : endOfOptions ∉ front) (level : Text) (other : Option Bytes) :
      AddsLevel env args level { env with logLevel := other }
        (front ++ [Parameter.logLevel.flag, Utf8.encode level] ++ back)
  | byJoinedOption {front back : List Bytes} (args_eq : args = front ++ back)
      (options : endOfOptions ∉ front) (level : Text) (other : Option Bytes) :
      AddsLevel env args level { env with logLevel := other }
        (front ++ [Parameter.logLevel.flag ++ 0x3D :: Utf8.encode level] ++ back)

namespace Reading

variable {level : Text} {r r' q q' s s' : Reading} {arg : Bytes} {args : List Bytes}
  {p : Parameter} {v : Bytes} {env env' : Environment} {i : Invocation}

/-- The request at the end of a command line. -/
def request (env : Environment) (r : Reading) : Except Halt Request := do
  let r ← r.settle
  let r ← r.orVariable .config env.config
  return ⟨r.root, r.config, r.dryRun⟩

/-! A level that is set changes nothing else, and no second one is taken. -/

lemma take_level (h : (r.set .logLevel level).take p v = .ok q') :
    ∃ q, r.take p v = .ok q ∧ q' = q.set .logLevel level := by
  obtain ⟨hno, t, ht, rfl⟩ := take_eq_ok.mp h
  rw [has_set, Bool.or_eq_false_iff] at hno
  refine ⟨r.set p t, take_eq_ok.mpr ⟨hno.1, t, ht, rfl⟩, ?_⟩
  cases p with
  | root => rfl
  | config => rfl
  | logLevel => simp at hno
  | dryRun => rfl

lemma settle_level (h : (r.set .logLevel level).settle = .ok q') :
    ∃ q, r.settle = .ok q ∧ q' = q.set .logLevel level := by
  rcases settle_eq_ok.mp h with ⟨hp, rfl⟩ | ⟨p, v, hp, htake⟩
  · exact ⟨r, settle_of_pending_none hp, rfl⟩
  · have hp' : r.pending = some (p, some v) := hp
    obtain ⟨q, hq, rfl⟩ := take_level (r := { r with pending := none }) htake
    exact ⟨q, (settle_of_pending hp').trans hq, rfl⟩

lemma orVariable_level {value : Option Bytes}
    (h : (r.set .logLevel level).orVariable .config value = .ok q') :
    ∃ q, r.orVariable .config value = .ok q ∧ q' = q.set .logLevel level := by
  rcases orVariable_eq_ok.mp h with ⟨kept, rfl⟩ | ⟨v, hv, hno, htake⟩
  · exact ⟨r, orVariable_eq_ok.mpr (.inl ⟨kept, rfl⟩), rfl⟩
  · obtain ⟨q, hq, rfl⟩ := take_level htake
    exact ⟨q, orVariable_eq_ok.mpr (.inr ⟨v, hv, hno, hq⟩), rfl⟩

/-- Two readings of the same arguments, the second one with a level besides, which is set already or
will be when the reading settles. -/
inductive Ahead (level : Text) (r : Reading) : Reading → Prop
  | set : Ahead level r (r.set .logLevel level)
  | settles {r' s : Reading} (settle : r.settle = .ok s)
      (settle' : ∀ s', r'.settle = .ok s' → s' = s.set .logLevel level)
      (rootRead : r'.rootRead = r.rootRead) (onlyPaths : r'.onlyPaths = r.onlyPaths)
      (full : ∀ p, r'.pending ≠ some (p, none)) : Ahead level r r'

namespace Ahead

lemma settle (h : Ahead level r r') (ok : r'.settle = .ok s') :
    ∃ s, r.settle = .ok s ∧ s' = s.set .logLevel level := by
  cases h with
  | set => exact settle_level ok
  | settles settle settle' => exact ⟨_, settle, settle' _ ok⟩

lemma rootRead_eq (h : Ahead level r r') : r'.rootRead = r.rootRead := by
  cases h with
  | set => rfl
  | settles settle settle' rootRead => exact rootRead

lemma onlyPaths_eq (h : Ahead level r r') : r'.onlyPaths = r.onlyPaths := by
  cases h with
  | set => rfl
  | settles settle settle' rootRead onlyPaths => exact onlyPaths

/-- The end of options comes for both. -/
lemma endOptions (h : Ahead level r r') :
    Ahead level { r with onlyPaths := true } { r' with onlyPaths := true } := by
  cases h with
  | set => exact .set
  | @settles r' s settle settle' rootRead onlyPaths full =>
    refine .settles (settle_onlyPaths.mpr ⟨s, settle, rfl⟩) (fun s' hs' => ?_) rootRead rfl full
    obtain ⟨s'', hs'', rfl⟩ := settle_onlyPaths.mp hs'
    rw [settle' s'' hs'']
    rfl

/-- What an argument does to the second reading it does to the first one too. -/
lemma next (h : Ahead level r r') (hnext : Next r' arg q') :
    ∃ q, Next r arg q ∧ Ahead level q q' := by
  have options (only : r'.onlyPaths = false) : r.onlyPaths = false := h.onlyPaths_eq ▸ only
  cases hnext with
  | path isPath first settle =>
    obtain ⟨s, hs, rfl⟩ := h.settle settle
    rw [h.onlyPaths_eq] at isPath
    rw [h.rootRead_eq] at first
    exact ⟨_, .path isPath first hs, .set⟩
  | value only plain waiting =>
    cases h with
    | set => exact ⟨_, .value (options only) plain waiting, .set⟩
    | settles settle settle' rootRead onlyPaths full => exact absurd waiting (full _)
  | endOfOptions only arg_eq => exact ⟨_, .endOfOptions (options only) arg_eq, h.endOptions⟩
  | option only isOption arg_eq settle =>
    obtain ⟨s, hs, rfl⟩ := h.settle settle
    exact ⟨_, .option (options only) isOption arg_eq hs, .set⟩
  | joined only isOption arg_eq settle taken =>
    obtain ⟨s, hs, rfl⟩ := h.settle settle
    obtain ⟨q, hq, rfl⟩ := take_level taken
    exact ⟨q, .joined (options only) isOption arg_eq hs hq, .set⟩
  | dryRun only arg_eq settle first =>
    obtain ⟨s, hs, rfl⟩ := h.settle settle
    exact ⟨_, .dryRun (options only) arg_eq hs first, .set⟩

/-- What arguments do to the second reading they do to the first one too. -/
lemma run (h : Ahead level r r') (ok : args.foldlM step r' = .ok q') :
    ∃ q, args.foldlM step r = .ok q ∧ Ahead level q q' := by
  induction args generalizing r r' with
  | nil =>
    cases ok
    exact ⟨r, rfl, h⟩
  | cons arg args ih =>
    rw [List.foldlM_cons] at ok
    obtain ⟨s', hs', hrest⟩ := bind_eq_ok ok
    obtain ⟨s, hs, hahead⟩ := h.next (next_of_step hs')
    obtain ⟨q, hq, hend⟩ := ih hahead hrest
    exact ⟨q, by rw [List.foldlM_cons, hs.step]; exact hq, hend⟩

/-- At the end, both ask for the same. -/
lemma finish (h : Ahead level r r') (config : env'.config = env.config)
    (ok : r'.finish env' = .ok i) : r.request env = .ok i.request ∧ i.level = level := by
  obtain ⟨s', hs', hconfig⟩ := bind_eq_ok ok
  obtain ⟨s, hs, rfl⟩ := h.settle hs'
  obtain ⟨c', hc', hlevel⟩ := bind_eq_ok hconfig
  obtain ⟨c, hc, rfl⟩ := orVariable_level hc'
  obtain ⟨l, hl, hi⟩ := bind_eq_ok hlevel
  -- the level is set, so the variable is not looked at
  have hkept : (c.set .logLevel level).orVariable .logLevel env'.logLevel =
      .ok (c.set .logLevel level) := by
    unfold orVariable
    cases env'.logLevel <;> rfl
  obtain rfl := Except.ok.inj (hkept.symm.trans hl)
  obtain rfl := Except.ok.inj hi
  rw [config] at hc
  refine ⟨?_, rfl⟩
  rw [request, hs]
  change s.orVariable .config env.config >>= _ = _
  rw [hc]
  rfl

end Ahead

/-! A level that is added. -/

lemma onlyPaths_of_next (h : Next r arg q) (hne : arg ≠ endOfOptions) :
    q.onlyPaths = r.onlyPaths := by
  cases h with
  | path isPath first settle => exact (settled settle).2.2.1
  | value options plain waiting => rfl
  | endOfOptions options arg_eq => exact absurd arg_eq hne
  | option options isOption arg_eq settle => exact (settled settle).2.2.1
  | joined options isOption arg_eq settle taken =>
    obtain ⟨-, t, -, rfl⟩ := take_eq_ok.mp taken
    rw [onlyPaths_set, (settled settle).2.2.1]
  | dryRun options arg_eq settle first => exact (settled settle).2.2.1

lemma onlyPaths_of_next_of_onlyPaths (h : Next r arg q) (only : r.onlyPaths = true) :
    q.onlyPaths = true := by
  cases h with
  | path isPath first settle => exact (settled settle).2.2.1.trans only
  | value options => simp [only] at options
  | endOfOptions options => rfl
  | option options => simp [only] at options
  | joined options => simp [only] at options
  | dryRun options => simp [only] at options

lemma onlyPaths_of_end (ok : r.step endOfOptions = .ok q) : q.onlyPaths = true := by
  cases only : r.onlyPaths with
  | true => exact onlyPaths_of_next_of_onlyPaths (next_of_step ok) only
  | false =>
    rw [step_endOfOptions only] at ok
    cases ok
    rfl

lemma onlyPaths_of_run (ok : args.foldlM step r = .ok q) (hne : endOfOptions ∉ args) :
    q.onlyPaths = r.onlyPaths := by
  induction args generalizing r with
  | nil =>
    cases ok
    rfl
  | cons arg args ih =>
    rw [List.mem_cons, not_or] at hne
    rw [List.foldlM_cons] at ok
    obtain ⟨s, hs, hrest⟩ := bind_eq_ok ok
    rw [ih hrest hne.2, onlyPaths_of_next (next_of_step hs) (Ne.symm hne.1)]

/-- Where a value is waited for and only paths can follow, the command line is rejected. -/
lemma rejected_of_waiting (only : r.onlyPaths = true) (waiting : r.pending = some (p, none)) :
    args.foldlM step r >>= finish env ≠ .ok i := by
  have hopen : ∀ s, r.settle ≠ .ok s := fun s hs => (settled hs).2.2.2 p waiting
  intro ok
  obtain ⟨q, hq, hend⟩ := bind_eq_ok ok
  cases args with
  | nil =>
    cases hq
    obtain ⟨s, hs, -⟩ := bind_eq_ok hend
    exact hopen s hs
  | cons arg args =>
    rw [List.foldlM_cons, step_of_onlyPaths only] at hq
    obtain ⟨s, hs, -⟩ := bind_eq_ok hq
    obtain ⟨-, s, hs, -⟩ := path_eq_ok.mp hs
    exact hopen s hs

lemma ahead_of_joinedOption (options : r.onlyPaths = false)
    (ok : [Parameter.logLevel.flag ++ 0x3D :: Utf8.encode level].foldlM step r = .ok r') :
    Ahead level r r' := by
  rw [List.foldlM_cons, step_flag_append options (.inr rfl)] at ok
  obtain ⟨r₁, hoption, hr'⟩ := bind_eq_ok ok
  obtain rfl := Except.ok.inj hr'
  obtain ⟨s, hs, htake⟩ := bind_eq_ok hoption
  obtain ⟨hpending, hroot, honly, -⟩ := settled hs
  obtain ⟨-, t, ht, rfl⟩ := take_eq_ok.mp htake
  obtain rfl : level = t := by simpa using ht
  have hnone : (s.set .logLevel level).pending = none := by rw [pending_set, hpending]
  refine .settles hs (fun s' hs' => ?_) hroot honly (by simp [hpending])
  rw [settle_of_pending_none hnone] at hs'
  exact (Except.ok.inj hs').symm

/-- The option for a level with its value behind it puts the level ahead, unless the value is the
end of options. -/
lemma ahead_of_option (options : r.onlyPaths = false)
    (ok : [Parameter.logLevel.flag, Utf8.encode level].foldlM step r = .ok r') :
    Ahead level r r' ∨ r'.onlyPaths = true ∧ r'.pending = some (.logLevel, none) := by
  rw [List.foldlM_cons, step_flag options (.inr rfl)] at ok
  obtain ⟨s₁, hoption, hvalue⟩ := bind_eq_ok ok
  obtain ⟨s, hs, hs₁⟩ := bind_eq_ok hoption
  obtain rfl := Except.ok.inj hs₁
  obtain ⟨hpending, hroot, honly, -⟩ := settled hs
  have hopen : ∀ q, { s with pending := some (.logLevel, none) }.settle ≠ .ok q :=
    fun q hq => (settled hq).2.2.2 _ rfl
  rw [List.foldlM_cons] at hvalue
  obtain ⟨s₂, hstep, hs₂⟩ := bind_eq_ok hvalue
  obtain rfl := Except.ok.inj hs₂
  cases next_of_step hstep with
  | path isPath first settle => exact absurd settle (hopen _)
  | value only plain waiting =>
    cases waiting
    refine .inl (.settles hs (fun s' hs' => ?_) hroot honly (by simp))
    rw [settle_of_pending rfl] at hs'
    obtain ⟨-, t, ht, rfl⟩ := take_eq_ok.mp hs'
    obtain rfl : level = t := by simpa using ht
    cases s
    cases hpending
    rfl
  | endOfOptions only arg_eq => exact .inr ⟨rfl, rfl⟩
  | option only isOption arg_eq settle => exact absurd settle (hopen _)
  | joined only isOption arg_eq settle taken => exact absurd settle (hopen _)
  | dryRun only arg_eq settle first => exact absurd settle (hopen _)

/-! A level that is not there. -/

lemma lacksLevel_cons (hne : arg ≠ endOfOptions) (lacks : LacksLevel (arg :: args)) :
    isLevelOption arg = false ∧ LacksLevel args := by
  have hmore : (arg :: args).takeWhile (· ≠ endOfOptions) =
      arg :: args.takeWhile (· ≠ endOfOptions) := List.takeWhile_cons_of_pos (by simpa using hne)
  rw [LacksLevel, hmore] at lacks
  exact List.forall_mem_cons.mp lacks

/-- No level has been read, and none is pending. -/
structure Unlevelled (r : Reading) : Prop where
  unset : r.logLevel = none
  pending : ∀ v, r.pending ≠ some (.logLevel, v)

namespace Unlevelled

lemma take (h : r.logLevel = none) (hp : p ≠ .logLevel) (ok : r.take p v = .ok q) :
    q.logLevel = none := by
  obtain ⟨-, t, -, rfl⟩ := take_eq_ok.mp ok
  cases p with
  | root => exact h
  | config => exact h
  | logLevel => exact absurd rfl hp
  | dryRun => exact h

lemma settle (h : Unlevelled r) (ok : r.settle = .ok s) : s.logLevel = none := by
  rcases settle_eq_ok.mp ok with ⟨-, rfl⟩ | ⟨p, v, hp, htake⟩
  · exact h.unset
  · have hne : p ≠ .logLevel := fun he => h.pending (some v) (he ▸ hp)
    exact take (r := { r with pending := none }) h.unset hne htake

lemma next (h : Unlevelled r) (hnext : Next r arg q)
    (unnamed : r.onlyPaths = true ∨ isLevelOption arg = false) : Unlevelled q := by
  have hoption {p : Parameter} (options : r.onlyPaths = false)
      (isOption : p = .config ∨ p = .logLevel) (named : isLevelOption p.flag = isLevelOption arg) :
      p = .config := by
    rcases isOption with rfl | rfl
    · rfl
    · rw [options, ← named] at unnamed
      exact absurd unnamed (by decide)
  cases hnext with
  | path isPath first settle =>
    have hunset := h.settle settle
    exact ⟨hunset, by simp⟩
  | value options plain waiting => exact ⟨h.unset, fun v hv => h.pending none (by simp_all)⟩
  | endOfOptions options arg_eq => exact ⟨h.unset, h.pending⟩
  | option options isOption arg_eq settle =>
    obtain rfl := hoption options isOption (by rw [arg_eq])
    have hunset := h.settle settle
    exact ⟨hunset, by simp⟩
  | joined options isOption arg_eq settle taken =>
    obtain rfl := hoption options isOption (by rw [arg_eq]; rcases isOption with rfl | rfl <;> rfl)
    refine ⟨take (h.settle settle) (by decide) taken, fun v => ?_⟩
    obtain ⟨-, t, -, rfl⟩ := take_eq_ok.mp taken
    rw [pending_set, (settled settle).1]
    simp
  | dryRun options arg_eq settle first =>
    have hunset := h.settle settle
    exact ⟨hunset, by simp [(settled settle).1]⟩

lemma run (h : Unlevelled r) (ok : args.foldlM step r = .ok q)
    (lacks : r.onlyPaths = true ∨ LacksLevel args) : Unlevelled q := by
  induction args generalizing r with
  | nil =>
    cases ok
    exact h
  | cons arg args ih =>
    rw [List.foldlM_cons] at ok
    obtain ⟨s, hs, hrest⟩ := bind_eq_ok ok
    have hnext := next_of_step hs
    rcases lacks with only | lacks
    · exact ih (h.next hnext (.inl only)) hrest (.inl (onlyPaths_of_next_of_onlyPaths hnext only))
    · by_cases hend : arg = endOfOptions
      · have hnamed : isLevelOption arg = false := by rw [hend]; decide
        exact ih (h.next hnext (.inr hnamed)) hrest (.inl (onlyPaths_of_end (hend ▸ hs)))
      · obtain ⟨hnamed, hlacks⟩ := lacksLevel_cons hend lacks
        exact ih (h.next hnext (.inr hnamed)) hrest (.inr hlacks)

/-- At the end, the level is that of the variable, or the one that stands in for it. -/
lemma finish (h : Unlevelled r) (ok : r.finish env = .ok i) :
    r.request env = .ok i.request ∧
      (env.logLevel = none ∧ i.level = "warn".toList ∨
        ∃ v, env.logLevel = some v ∧ Utf8.decode? v = some i.level) := by
  obtain ⟨s, hs, hconfig⟩ := bind_eq_ok ok
  obtain ⟨c, hc, hlevel⟩ := bind_eq_ok hconfig
  obtain ⟨l, hl, hi⟩ := bind_eq_ok hlevel
  obtain rfl := Except.ok.inj hi
  have hunset : c.logLevel = none := by
    rcases orVariable_eq_ok.mp hc with ⟨-, rfl⟩ | ⟨v, -, -, htake⟩
    · exact h.settle hs
    · exact take (h.settle hs) (by decide) htake
  have hrequest : r.request env = .ok ⟨c.root, c.config, c.dryRun⟩ := by
    rw [request, hs]
    change s.orVariable .config env.config >>= _ = _
    rw [hc]
    rfl
  rcases orVariable_eq_ok.mp hl with ⟨hkept, rfl⟩ | ⟨v, hv, -, htake⟩
  · rw [has, hunset] at hkept
    exact ⟨hrequest, .inl ⟨hkept.resolve_right (by simp), by rw [hunset]; rfl⟩⟩
  · obtain ⟨-, t, ht, rfl⟩ := take_eq_ok.mp htake
    exact ⟨hrequest, .inr ⟨v, hv, ht⟩⟩

end Unlevelled

end Reading

open Reading

/-- What puts a level ahead between two parts of a command line adds it. -/
lemma parse_of_inserted {front back inserted : List Bytes} {level : Text} {env env' : Environment}
    {i : Invocation} (ok : parse env' (front ++ inserted ++ back) = .ok i)
    (ahead : ∀ {r r' : Reading}, r.onlyPaths = false → inserted.foldlM step r = .ok r' →
      Ahead level r r' ∨ r'.onlyPaths = true ∧ r'.pending = some (.logLevel, none))
    (options : endOfOptions ∉ front) (config : env'.config = env.config) :
    (front ++ back).foldlM step {} >>= Reading.request env = .ok i.request ∧ i.level = level := by
  obtain ⟨q', hq', hend⟩ := bind_eq_ok ok
  rw [List.append_assoc, List.foldlM_append] at hq'
  obtain ⟨r, hr, hrest⟩ := bind_eq_ok hq'
  rw [List.foldlM_append] at hrest
  obtain ⟨r', hr', hback⟩ := bind_eq_ok hrest
  have hfront : (front ++ back).foldlM step {} = back.foldlM step r := by
    rw [List.foldlM_append, hr]
    rfl
  rcases ahead ((onlyPaths_of_run hr options).trans rfl) hr' with hahead | ⟨only, waiting⟩
  · obtain ⟨q, hq, hahead⟩ := hahead.run hback
    rw [hfront, hq]
    exact hahead.finish config hend
  · have hrun : back.foldlM step r' >>= finish env' = .ok i := by
      rw [hback]
      exact hend
    exact absurd hrun (rejected_of_waiting only waiting)

/-- Whatever level is added to a command line and wherever: if what comes of it is accepted, then it
asks for what the command line asks for, at this level. -/
theorem AddsLevel.parse_eq_ok {env env' : Environment} {args args' : List Bytes} {level : Text}
    {i : Invocation} (h : AddsLevel env args level env' args') (ok : parse env' args' = .ok i) :
    args.foldlM step {} >>= Reading.request env = .ok i.request ∧ i.level = level := by
  have hunlevelled : Unlevelled {} := ⟨rfl, by simp⟩
  cases h with
  | byDefault lacks =>
    obtain ⟨q', hq', hend⟩ := bind_eq_ok ok
    obtain ⟨hrequest, hlevel⟩ := (hunlevelled.run hq' (.inr lacks)).finish hend
    rw [hq']
    refine ⟨hrequest, ?_⟩
    rcases hlevel with ⟨-, hlevel⟩ | ⟨v, hv, -⟩
    · exact hlevel
    · cases hv
  | byVariable lacks =>
    obtain ⟨q', hq', hend⟩ := bind_eq_ok ok
    obtain ⟨hrequest, hlevel⟩ := (hunlevelled.run hq' (.inr lacks)).finish hend
    rw [hq']
    refine ⟨hrequest, ?_⟩
    rcases hlevel with ⟨hv, -⟩ | ⟨v, hv, hlevel⟩
    · cases hv
    · cases hv
      simpa using hlevel.symm
  | byOption args_eq options =>
    rw [args_eq]
    exact parse_of_inserted ok (fun only hr => ahead_of_option only hr) options rfl
  | byJoinedOption args_eq options =>
    rw [args_eq]
    exact parse_of_inserted ok (fun only hr => .inl (ahead_of_joinedOption only hr)) options rfl

/-- Only the level is added. -/
lemma AddsLevel.env_eq {env env' : Environment} {args args' : List Bytes} {level : Text}
    (h : AddsLevel env args level env' args') : ∃ v, env' = { env with logLevel := v } := by
  cases h with
  | byDefault => exact ⟨_, rfl⟩
  | byVariable => exact ⟨_, rfl⟩
  | byOption => exact ⟨_, rfl⟩
  | byJoinedOption => exact ⟨_, rfl⟩

end CommandLine

/-- At the level of traces, all events are shown. -/
lemma Event.shownAt_trace (es : List Event) : shownAt .trace es = es := by
  refine List.filter_eq_self.mpr fun e _ => ?_
  cases e <;> rfl

/-- A level that names no severity stands for warnings. -/
lemma Severity.ofText_of_unnamed {level : Text}
    (unnamed : ∀ s ∈ all, isNamed level.trim s = false) : ofText level = warn := by
  rw [ofText, List.find?_eq_none.mpr fun s hs => by simp [unnamed s hs], Option.getD_none]

namespace Program
open CommandLine

/-- The line about why a run failed, if it did. -/
def failureLine (failure : Option Failure) : List Text :=
  (failure.map fun e => "Error: ".toList ++ e.message).toList

/-- On the error output, an execution shows those events of its run that are severe enough for a
level, in their order, and behind them why the run failed. Its status tells whether it did. -/
structure Shows (level : Severity) (events : List Event) (failure : Option Failure)
    (x : Execution) : Prop where
  status : x.status = if failure.isSome then 1 else 0
  errors : x.errors =
    (events.filter fun e => e.severity.rank ≤ level.rank).map Event.line ++ failureLine failure

/-- What an execution leads to is what its run leads to, and at any level it shows this run. -/
lemma shows_invoke (out : Output) (env : Environment) (r : Request) (fs : FileSystem) :
    let run := Run.request out env r fs
    ∃ failure, ∀ level,
      let x := invoke out env ⟨r, level⟩ fs
      x.files = run.files ∧ x.output = run.report ∧
        Shows (Severity.ofText level) (.starting :: run.events) failure x := by
  intro run
  have hshown (level : Text) (complaint : List Text) :
      (((.tell .starting :: run.acts).filter (Act.doneAt (Severity.ofText level))).filterMap
        Act.told?).map Event.line ++ complaint =
      (Event.shownAt (Severity.ofText level) (.starting :: run.events)).map Event.line ++
        complaint := by
    rw [Act.told_doneAt]
    rfl
  cases outcome : run.outcome with
  | ok t =>
    refine ⟨none, fun level =>
      ⟨invoke_files out env ⟨r, level⟩ fs, invoke_output out env ⟨r, level⟩ fs, ?_, ?_⟩⟩
    · rw [invoke, outcome]
      rfl
    · rw [invoke, outcome]
      exact hshown level []
  | error e =>
    refine ⟨some e, fun level =>
      ⟨invoke_files out env ⟨r, level⟩ fs, invoke_output out env ⟨r, level⟩ fs, ?_, ?_⟩⟩
    · rw [invoke, outcome]
      rfl
    · rw [invoke, outcome]
      exact hshown level [_]

/-- Where a level that is added is accepted, the execution is the one that the command line asks
for, at this level. -/
lemma execute_of_addsLevel {env env' : Environment} {args args' : List Bytes} {level : Text}
    (adds : AddsLevel env args level env' args') (accepted : (parse env' args').isOk)
    (out : Output) (fs : FileSystem) :
    ∃ r, args.foldlM Reading.step {} >>= Reading.request env = .ok r ∧
      execute out env' args' fs = invoke out env ⟨r, level⟩ fs := by
  cases ok : parse env' args' with
  | error halt =>
    rw [ok] at accepted
    cases accepted
  | ok i =>
    obtain ⟨hrequest, rfl⟩ := adds.parse_eq_ok ok
    obtain ⟨v, rfl⟩ := adds.env_eq
    refine ⟨i.request, hrequest, ?_⟩
    -- a run does not look at the variable for the level
    exact execute_of_ok ok out fs

/-- The level decides what is shown of a run and nothing else. Two levels may be added to the same
command line in different ways. If both are accepted, then both executions leave the same files,
write the same output, end with the same status and give the same reason for a failure. Each shows
the events of one and the same run that are severe enough for its level, which are all of them at
the level of traces. A level that names no severity stands for warnings. -/
theorem execute_level (out : Output) (fs : FileSystem) {env env₁ env₂ : Environment}
    {args args₁ args₂ : List Bytes} {level₁ level₂ : Text}
    (adds₁ : AddsLevel env args level₁ env₁ args₁) (adds₂ : AddsLevel env args level₂ env₂ args₂)
    (accepted₁ : (parse env₁ args₁).isOk) (accepted₂ : (parse env₂ args₂).isOk) :
    let x₁ := execute out env₁ args₁ fs
    let x₂ := execute out env₂ args₂ fs
    x₁.files = x₂.files ∧ x₁.output = x₂.output ∧ x₁.status = x₂.status ∧
    ∃ events failure,
      Shows (Severity.ofText level₁) events failure x₁ ∧
      Shows (Severity.ofText level₂) events failure x₂ ∧
      (Severity.ofText level₂ = .trace →
        x₂.errors = events.map Event.line ++ failureLine failure) ∧
      ((∀ s ∈ Severity.all, Severity.isNamed level₁.trim s = false) →
        Shows .warn events failure x₁) := by
  intro x₁ x₂
  obtain ⟨r, hr, hx₁⟩ := execute_of_addsLevel adds₁ accepted₁ out fs
  obtain ⟨r', hr', hx₂⟩ := execute_of_addsLevel adds₂ accepted₂ out fs
  obtain rfl : r = r' := Except.ok.inj (hr.symm.trans hr')
  obtain ⟨failure, hshows⟩ := shows_invoke out env r fs
  obtain ⟨hfiles₁, houtput₁, hshows₁⟩ := hshows level₁
  obtain ⟨hfiles₂, houtput₂, hshows₂⟩ := hshows level₂
  rw [← hx₁] at hfiles₁ houtput₁ hshows₁
  rw [← hx₂] at hfiles₂ houtput₂ hshows₂
  refine ⟨hfiles₁.trans hfiles₂.symm, houtput₁.trans houtput₂.symm,
    hshows₁.status.trans hshows₂.status.symm, _, failure, hshows₁, hshows₂, fun last => ?_,
    fun unnamed => ?_⟩
  · have hall := Event.shownAt_trace (.starting :: (Run.request out env r fs).events)
    rw [hshows₂.errors, last]
    exact congrArg (fun es => es.map Event.line ++ failureLine failure) hall
  · rwa [Severity.ofText_of_unnamed unnamed] at hshows₁

theorem execute_level_variable_and_option :
    let file : Entry := .file {} (Utf8.encode "logger.info();\nx".toList)
    let src : Entry := .dir {} [(⟨[0x61, 0x2E, 0x74, 0x73], by decide⟩, file)]
    let fs : FileSystem := ⟨.dir {} [(⟨[0x73], by decide⟩, src)], []⟩
    let root : List Bytes := [Utf8.encode ['s']]
    let env₁ : Environment := { logLevel := some (Utf8.encode " Trace".toList) }
    let env₂ : Environment := { logLevel := some [0xFF] }
    let loud : List Bytes := [Parameter.logLevel.flag, Utf8.encode "loud".toList]
    let x₁ := execute {} env₁ root fs
    let x₂ := execute {} env₂ (loud ++ root) fs
    x₁.files = x₂.files ∧ x₁.output = x₂.output ∧ x₁.status = x₂.status ∧
      x₁.errors.length = 5 ∧ x₂.errors = [] := by
  intro file src fs root env₁ env₂ loud x₁ x₂
  have lacks : LacksLevel root := by unfold LacksLevel; decide
  have adds₁ : AddsLevel {} root " Trace".toList env₁ root := .byVariable lacks _
  have adds₂ : AddsLevel {} root "loud".toList env₂ (loud ++ root) :=
    @AddsLevel.byOption {} root [] root rfl (by decide) _ _
  have accepted₁ : (parse env₁ root).isOk := by decide +kernel
  have accepted₂ : (parse env₂ (loud ++ root)).isOk := by decide +kernel
  obtain ⟨hfiles, houtput, hstatus, -⟩ := execute_level {} fs adds₁ adds₂ accepted₁ accepted₂
  exact ⟨hfiles, houtput, hstatus, by decide +kernel, by decide +kernel⟩

end Program
end LogSweep
