import LogSweep.Proofs.SweepStep
import Mathlib.Data.List.Forall2
import Mathlib.Data.List.Induction

/-! Layers of configuration. The first file that is no configuration decides how a run fails, and
otherwise the last file with a section decides all settings: what this section leaves out has its
built-in value, whatever the files before it say. -/
namespace LogSweep

namespace Toml

/-- What the last entry of a key says. -/
def Table.last? (key : Text) (t : Table) : Option (Spanned Value) :=
  (t.filter (·.1 = key)).getLast?.map Prod.snd

lemma Table.last?_concat (key k : Text) (v : Spanned Value) (t : Table) :
    Table.last? key (t ++ [(k, v)]) = if k = key then some v else Table.last? key t := by
  unfold last?
  by_cases h : k = key <;> simp [h]

/-- What a value holds for a field: the entry of a key, or the item at a position. -/
def Value.field? (key : Text) (position : Nat) : Value → Option (Spanned Value)
  | .table entries => Table.last? key entries
  | .array items => items[position]?
  | _ => none

end Toml

open Toml

namespace Config

/-- What each entry of a table preserves holds of the whole table. -/
lemma foldlM_induct {σ : Type} {step : σ → Text × Spanned Value → Except Mismatch σ}
    {P : Table → σ → Prop} {s₀ s : σ} {t : Table} (nil : P [] s₀)
    (concat : ∀ t k v s s', P t s → step s (k, v) = .ok s' → P (t ++ [(k, v)]) s')
    (h : t.foldlM step s₀ = .ok s) : P t s := by
  induction t using List.reverseRecOn generalizing s with
  | nil =>
    obtain rfl := Except.ok.inj h
    exact nil
  | append_singleton t x ih =>
    rw [List.foldlM_append] at h
    obtain ⟨s₁, hfront, hlast⟩ := bind_eq_ok h
    obtain ⟨s', hstep, hs'⟩ := bind_eq_ok hlast
    obtain rfl := Except.ok.inj hs'
    exact concat t x.1 x.2 s₁ s' (ih hfront) hstep

/-- A field is read from what is given for it, and has its default if there is nothing. -/
inductive FieldIs {α : Type} (read : Spanned Value → Except Mismatch α) (default : α) :
    Option (Spanned Value) → α → Prop
  | left : FieldIs read default none default
  | given {v : Spanned Value} {x : α} (reads : read v = .ok x) : FieldIs read default (some v) x

section
variable {α : Type} {read : Spanned Value → Except Mismatch α} {default x : α} {key k : Text}
  {t : Table} {v : Spanned Value}

lemma FieldIs.keep (h : FieldIs read default (Table.last? key t) x) (hk : k ≠ key) :
    FieldIs read default (Table.last? key (t ++ [(k, v)])) x := by
  rwa [Table.last?_concat, if_neg hk]

lemma FieldIs.change (reads : read v = .ok x) :
    FieldIs read default (Table.last? k (t ++ [(k, v)])) x := by
  rw [Table.last?_concat, if_pos rfl]
  exact .given reads

end

end Config

namespace Settings
open Config

/-- The settings that a section gives: what it leaves out has its built-in value. -/
structure GivenBy (v : Value) (s : Settings) : Prop where
  root : FieldIs text "src".toList (v.field? "root".toList 0) s.root
  extensions : FieldIs texts ["ts".toList, "tsx".toList] (v.field? "extensions".toList 1)
    s.extensions
  excluded : FieldIs texts ["node_modules".toList] (v.field? "exclude_dirs".toList 2) s.excluded

/-- What one entry of a table does to the settings. -/
lemma set_cases {s s' : Settings} {k : Text} {v : Spanned Value} (h : set s (k, v) = .ok s') :
    (k = "root".toList ∧ ∃ r, text v = .ok r ∧ s' = { s with root := r }) ∨
    (k = "extensions".toList ∧ ∃ e, texts v = .ok e ∧ s' = { s with extensions := e }) ∨
    (k = "exclude_dirs".toList ∧ ∃ x, texts v = .ok x ∧ s' = { s with excluded := x }) ∨
    (k ≠ "root".toList ∧ k ≠ "extensions".toList ∧ k ≠ "exclude_dirs".toList ∧ s' = s) := by
  unfold set at h
  dsimp only at h
  split at h
  · next hk =>
    obtain ⟨r, hr, hs⟩ := bind_eq_ok h
    exact .inl ⟨hk, r, hr, (Except.ok.inj hs).symm⟩
  split at h
  · next hk =>
    obtain ⟨e, he, hs⟩ := bind_eq_ok h
    exact .inr (.inl ⟨hk, e, he, (Except.ok.inj hs).symm⟩)
  split at h
  · next hk =>
    obtain ⟨x, hx, hs⟩ := bind_eq_ok h
    exact .inr (.inr (.inl ⟨hk, x, hx, (Except.ok.inj hs).symm⟩))
  · next hr he hx => exact .inr (.inr (.inr ⟨hr, he, hx, (Except.ok.inj h).symm⟩))

lemma givenBy_table {t : Table} {s : Settings} (h : t.foldlM set {} = .ok s) :
    GivenBy (.table t) s := by
  refine foldlM_induct (P := fun t s => GivenBy (.table t) s) ⟨.left, .left, .left⟩ ?_ h
  rintro t k v s s' ⟨root, extensions, excluded⟩ hstep
  rcases set_cases hstep with ⟨rfl, r, hr, rfl⟩ | ⟨rfl, e, he, rfl⟩ | ⟨rfl, x, hx, rfl⟩ |
    ⟨hr, he, hx, rfl⟩
  · exact ⟨.change hr, extensions.keep (by decide), excluded.keep (by decide)⟩
  · exact ⟨root.keep (by decide), .change he, excluded.keep (by decide)⟩
  · exact ⟨root.keep (by decide), extensions.keep (by decide), .change hx⟩
  · exact ⟨root.keep hr, extensions.keep he, excluded.keep hx⟩

lemma givenBy_array {items : List (Spanned Value)} {s : Settings} (h : ofItems items = .ok s) :
    GivenBy (.array items) s := by
  unfold ofItems at h
  split at h
  · obtain rfl := Except.ok.inj h
    exact ⟨.left, .left, .left⟩
  · next r =>
    obtain ⟨root, hr, hs⟩ := bind_eq_ok h
    obtain rfl := Except.ok.inj hs
    exact ⟨.given hr, .left, .left⟩
  · next r e =>
    obtain ⟨root, hr, h⟩ := bind_eq_ok h
    obtain ⟨extensions, he, hs⟩ := bind_eq_ok h
    obtain rfl := Except.ok.inj hs
    exact ⟨.given hr, .given he, .left⟩
  · next r e x _ =>
    obtain ⟨root, hr, h⟩ := bind_eq_ok h
    obtain ⟨extensions, he, h⟩ := bind_eq_ok h
    obtain ⟨excluded, hx, hs⟩ := bind_eq_ok h
    obtain rfl := Except.ok.inj hs
    exact ⟨.given hr, .given he, .given hx⟩

theorem givenBy_of_ofValue {v : Spanned Value} {s : Settings} (h : ofValue v = .ok s) :
    GivenBy v.item s := by
  unfold ofValue at h
  split at h
  · next entries hv =>
    rw [hv]
    exact givenBy_table h
  · next items hv =>
    rw [hv]
    exact givenBy_array h
  · next hv =>
    obtain rfl := Except.ok.inj h
    rw [hv]
    exact ⟨.left, .left, .left⟩
  · cases h

/-- The settings that are used for given ones and a request: its root counts, and extensions lose the
dots in front. -/
structure UsedFor (given : Settings) (r : Request) (used : Settings) : Prop where
  root : used.root = r.root.getD given.root
  extensions : List.Forall₂
    (fun g u : Text => ∃ n, g = List.replicate n '.' ++ u ∧ u.head? ≠ some '.')
    given.extensions used.extensions
  excluded : used.excluded = given.excluded

lemma split_dots (t : Text) :
    ∃ n, t = List.replicate n '.' ++ t.dropWhile (· = '.') ∧
      (t.dropWhile (· = '.')).head? ≠ some '.' := by
  induction t with
  | nil => exact ⟨0, rfl, by simp⟩
  | cons c t ih =>
    by_cases hc : c = '.'
    · subst hc
      obtain ⟨n, ht, hhead⟩ := ih
      refine ⟨n + 1, ?_, by simpa using hhead⟩
      rw [List.dropWhile_cons_of_pos (by simp), List.replicate_succ, List.cons_append, ← ht]
    · rw [List.dropWhile_cons_of_neg (by simpa using hc)]
      exact ⟨0, rfl, by simpa using hc⟩

lemma usedFor_adapted (s : Settings) (r : Request) : UsedFor s r (s.adapted r) := by
  refine ⟨rfl, ?_, rfl⟩
  rw [adapted, List.forall₂_map_right_iff, List.forall₂_same]
  exact fun t _ => split_dots t

end Settings

namespace Config

/-- What a document says about the settings, if it has a section for them. -/
inductive Tells (t : Table) : Option Settings → Prop
  | nothing (absent : Table.last? "strip".toList t = none) : Tells t none
  | settings {v : Spanned Value} {s : Settings} (found : Table.last? "strip".toList t = some v)
      (given : s.GivenBy v.item) : Tells t (some s)

/-- What one entry of a document does to the configuration. -/
lemma set_cases {c c' : Config} {k : Text} {v : Spanned Value} (h : set c (k, v) = .ok c') :
    (k = "strip".toList ∧ ∃ s, Settings.ofValue v = .ok s ∧ c'.settings = some s) ∨
    (k ≠ "strip".toList ∧ c'.settings = c.settings) := by
  unfold set at h
  dsimp only at h
  split at h
  · next hk =>
    obtain ⟨version, -, hc⟩ := bind_eq_ok h
    obtain rfl := Except.ok.inj hc
    exact .inr ⟨by rw [hk]; decide, rfl⟩
  split at h
  · next hk =>
    obtain ⟨s, hs, hc⟩ := bind_eq_ok h
    obtain rfl := Except.ok.inj hc
    exact .inl ⟨hk, s, hs, rfl⟩
  · next hk =>
    obtain rfl := Except.ok.inj h
    exact .inr ⟨hk, rfl⟩

lemma tells_of_ofTable {t : Table} {c : Config} (h : ofTable t = .ok c) : Tells t c.settings := by
  refine foldlM_induct (P := fun t c => Tells t c.settings) (.nothing rfl) ?_ h
  intro t k v c c' ih hstep
  rcases set_cases hstep with ⟨rfl, s, hs, hc⟩ | ⟨hk, hc⟩
  · rw [hc]
    refine .settings ?_ (Settings.givenBy_of_ofValue hs)
    rw [Table.last?_concat, if_pos rfl]
  · rw [hc]
    have hlast : Table.last? "strip".toList (t ++ [(k, v)]) = Table.last? "strip".toList t := by
      rw [Table.last?_concat, if_neg hk]
    generalize c.settings = settings at ih ⊢
    cases ih with
    | nothing absent => exact .nothing (hlast.trans absent)
    | settings found given => exact .settings (hlast.trans found) given

theorem tells_of_ofText {source : Text} {c : Config} (h : ofText source = .ok c) :
    ∃ t, Table.ofText? source = some t ∧ Tells t c.settings := by
  unfold ofText at h
  split at h
  · cases h
  · next t ht =>
    split at h
    · cases h
    · next c' hc =>
      unfold supported at h
      split at h
      · obtain rfl := Except.ok.inj h
        exact ⟨t, ht, tells_of_ofTable hc⟩
      · cases h

end Config

namespace Environment

/-- Where configurations are kept: where the variable says, if that is a text that is not empty, or
else in `.config` in the home directory. This is the one that its variable names, if that is not
empty, or else the one of the account. -/
inductive HasConfigHome (env : Environment) : Path → Prop
  | named {p : Path} {t : Text} (said : env.configHome = some p) (nonempty : p ≠ [])
      (text : Utf8.decode? p = some t) : HasConfigHome env p
  | inHome {p : Path} (unsaid : ∀ p t, env.configHome = some p → Utf8.decode? p = some t → p = [])
      (home : env.home = some p) (nonempty : p ≠ []) :
      HasConfigHome env (p.join (Path.ofText ".config".toList))
  | inAccount {p : Path} (unsaid : ∀ p t, env.configHome = some p → Utf8.decode? p = some t → p = [])
      (homeless : ∀ p, env.home = some p → p = []) (account : env.accountHome = some p)
      (nonempty : p ≠ []) : HasConfigHome env (p.join (Path.ofText ".config".toList))

variable {env : Environment} {p : Path}

lemma home?_eq_some_iff : env.home? = some p ↔
    env.home = some p ∧ p ≠ [] ∨
      (∀ q, env.home = some q → q = []) ∧ env.accountHome = some p ∧ p ≠ [] := by
  rw [home?, Option.or_eq_some_iff, Option.filter_eq_some_iff, Option.filter_eq_some_iff,
    Option.filter_eq_none_iff]
  simp

theorem configHome?_eq_some_iff (env : Environment) :
    env.configHome? = some p ↔ env.HasConfigHome p := by
  unfold configHome?
  cases said : env.configHome.filter fun p => !p.isEmpty && (Utf8.decode? p).isSome with
  | some q =>
    obtain ⟨hq, htext⟩ := Option.filter_eq_some_iff.mp said
    simp only [Bool.and_eq_true, Bool.not_eq_true', List.isEmpty_eq_false_iff] at htext
    obtain ⟨t, ht⟩ := Option.isSome_iff_exists.mp htext.2
    constructor
    · rintro ⟨⟩
      exact .named hq htext.1 ht
    · intro h
      cases h with
      | named said nonempty text => rw [← said, hq]
      | inHome unsaid home nonempty => exact absurd (unsaid q t hq ht) htext.1
      | inAccount unsaid homeless account nonempty => exact absurd (unsaid q t hq ht) htext.1
  | none =>
    have unsaid (q : Path) (t : Text) (hq : env.configHome = some q)
        (ht : Utf8.decode? q = some t) : q = [] := by
      have hno := Option.filter_eq_none_iff.mp said q hq
      simpa [ht] using hno
    simp only [Option.map_eq_some_iff, home?_eq_some_iff]
    constructor
    · rintro ⟨q, ⟨home, nonempty⟩ | ⟨homeless, account, nonempty⟩, rfl⟩
      · exact .inHome unsaid home nonempty
      · exact .inAccount unsaid homeless account nonempty
    · intro h
      cases h with
      | named said nonempty text => exact absurd (unsaid p _ said text) nonempty
      | inHome unsaid home nonempty => exact ⟨_, .inl ⟨home, nonempty⟩, rfl⟩
      | inAccount unsaid homeless account nonempty =>
        exact ⟨_, .inr ⟨homeless, account, nonempty⟩, rfl⟩

end Environment

namespace Layers

variable {fs : FileSystem} {p : Path} {ps : List Path} {e : Failure} {initial s : Settings}

/-- A file is no configuration: it cannot be read as a text, or its text is rejected. -/
inductive Rejects (fs : FileSystem) (p : Path) : Failure → Prop
  | unreadable {cause : IoError} (read : fs.readText p = .error cause) :
      Rejects fs p (.unreadableConfig p cause)
  | invalid {source : Text} {cause : Config.Error} (read : fs.readText p = .ok source)
      (rejected : Config.ofText source = .error cause) :
      Rejects fs p (.invalidConfig p source cause)

/-- A file is a configuration, with a section for the settings or without one. -/
inductive Holds (fs : FileSystem) (p : Path) : Option Settings → Prop
  | of {source : Text} {c : Config} {t : Table} (read : fs.readText p = .ok source)
      (accepted : Config.ofText source = .ok c) (document : Table.ofText? source = some t)
      (tells : Config.Tells t c.settings) : Holds fs p c.settings

/-- The settings to which files lead: those of the last one with a section, or else the initial
ones. -/
inductive Decide (fs : FileSystem) (initial : Settings) : List Path → Settings → Prop
  | nowhere {ps : List Path} (silent : ∀ p ∈ ps, Holds fs p none) : Decide fs initial ps initial
  | last {before after : List Path} {p : Path} {s : Settings} (decides : Holds fs p (some s))
      (silent : ∀ q ∈ after, Holds fs q none) : Decide fs initial (before ++ p :: after) s

/-- Every file either is a configuration or is none. -/
lemma config_cases (fs : FileSystem) (p : Path) :
    (∃ e, config fs p = .error e ∧ Rejects fs p e) ∨
    ∃ c, config fs p = .ok c ∧ Holds fs p c.settings := by
  unfold config
  cases read : fs.readText p with
  | error cause => exact .inl ⟨_, rfl, .unreadable read⟩
  | ok source =>
    dsimp only
    cases accepted : Config.ofText source with
    | error cause => exact .inl ⟨_, rfl, .invalid read accepted⟩
    | ok c =>
      obtain ⟨t, document, tells⟩ := Config.tells_of_ofText accepted
      exact .inr ⟨c, rfl, .of read accepted document tells⟩

lemma Rejects.config_eq (h : Rejects fs p e) : config fs p = .error e := by
  unfold config
  cases h with
  | unreadable read => rw [read]
  | invalid read rejected =>
    rw [read]
    simp only [rejected]

lemma merge_cons_error (h : config fs p = .error e) (ps : List Path) (s : Settings) :
    (merge fs (p :: ps) s).2 = .error e := by
  rw [merge, h]

lemma merge_cons_ok {c : Config} (h : config fs p = .ok c) (ps : List Path) (s : Settings) :
    (merge fs (p :: ps) s).2 = (merge fs ps (c.settings.getD s)).2 := by
  rw [merge, h]

/-- The first file that is no configuration is the failure. -/
lemma merge_rejected {before : List Path} (accepted : ∀ q ∈ before, ∀ e, ¬ Rejects fs q e)
    (h : Rejects fs p e) (after : List Path) (s : Settings) :
    (merge fs (before ++ p :: after) s).2 = .error e := by
  induction before generalizing s with
  | nil => exact merge_cons_error h.config_eq after s
  | cons q before ih =>
    obtain ⟨hq, hbefore⟩ := List.forall_mem_cons.mp accepted
    rcases config_cases fs q with ⟨e', -, hrejects⟩ | ⟨c, hc, -⟩
    · exact absurd hrejects (hq e')
    · rw [List.cons_append, merge_cons_ok hc]
      exact ih hbefore _

lemma Decide.cons {c : Config} (h : Decide fs (c.settings.getD initial) ps s)
    (hp : Holds fs p c.settings) : Decide fs initial (p :: ps) s := by
  cases h with
  | nowhere silent =>
    cases hs : c.settings with
    | none =>
      rw [hs] at hp
      exact .nowhere (List.forall_mem_cons.mpr ⟨hp, silent⟩)
    | some s =>
      rw [hs] at hp
      have hlast : Decide fs initial ([] ++ p :: ps) s := .last hp silent
      exact hlast
  | @last before after q s decides silent =>
    have hlast : Decide fs initial ((p :: before) ++ q :: after) s := .last decides silent
    exact hlast

/-- Files that are all configurations lead to settings. -/
lemma merge_accepted (accepted : ∀ p ∈ ps, ∀ e, ¬ Rejects fs p e) (initial : Settings) :
    ∃ s, (merge fs ps initial).2 = .ok s ∧ Decide fs initial ps s := by
  induction ps generalizing initial with
  | nil => exact ⟨initial, rfl, .nowhere nofun⟩
  | cons p ps ih =>
    obtain ⟨hp, hps⟩ := List.forall_mem_cons.mp accepted
    rcases config_cases fs p with ⟨e, -, hrejects⟩ | ⟨c, hc, hholds⟩
    · exact absurd hrejects (hp e)
    · obtain ⟨s, hs, hdecide⟩ := ih hps (c.settings.getD initial)
      exact ⟨s, (merge_cons_ok hc ps initial).trans hs, hdecide.cons hholds⟩

/-- What loading from files comes to. -/
structure Loads (fs : FileSystem) (sources : List Path) (r : Request)
    (outcome : Except Failure Setup) : Prop where
  fails_iff : (∃ e, outcome = .error e) ↔ ∃ p ∈ sources, ∃ e, Rejects fs p e
  first_failure : ∀ before p after e, sources = before ++ p :: after →
    (∀ q ∈ before, ∀ e, ¬ Rejects fs q e) → Rejects fs p e → outcome = .error e
  last_section : ∀ setup, outcome = .ok setup →
    ∃ given, Decide fs {} sources given ∧ given.UsedFor r setup.settings
  dry_run : ∀ setup, outcome = .ok setup → setup.dryRun = r.dryRun

/-- Of several files, some of which are no configurations, there is a first one. -/
lemma exists_first_rejected {sources : List Path} (h : ∃ p ∈ sources, ∃ e, Rejects fs p e) :
    ∃ before p after e, sources = before ++ p :: after ∧
      (∀ q ∈ before, ∀ e, ¬ Rejects fs q e) ∧ Rejects fs p e := by
  induction sources with
  | nil => simp at h
  | cons q sources ih =>
    by_cases hq : ∃ e, Rejects fs q e
    · obtain ⟨e, he⟩ := hq
      exact ⟨[], q, sources, e, rfl, nofun, he⟩
    · obtain ⟨p, hp, e, he⟩ := h
      have hrest : p ∈ sources := by
        rcases List.mem_cons.mp hp with rfl | hp
        · exact absurd ⟨e, he⟩ hq
        · exact hp
      obtain ⟨before, p, after, e, hsources, accepted, he⟩ := ih ⟨p, hrest, e, he⟩
      refine ⟨q :: before, p, after, e, by rw [hsources]; rfl, ?_, he⟩
      exact List.forall_mem_cons.mpr ⟨fun e' he' => hq ⟨e', he'⟩, accepted⟩

theorem setupFrom_loads (fs : FileSystem) (sources : List Path) (r : Request) :
    Loads fs sources r (setupFrom fs sources r).2 := by
  have hfirst (before : List Path) (p : Path) (after : List Path) (e : Failure)
      (hsources : sources = before ++ p :: after) (accepted : ∀ q ∈ before, ∀ e, ¬ Rejects fs q e)
      (he : Rejects fs p e) : (setupFrom fs sources r).2 = .error e := by
    change (merge fs sources {}).2.map _ = _
    rw [hsources, merge_rejected accepted he]
    rfl
  have hlast (accepted : ∀ p ∈ sources, ∀ e, ¬ Rejects fs p e) :
      ∃ given : Settings, (setupFrom fs sources r).2 = .ok ⟨given.adapted r, r.dryRun⟩ ∧
        Decide fs {} sources given := by
    obtain ⟨given, hgiven, hdecide⟩ := merge_accepted accepted {}
    refine ⟨given, ?_, hdecide⟩
    change (merge fs sources {}).2.map _ = _
    rw [hgiven]
    rfl
  have hsuccess (setup : Setup) (hsetup : (setupFrom fs sources r).2 = .ok setup) :
      ∃ given, Decide fs {} sources given ∧ setup = ⟨given.adapted r, r.dryRun⟩ := by
    obtain ⟨given, hgiven, hdecide⟩ := hlast fun p hp e he => by
      obtain ⟨before, q, after, e', hsources, accepted, he'⟩ := exists_first_rejected ⟨p, hp, e, he⟩
      rw [hfirst before q after e' hsources accepted he'] at hsetup
      cases hsetup
    exact ⟨given, hdecide, Except.ok.inj (hsetup.symm.trans hgiven)⟩
  refine ⟨⟨fun ⟨e, he⟩ => ?_, fun h => ?_⟩, hfirst, fun setup hsetup => ?_, fun setup hsetup => ?_⟩
  · by_contra hnone
    obtain ⟨given, hgiven, -⟩ := hlast fun p hp e he => hnone ⟨p, hp, e, he⟩
    rw [he] at hgiven
    cases hgiven
  · obtain ⟨before, p, after, e, hsources, accepted, he⟩ := exists_first_rejected h
    exact ⟨e, hfirst before p after e hsources accepted he⟩
  · obtain ⟨given, hdecide, rfl⟩ := hsuccess setup hsetup
    exact ⟨given, hdecide, given.usedFor_adapted r⟩
  · obtain ⟨given, -, rfl⟩ := hsuccess setup hsetup
    rfl

lemma setupIn_eq {env : Environment} {dir : Path} {r : Request} {setup : Setup}
    (h : (setupIn fs env dir r).2 = .ok setup) :
    setupIn fs env dir r = ((setupIn fs env dir r).1, .ok setup) := Prod.ext rfl h

/-- Loading comes in layers. It fails if and only if one of the files is no configuration, and then
with the first one that is none. Otherwise the last file with a section decides, with built-in
values for what this section leaves out, or the built-in values alone if there is none; the root of
a request goes before, extensions lose the dots in front, and whether the run is a dry one is up to
the request alone. The files of a run are `config.toml` in the directory `logstrip` among the
configurations and `.logstrip.toml` in a directory, each if it exists, and the one that the request
names, in any case. The run goes by what has been loaded. -/
theorem settings_of_layers (fs : FileSystem) (r : Request) :
    (∀ sources, Loads fs sources r (setupFrom fs sources r).2) ∧
    (∀ (env : Environment) (dir : Path),
      let shared := env.configHome?.map fun home =>
        (home.join (Path.ofText "logstrip".toList)).join (Path.ofText "config.toml".toList)
      let own := dir.join (Path.ofText ".logstrip.toml".toList)
      setupIn fs env dir r = setupFrom fs
        (shared.toList.filter fs.exists? ++ [own].filter fs.exists? ++
          (r.config.map Path.ofText).toList) r) ∧
    (∀ (env : Environment) (home : Path), env.configHome? = some home ↔ env.HasConfigHome home) ∧
    (∀ p, fs.exists? p = true ↔ ∃ e, fs.stat p = .ok e) ∧
    ∀ out env events setup, setupIn fs env (Path.ofText ['.']) r = (events, .ok setup) →
      let swept := Run.sweep out (Selection.ofSettings setup.settings) setup.dryRun fs
      Run.request out env r fs = { swept with acts := events.map .tell ++ swept.acts } := by
  refine ⟨fun sources => setupFrom_loads fs sources r, fun env dir => ?_,
    fun env home => env.configHome?_eq_some_iff, fun p => ?_, ?_⟩
  · rw [setupIn, sources, List.filter_append]
    rfl
  · unfold FileSystem.exists?
    cases fs.stat p with
    | error e => simp [Except.isOk, Except.toBool]
    | ok e => simp [Except.isOk, Except.toBool]
  · intro out env events setup h
    have hsetup : (setupIn fs env (Path.ofText ['.']) r).2 = .ok setup := by rw [h]
    rw [Run.request_configured hsetup, h]

/-- The second section replaces the first one as a whole, and the third file leaves it alone. -/
theorem settings_of_layers_three_files :
    let file (t : String) : Entry := .file {} (Utf8.encode t.toList)
    let fs : FileSystem := ⟨.dir {} [
      (⟨[0x61], by decide⟩, file "[strip]\nroot = \"a\""),
      (⟨[0x62], by decide⟩, file "[strip]\nextensions = [\"..x\"]"),
      (⟨[0x63], by decide⟩, file "")], []⟩
    let files : List Path := [[0x61], [0x62], [0x63]]
    let used : Settings := { extensions := [['x']] }
    let r : Request := { config := some ['b'], dryRun := true }
    (setupFrom fs files {}).2 = .ok ⟨used, false⟩ ∧
    (∃ given, Decide fs {} files given ∧ given.UsedFor {} used) ∧
    ∃ events, setupIn fs {} (Path.ofText ['.']) r = (events, .ok ⟨used, true⟩) ∧
      let swept := Run.sweep {} (Selection.ofSettings used) true fs
      Run.request {} {} r fs = { swept with acts := events.map .tell ++ swept.acts } := by
  intro file fs files used r
  have hused : (setupFrom fs files {}).2 = .ok ⟨used, false⟩ := eq_ok_of_toOption (by decide +kernel)
  have hrun := setupIn_eq (eq_ok_of_toOption (by decide +kernel) :
    (setupIn fs {} (Path.ofText ['.']) r).2 = .ok ⟨used, true⟩)
  obtain ⟨hloads, -, -, -⟩ := settings_of_layers fs {}
  obtain ⟨-, -, -, -, hrequest⟩ := settings_of_layers fs r
  exact ⟨hused, (hloads files).last_section _ hused, _, hrun, hrequest {} {} _ _ hrun⟩

end Layers
end LogSweep
