import LogSweep.Proofs.DistinctKeys
import LogSweep.Proofs.KeyOrder
import LogSweep.Proofs.Layering

/-! How a document is decoded. Every value that a field asks for has to be of a kind, and the values
are visited in the order in which the tables list their keys: the first one of a wrong kind is the
error, whatever the version is. If there is none, an unsupported version is the error. Otherwise the
configuration has the given value of each field and the built-in value of each field left out. -/
namespace LogSweep
open Toml

namespace Config

/-- A value that is visited, and the kind that is asked for. -/
abbrev Demand := Spanned Value × Kind

def Kind.fits : Kind → Value → Bool
  | .text, .string _ => true
  | .list, .array _ => true
  | .settings, .table _ => true
  | .settings, .array _ => true
  | .settings, .moment => true
  | _, _ => false

def mismatch? : Demand → Option Mismatch
  | (v, kind) => if kind.fits v.item then none else some ⟨v, kind⟩

/-- The first value of a wrong kind. -/
def firstMismatch? (ds : List Demand) : Option Mismatch := ds.findSome? mismatch?

/-- A list of texts is visited before its items. -/
def listDemands (v : Spanned Value) : List Demand :=
  (v, .list) :: match v.item with
    | .array items => items.map fun i => (i, .text)
    | _ => []

/-- The values visited for one entry of a section. -/
def fieldDemands : Text × Spanned Value → List Demand
  | (key, v) =>
    if key = "root".toList then [(v, .text)]
    else if key = "extensions".toList then listDemands v
    else if key = "exclude_dirs".toList then listDemands v
    else []

/-- The values visited for a section that is an array. -/
def itemDemands : List (Spanned Value) → List Demand
  | [] => []
  | [r] => [(r, .text)]
  | [r, e] => (r, .text) :: listDemands e
  | r :: e :: x :: _ => (r, .text) :: (listDemands e ++ listDemands x)

/-- The values visited for a section. -/
def sectionDemands (v : Spanned Value) : List Demand :=
  (v, .settings) :: match v.item with
    | .table entries => entries.flatMap fieldDemands
    | .array items => itemDemands items
    | _ => []

/-- The values visited for one entry of a document. -/
def entryDemands : Text × Spanned Value → List Demand
  | (key, v) =>
    if key = "version".toList then [(v, .text)]
    else if key = "strip".toList then sectionDemands v
    else []

/-- The values visited for a document. -/
def demands (t : Table) : List Demand := t.flatMap entryDemands

/-- Why decoding stops. -/
def refusal? {α : Type} : Except Mismatch α → Option Mismatch
  | .error m => some m
  | .ok _ => none

/-- Decoding visits values: it stops at the first one of a wrong kind, if there is one. -/
def Visits {α : Type} (r : Except Mismatch α) (ds : List Demand) : Prop :=
  refusal? r = firstMismatch? ds

section
variable {α β : Type} {r : Except Mismatch α} {ds ds' : List Demand}

lemma visits_pure (x : α) : Visits (pure x) [] := rfl

lemma Visits.bind {f : α → Except Mismatch β} (h : Visits r ds) (hf : ∀ x, Visits (f x) ds') :
    Visits (r >>= f) (ds ++ ds') := by
  unfold Visits firstMismatch? at *
  rw [List.findSome?_append, ← h]
  cases r with
  | error m => rfl
  | ok x => exact hf x

/-- What is made of a decoded value does not matter. -/
lemma Visits.map {f : α → β} (h : Visits r ds) : Visits (r >>= fun x => pure (f x)) ds := by
  have hbind := h.bind fun x => visits_pure (f x)
  rwa [List.append_nil] at hbind

lemma visits_foldlM {σ : Type} {step : σ → β → Except Mismatch σ} {visited : β → List Demand}
    (hstep : ∀ s x, Visits (step s x) (visited x)) (xs : List β) (s : σ) :
    Visits (xs.foldlM step s) (xs.flatMap visited) := by
  induction xs generalizing s with
  | nil => exact visits_pure s
  | cons x xs ih =>
    rw [List.foldlM_cons, List.flatMap_cons]
    exact (hstep s x).bind ih

end

lemma visits_text (v : Spanned Value) : Visits (text v) [(v, .text)] := by
  unfold Visits text
  cases v with
  | mk span item => cases item <;> rfl

lemma visits_items (items : List (Spanned Value)) :
    Visits (items.mapM text) (items.map fun i => (i, .text)) := by
  induction items with
  | nil => rfl
  | cons i items ih =>
    rw [List.mapM_cons, List.map_cons]
    exact (visits_text i).bind fun _ => ih.map

lemma visits_texts (v : Spanned Value) : Visits (texts v) (listDemands v) := by
  obtain ⟨span, item⟩ := v
  cases item with
  | array items => exact visits_items items
  | string t => rfl
  | integer n => rfl
  | float x => rfl
  | boolean b => rfl
  | moment => rfl
  | table entries => rfl

end Config

namespace Settings
open Config

lemma visits_set (s : Settings) (e : Text × Spanned Value) : Visits (set s e) (fieldDemands e) := by
  obtain ⟨key, v⟩ := e
  unfold set fieldDemands
  dsimp only
  split
  · exact (visits_text v).map
  split
  · exact (visits_texts v).map
  split
  · exact (visits_texts v).map
  · exact visits_pure s

lemma visits_ofItems (items : List (Spanned Value)) :
    Visits (ofItems items) (itemDemands items) := by
  unfold ofItems itemDemands
  split
  · exact visits_pure _
  · next r => exact (visits_text r).map
  · next r e => exact (visits_text r).bind fun _ => (visits_texts e).map
  · next r e x rest =>
    exact (visits_text r).bind fun _ => (visits_texts e).bind fun _ => (visits_texts x).map

lemma visits_ofValue (v : Spanned Value) : Visits (ofValue v) (sectionDemands v) := by
  obtain ⟨span, item⟩ := v
  cases item with
  | table entries => exact visits_foldlM visits_set entries {}
  | array items => exact visits_ofItems items
  | moment => rfl
  | string t => rfl
  | integer n => rfl
  | float x => rfl
  | boolean b => rfl

end Settings

namespace Config

lemma visits_set (c : Config) (e : Text × Spanned Value) : Visits (set c e) (entryDemands e) := by
  obtain ⟨key, v⟩ := e
  unfold set entryDemands
  dsimp only
  split
  · exact (visits_text v).map
  split
  · exact (Settings.visits_ofValue v).map
  · exact visits_pure c

/-- Decoding a document stops at the first value of a wrong kind. -/
theorem visits_ofTable (t : Table) : Visits (ofTable t) (demands t) :=
  visits_foldlM visits_set t {}

end Config

namespace Toml

/-- Of distinct keys, each has the entry that counts. -/
lemma Table.mem_iff_last? {t : Table} (nodup : (keys t).Nodup) {k : Text} {v : Spanned Value} :
    (k, v) ∈ t ↔ Table.last? k t = some v := by
  constructor
  · intro h
    obtain ⟨front, back, rfl⟩ := List.append_of_mem h
    have hback : back.filter (·.1 = k) = [] := by
      refine List.filter_eq_nil_iff.mpr fun e he => ?_
      have hdistinct := (List.nodup_append.mp (keys_append front _ ▸ nodup)).2.1
      have hk : k ∉ keys back := (List.nodup_cons.mp hdistinct).1
      have hne : e.1 ≠ k := fun heq => hk (mem_keys_iff.mpr ⟨e.2, heq ▸ he⟩)
      simpa using hne
    rw [Table.last?, List.filter_append, List.filter_cons_of_pos (by simp), hback]
    simp
  · intro h
    obtain ⟨e, he, rfl⟩ := Option.map_eq_some_iff.mp h
    have hmem := List.mem_filter.mp (List.mem_of_getLast? he)
    have hk : e.1 = k := by simpa using hmem.2
    exact hk ▸ hmem.1

end Toml

namespace Config

def IsText (v : Spanned Value) : Prop := ∃ t, v.item = .string t

def AreTexts (v : Spanned Value) : Prop := ∃ items, v.item = .array items ∧ ∀ i ∈ items, IsText i

end Config

open Config

/-- A section of the right types: a table or an array whose fields, as far as it has them, are a text
and two lists of texts, or a date or a time. -/
structure Settings.WellTyped (v : Value) : Prop where
  kind : (∃ entries, v = .table entries) ∨ (∃ items, v = .array items) ∨ v = .moment
  root : ∀ x, v.field? "root".toList 0 = some x → IsText x
  extensions : ∀ x, v.field? "extensions".toList 1 = some x → AreTexts x
  excluded : ∀ x, v.field? "exclude_dirs".toList 2 = some x → AreTexts x

namespace Config

/-- A document of the right types. -/
structure WellTyped (t : Table) : Prop where
  version : ∀ v, Table.last? "version".toList t = some v → IsText v
  settings : ∀ v, Table.last? "strip".toList t = some v → Settings.WellTyped v.item

/-- Nothing that is visited is of a wrong kind. -/
def AllFit (ds : List Demand) : Prop := ∀ d ∈ ds, d.2.fits d.1.item = true

lemma firstMismatch?_eq_none {ds : List Demand} : firstMismatch? ds = none ↔ AllFit ds := by
  rw [firstMismatch?, List.findSome?_eq_none_iff]
  refine forall₂_congr fun d _ => ?_
  obtain ⟨v, kind⟩ := d
  simp [mismatch?]

@[simp] lemma allFit_nil : AllFit [] := nofun

@[simp] lemma allFit_cons {d : Demand} {ds : List Demand} :
    AllFit (d :: ds) ↔ d.2.fits d.1.item = true ∧ AllFit ds := List.forall_mem_cons

@[simp] lemma allFit_append {ds ds' : List Demand} : AllFit (ds ++ ds') ↔ AllFit ds ∧ AllFit ds' :=
  List.forall_mem_append

lemma allFit_flatMap {α : Type} {xs : List α} {visited : α → List Demand} :
    AllFit (xs.flatMap visited) ↔ ∀ x ∈ xs, AllFit (visited x) := by
  simp only [AllFit, List.mem_flatMap]
  exact ⟨fun h x hx d hd => h d ⟨x, hx, hd⟩, fun h d ⟨x, hx, hd⟩ => h x hx d hd⟩

lemma fits_text_iff (v : Spanned Value) : Kind.text.fits v.item = true ↔ IsText v := by
  unfold IsText
  cases v.item <;> simp [Kind.fits]

lemma allFit_listDemands (v : Spanned Value) : AllFit (listDemands v) ↔ AreTexts v := by
  unfold listDemands AreTexts
  rw [allFit_cons]
  cases v.item with
  | array items =>
    have hitems : AllFit (items.map fun i => (i, Kind.text)) ↔ ∀ i ∈ items, IsText i := by
      simp only [AllFit, List.forall_mem_map, fits_text_iff]
    simpa [Kind.fits] using hitems
  | string t => simp [Kind.fits]
  | integer n => simp [Kind.fits]
  | float x => simp [Kind.fits]
  | boolean b => simp [Kind.fits]
  | moment => simp [Kind.fits]
  | table entries => simp [Kind.fits]

lemma allFit_fieldDemands (key : Text) (v : Spanned Value) :
    AllFit (fieldDemands (key, v)) ↔ (key = "root".toList → IsText v) ∧
      (key = "extensions".toList → AreTexts v) ∧ (key = "exclude_dirs".toList → AreTexts v) := by
  unfold fieldDemands
  dsimp only
  split
  · next hk =>
    subst hk
    simp [fits_text_iff]
  split
  · next hk =>
    subst hk
    simp [allFit_listDemands]
  split
  · next hk =>
    subst hk
    simp [allFit_listDemands]
  · next hr he hx =>
    exact iff_of_true allFit_nil
      ⟨fun h => absurd h hr, fun h => absurd h he, fun h => absurd h hx⟩

/-- What holds of all entries by their keys holds of the entries of these keys. -/
lemma forall_mem_iff_last? {t : Table} (nodup : (keys t).Nodup) (k : Text)
    (P : Spanned Value → Prop) :
    (∀ e ∈ t, e.1 = k → P e.2) ↔ ∀ v, Table.last? k t = some v → P v := by
  constructor
  · exact fun h v hv => h (k, v) ((Table.mem_iff_last? nodup).mpr hv) rfl
  · rintro h ⟨_, v⟩ he rfl
    exact h v ((Table.mem_iff_last? nodup).mp he)

lemma allFit_fields {entries : Table} (nodup : (keys entries).Nodup) :
    AllFit (entries.flatMap fieldDemands) ↔
      (∀ x, Table.last? "root".toList entries = some x → IsText x) ∧
      (∀ x, Table.last? "extensions".toList entries = some x → AreTexts x) ∧
      ∀ x, Table.last? "exclude_dirs".toList entries = some x → AreTexts x := by
  simp only [← forall_mem_iff_last? nodup, ← forall_and, allFit_flatMap]
  exact forall₂_congr fun e _ => allFit_fieldDemands e.1 e.2

lemma allFit_items (items : List (Spanned Value)) :
    AllFit (itemDemands items) ↔ (∀ x, items[0]? = some x → IsText x) ∧
      (∀ x, items[1]? = some x → AreTexts x) ∧ ∀ x, items[2]? = some x → AreTexts x := by
  unfold itemDemands
  split <;> simp [fits_text_iff, allFit_listDemands]

lemma wellTyped_iff {v : Value}
    (kind : (∃ entries, v = .table entries) ∨ (∃ items, v = .array items) ∨ v = .moment) :
    Settings.WellTyped v ↔ (∀ x, v.field? "root".toList 0 = some x → IsText x) ∧
      (∀ x, v.field? "extensions".toList 1 = some x → AreTexts x) ∧
      ∀ x, v.field? "exclude_dirs".toList 2 = some x → AreTexts x :=
  ⟨fun h => ⟨h.root, h.extensions, h.excluded⟩,
    fun ⟨root, extensions, excluded⟩ => ⟨kind, root, extensions, excluded⟩⟩

lemma allFit_sectionDemands {v : Spanned Value} (distinct : v.item.Distinct) :
    AllFit (sectionDemands v) ↔ Settings.WellTyped v.item := by
  have hwrong {item : Value} (hfits : Kind.settings.fits item = false) :
      ¬ Settings.WellTyped item := by
    rintro ⟨⟨entries, rfl⟩ | ⟨items, rfl⟩ | rfl, -, -, -⟩ <;> cases hfits
  obtain ⟨span, item⟩ := v
  rw [sectionDemands, allFit_cons]
  cases item with
  | table entries =>
    cases distinct with
    | table nodup inside =>
      rw [wellTyped_iff (.inl ⟨entries, rfl⟩)]
      exact (and_iff_right rfl).trans (allFit_fields nodup)
  | array items =>
    rw [wellTyped_iff (.inr (.inl ⟨items, rfl⟩))]
    exact (and_iff_right rfl).trans (allFit_items items)
  | moment =>
    rw [wellTyped_iff (.inr (.inr rfl))]
    exact iff_of_true ⟨rfl, allFit_nil⟩ ⟨nofun, nofun, nofun⟩
  | string t => exact iff_of_false (fun h => nomatch h.1) (hwrong rfl)
  | integer n => exact iff_of_false (fun h => nomatch h.1) (hwrong rfl)
  | float x => exact iff_of_false (fun h => nomatch h.1) (hwrong rfl)
  | boolean b => exact iff_of_false (fun h => nomatch h.1) (hwrong rfl)

/-- All values that are visited are of the right kinds exactly if the document is of the right
types. -/
theorem allFit_demands {t : Table} (distinct : Value.Distinct (.table t)) :
    AllFit (demands t) ↔ WellTyped t := by
  cases distinct with
  | table nodup inside =>
    have hentry : ∀ e ∈ t, AllFit (entryDemands e) ↔
        (e.1 = "version".toList → IsText e.2) ∧
        (e.1 = "strip".toList → Settings.WellTyped e.2.item) := by
      rintro ⟨key, v⟩ he
      unfold entryDemands
      dsimp only
      split
      · next hk =>
        subst hk
        simp [fits_text_iff]
      split
      · next hk =>
        subst hk
        simpa using allFit_sectionDemands (inside _ he)
      · next hv hs =>
        exact iff_of_true allFit_nil ⟨fun h => absurd h hv, fun h => absurd h hs⟩
    rw [demands, allFit_flatMap, forall₂_congr hentry]
    simp only [forall_and]
    rw [forall_mem_iff_last? nodup "version".toList IsText,
      forall_mem_iff_last? nodup "strip".toList fun v => Settings.WellTyped v.item]
    exact ⟨fun ⟨version, settings⟩ => ⟨version, settings⟩, fun h => ⟨h.version, h.settings⟩⟩

/-- A field has the value that is given for it, or the built-in one if it is left out. -/
inductive Given {α : Type} (means : Value → α → Prop) (builtIn : α) :
    Option (Spanned Value) → α → Prop
  | left : Given means builtIn none builtIn
  | given {v : Spanned Value} {x : α} (value : means v.item x) : Given means builtIn (some v) x

lemma FieldIs.imp {α : Type} {read : Spanned Value → Except Mismatch α} {builtIn x : α}
    {means : Value → α → Prop} {field : Option (Spanned Value)}
    (hread : ∀ v x, read v = .ok x → means v.item x) (h : FieldIs read builtIn field x) :
    Given means builtIn field x := by
  cases h with
  | left => exact .left
  | given reads => exact .given (hread _ _ reads)

/-- The value is the text. -/
def TextIs (v : Value) (t : Text) : Prop := v = .string t

/-- The value is the list of the texts. -/
def TextsAre (v : Value) (ts : List Text) : Prop :=
  ∃ items, v = .array items ∧ items.map (·.item) = ts.map .string

lemma Given.unique {α : Type} {means : Value → α → Prop} {builtIn x y : α}
    {field : Option (Spanned Value)} (functional : ∀ v x y, means v x → means v y → x = y)
    (h : Given means builtIn field x) (h' : Given means builtIn field y) : x = y := by
  cases h with
  | left =>
    cases h'
    rfl
  | given value =>
    cases h' with
    | given value' => exact functional _ _ _ value value'

lemma TextIs.unique (v : Value) (t t' : Text) (h : TextIs v t) (h' : TextIs v t') : t = t' :=
  Value.string.inj (h.symm.trans h')

lemma TextsAre.unique (v : Value) (ts ts' : List Text) (h : TextsAre v ts) (h' : TextsAre v ts') :
    ts = ts' := by
  obtain ⟨items, rfl, hitems⟩ := h
  obtain ⟨items', heq, hitems'⟩ := h'
  obtain rfl := Value.array.inj heq
  have hinjective : Function.Injective Value.string := fun _ _ => Value.string.inj
  exact hinjective.list_map (hitems.symm.trans hitems')

lemma textIs_of_text {v : Spanned Value} {t : Text} (h : text v = .ok t) : TextIs v.item t := by
  unfold text at h
  split at h
  · next hv =>
    obtain rfl := Except.ok.inj h
    exact hv
  · cases h

lemma textsAre_of_texts {v : Spanned Value} {ts : List Text} (h : texts v = .ok ts) :
    TextsAre v.item ts := by
  unfold texts at h
  split at h
  · next items hv =>
    refine ⟨items, hv, ?_⟩
    clear hv
    induction items generalizing ts with
    | nil =>
      obtain rfl := Except.ok.inj h
      rfl
    | cons i items ih =>
      rw [List.mapM_cons] at h
      obtain ⟨t, hi, h⟩ := bind_eq_ok h
      obtain ⟨ts', hitems, h⟩ := bind_eq_ok h
      obtain rfl := Except.ok.inj h
      rw [List.map_cons, List.map_cons, ih hitems, textIs_of_text hi]
  · cases h

end Config

/-- The settings that a section gives, each field on its own. -/
structure Settings.ReadFrom (v : Value) (s : Settings) : Prop where
  root : Given TextIs "src".toList (v.field? "root".toList 0) s.root
  extensions : Given TextsAre ["ts".toList, "tsx".toList] (v.field? "extensions".toList 1)
    s.extensions
  excluded : Given TextsAre ["node_modules".toList] (v.field? "exclude_dirs".toList 2) s.excluded

lemma Settings.ReadFrom.unique {v : Value} {s s' : Settings} (h : ReadFrom v s)
    (h' : ReadFrom v s') : s = s' := by
  obtain ⟨root, extensions, excluded⟩ := s
  obtain ⟨root', extensions', excluded'⟩ := s'
  obtain rfl : root = root' := h.root.unique TextIs.unique h'.root
  obtain rfl : extensions = extensions' := h.extensions.unique TextsAre.unique h'.extensions
  obtain rfl : excluded = excluded' := h.excluded.unique TextsAre.unique h'.excluded
  rfl

lemma Settings.GivenBy.readFrom {v : Value} {s : Settings} (h : GivenBy v s) : ReadFrom v s :=
  ⟨h.root.imp fun _ _ => textIs_of_text, h.extensions.imp fun _ _ => textsAre_of_texts,
    h.excluded.imp fun _ _ => textsAre_of_texts⟩

namespace Config

/-- The configuration that a document gives. It has settings exactly if the document has a section
for them. -/
structure ReadFrom (t : Table) (c : Config) : Prop where
  version : Given TextIs currentVersion (Table.last? "version".toList t) c.version
  settings : ∀ v, Table.last? "strip".toList t = some v →
    ∃ s, c.settings = some s ∧ s.ReadFrom v.item
  absent : Table.last? "strip".toList t = none → c.settings = none

/-- A document gives only one configuration: besides its fields, nothing in it matters. -/
theorem ReadFrom.unique {t : Table} {c c' : Config} (h : ReadFrom t c) (h' : ReadFrom t c') :
    c = c' := by
  obtain ⟨version, settings⟩ := c
  obtain ⟨version', settings'⟩ := c'
  obtain rfl : version = version' := h.version.unique TextIs.unique h'.version
  cases hv : Table.last? "strip".toList t with
  | none =>
    obtain rfl : settings = none := h.absent hv
    obtain rfl : settings' = none := h'.absent hv
    rfl
  | some v =>
    obtain ⟨s, hs, read⟩ := h.settings v hv
    obtain ⟨s', hs', read'⟩ := h'.settings v hv
    obtain rfl : settings = some s := hs
    obtain rfl : settings' = some s' := hs'
    rw [read.unique read']

lemma version_of_ofTable {t : Table} {c : Config} (h : ofTable t = .ok c) :
    FieldIs text currentVersion (Table.last? "version".toList t) c.version := by
  refine foldlM_induct
    (P := fun t c => FieldIs text currentVersion (Table.last? "version".toList t) c.version)
    .left ?_ h
  intro t k v c c' ih hstep
  unfold set at hstep
  dsimp only at hstep
  split at hstep
  · next hk =>
    obtain ⟨x, hx, hc⟩ := bind_eq_ok hstep
    obtain rfl := Except.ok.inj hc
    subst hk
    exact .change hx
  split at hstep
  · next hk hs =>
    obtain ⟨s, -, hc⟩ := bind_eq_ok hstep
    obtain rfl := Except.ok.inj hc
    exact ih.keep hk
  · next hk hs =>
    obtain rfl := Except.ok.inj hstep
    exact ih.keep hk

theorem readFrom_of_ofTable {t : Table} {c : Config} (h : ofTable t = .ok c) : ReadFrom t c := by
  have tells := tells_of_ofTable h
  refine ⟨(version_of_ofTable h).imp fun _ _ => textIs_of_text, fun v hv => ?_, fun hnone => ?_⟩
  · generalize c.settings = settings at tells ⊢
    cases tells with
    | nothing absent => cases hv.symm.trans absent
    | settings found given =>
      obtain rfl := Option.some.inj (hv.symm.trans found)
      exact ⟨_, rfl, given.readFrom⟩
  · generalize c.settings = settings at tells ⊢
    cases tells with
    | nothing absent => rfl
    | settings found given => cases hnone.symm.trans found

variable {source : Text} {t : Table}

lemma supported_eq (c : Config) : c.supported =
    if c.version = currentVersion then .ok c else .error (.unsupportedVersion c.version) := by
  simp [supported, supportedVersions]

/-- What decoding a document comes to. -/
inductive Decoded (t : Table) : Except Error Config → Prop
  | mistyped {m : Mismatch} (first : firstMismatch? (demands t) = some m) :
      Decoded t (.error (.mismatch m))
  | unsupported {c : Config} (fit : firstMismatch? (demands t) = none) (readFrom : ReadFrom t c)
      (other : c.version ≠ currentVersion) : Decoded t (.error (.unsupportedVersion c.version))
  | accepted {c : Config} (fit : firstMismatch? (demands t) = none) (readFrom : ReadFrom t c)
      (version : c.version = currentVersion) : Decoded t (.ok c)

lemma Given.eq_builtIn_iff {builtIn x : Text} {field : Option (Spanned Value)}
    (h : Given TextIs builtIn field x) :
    x = builtIn ↔ ∀ v, field = some v → v.item = .string builtIn := by
  cases h with
  | left => simp
  | @given v x value =>
    unfold TextIs at value
    simp [value]

lemma Given.eq_other_iff {builtIn x other : Text} {field : Option (Spanned Value)}
    (h : Given TextIs builtIn field x) (hne : other ≠ builtIn) :
    x = other ↔ ∃ v, field = some v ∧ v.item = .string other := by
  cases h with
  | left => simp [hne.symm]
  | @given v x value =>
    unfold TextIs at value
    simp [value]

namespace Decoded

variable {outcome : Except Error Config} {c : Config} {v : Text}

lemma accepts_iff (h : Decoded t outcome) :
    (∃ c, outcome = .ok c) ↔ firstMismatch? (demands t) = none ∧
      ∀ v, Table.last? "version".toList t = some v → v.item = .string currentVersion := by
  cases h with
  | mistyped first => simp [first]
  | unsupported fit readFrom other => simpa [fit, readFrom.version.eq_builtIn_iff] using other
  | accepted fit readFrom version => simpa [fit] using readFrom.version.eq_builtIn_iff.mp version

lemma eq_ok_iff (h : Decoded t outcome) :
    outcome = .ok c ↔
      firstMismatch? (demands t) = none ∧ ReadFrom t c ∧ c.version = currentVersion := by
  cases h with
  | mistyped first => simp [first]
  | unsupported fit readFrom other =>
    refine iff_of_false nofun fun ⟨_, readFrom', version⟩ => other ?_
    rwa [readFrom.unique readFrom']
  | accepted fit readFrom version =>
    refine ⟨fun heq => ?_, fun ⟨_, readFrom', _⟩ => by rw [readFrom.unique readFrom']⟩
    obtain rfl := Except.ok.inj heq
    exact ⟨fit, readFrom, version⟩

lemma eq_mismatch_iff {m : Mismatch} (h : Decoded t outcome) :
    outcome = .error (.mismatch m) ↔ firstMismatch? (demands t) = some m := by
  cases h with
  | mistyped first => simp [first, eq_comm]
  | unsupported fit readFrom other => simp [fit]
  | accepted fit readFrom version => simp [fit]

lemma eq_unsupported_iff (h : Decoded t outcome) :
    outcome = .error (.unsupportedVersion v) ↔ firstMismatch? (demands t) = none ∧
      v ≠ currentVersion ∧
      ∃ x, Table.last? "version".toList t = some x ∧ x.item = .string v := by
  cases h with
  | mistyped first => simp [first]
  | unsupported fit readFrom other =>
    rw [Except.error.injEq, Error.unsupportedVersion.injEq]
    constructor
    · rintro rfl
      exact ⟨fit, other, (readFrom.version.eq_other_iff other).mp rfl⟩
    · rintro ⟨-, hne, hx⟩
      exact (readFrom.version.eq_other_iff hne).mpr hx
  | accepted fit readFrom version =>
    refine iff_of_false nofun ?_
    rintro ⟨-, hne, hx⟩
    exact hne (((readFrom.version.eq_other_iff hne).mpr hx).symm.trans version)

lemma ne_malformed (h : Decoded t outcome) : outcome ≠ .error .malformed := by
  rintro rfl
  cases h

end Decoded

theorem ofText_decoded (parsed : Table.ofText? source = some t) : Decoded t (ofText source) := by
  have hvisits : refusal? (ofTable t) = firstMismatch? (demands t) := visits_ofTable t
  unfold ofText
  rw [parsed]
  dsimp only
  cases hc : ofTable t with
  | error m =>
    rw [hc] at hvisits
    exact .mistyped hvisits.symm
  | ok c =>
    rw [hc] at hvisits
    have readFrom := readFrom_of_ofTable hc
    dsimp only
    rw [supported_eq]
    split
    · next version => exact .accepted hvisits.symm readFrom version
    · next other => exact .unsupported hvisits.symm readFrom other

/-- A document is decoded exactly. No key counts twice. It is a configuration if and only if all
values are of the right types and the version, if it is given, is the supported one, and then each
field has its given value or, by itself, the built-in one. Whatever the version is, the first value
of a wrong kind is the error if there is one; the values are visited in the order in which the tables
list their keys. Otherwise an unsupported version is the error. In the tables that headers and dotted
keys make, the keys stand in the order of their first mention, but a table that was implied by the
headers of tables inside it comes last when its own header follows. In the tables that are written in
a line, wherever they stand, there are no exceptions. -/
theorem ofText_decodes (parsed : Table.ofText? source = some t) :
    Value.Distinct (.table t) ∧
    ((∃ c, ofText source = .ok c) ↔ WellTyped t ∧
      ∀ v, Table.last? "version".toList t = some v → v.item = .string currentVersion) ∧
    (∀ c, ofText source = .ok c ↔ WellTyped t ∧ ReadFrom t c ∧ c.version = currentVersion) ∧
    (firstMismatch? (demands t) = none ↔ WellTyped t) ∧
    (∀ m, ofText source = .error (.mismatch m) ↔ firstMismatch? (demands t) = some m) ∧
    (∀ v, ofText source = .error (.unsupportedVersion v) ↔ WellTyped t ∧ v ≠ currentVersion ∧
      ∃ x, Table.last? "version".toList t = some x ∧ x.item = .string v) ∧
    ofText source ≠ .error .malformed ∧
    ∃ pairs sections after entries,
      Reader.document (Cursor.ofText source) = some ((pairs, sections), after) ∧
      Draft.ofSections pairs sections = some entries ∧ t = Draft.finishAll entries ∧
      (∀ path ks, Draft.keysAt? path entries = some ks →
        ks = Mention.keysAt path (mentions pairs sections)) ∧
      ∀ p ∈ pairs ++ sections.flatMap Section.pairs, p.value.item.InOrder := by
  have distinct := Table.ofText?_distinct parsed
  have typed : firstMismatch? (demands t) = none ↔ WellTyped t :=
    firstMismatch?_eq_none.trans (allFit_demands distinct)
  have decoded := ofText_decoded parsed
  refine ⟨distinct, decoded.accepts_iff.trans (and_congr_left' typed),
    fun c => decoded.eq_ok_iff.trans (and_congr_left' typed), typed,
    fun m => decoded.eq_mismatch_iff,
    fun v => decoded.eq_unsupported_iff.trans (and_congr_left' typed), decoded.ne_malformed, ?_⟩
  obtain ⟨⟨⟨pairs, sections⟩, after⟩, read, made⟩ := Option.bind_eq_some_iff.mp parsed
  dsimp only at made
  rw [Table.ofSections_eq] at made
  obtain ⟨entries, hentries, finished⟩ := Option.map_eq_some_iff.mp made
  obtain ⟨hpairs, hsections⟩ := Value.inOrder_established.document_yields _ _ _ read
  refine ⟨pairs, sections, after, entries, read, hentries, finished.symm,
    fun path ks hks => Draft.keysAt?_ofSections hentries hks, fun p hp => ?_⟩
  rcases List.mem_append.mp hp with hp | hp
  · exact hpairs p hp
  · obtain ⟨s, hs, hp⟩ := List.mem_flatMap.mp hp
    exact hsections s hs p hp

/-- An array stands for the section, and other keys and further items say nothing. -/
theorem ofText_decodes_array :
    let source := "other.root = 1\nstrip = [\"a\", [], [\"b\"], 7]".toList
    let c : Config := { settings := some ⟨['a'], [], [['b']]⟩ }
    ∃ t, Table.ofText? source = some t ∧ ofText source = .ok c ∧ WellTyped t ∧ ReadFrom t c ∧
      firstMismatch? (demands t) = none := by
  intro source c
  have ok : ofText source = .ok c := eq_ok_of_toOption (by decide +kernel)
  have some : (Table.ofText? source).isSome = true := by decide +kernel
  obtain ⟨t, parsed⟩ := Option.isSome_iff_exists.mp some
  obtain ⟨-, -, accepted, typed, -⟩ := ofText_decodes parsed
  obtain ⟨hwell, readFrom, -⟩ := (accepted c).mp ok
  exact ⟨t, parsed, ok, hwell, readFrom, typed.mpr hwell⟩

/-- The first header implies the section for the settings, whose own header follows behind that of a
table in the place of the version. So the version is visited first and not the root, although the key
of the section appears before that of the version. -/
theorem ofText_decodes_moved_section :
    let source := "[strip.x]\n[version]\n[strip]\nroot=1".toList
    ∃ pairs sections after t, Reader.document (Cursor.ofText source) =
        some ((pairs, sections), after) ∧ Table.ofText? source = some t ∧
      ((mentions pairs sections).filterMap (Mention.at? [])).map Prod.fst =
        ["strip".toList, "version".toList, "strip".toList, "strip".toList] ∧
      keys t = ["version".toList, "strip".toList] ∧
      (∃ m, firstMismatch? (demands t.reverse) = some m ∧ m.message source =
        ("TOML parse error at line 4, column 6\n  |\n4 | root=1\n  |      ^\n" ++
          "invalid type: integer `1`, expected a string\n").toList) ∧
      ∃ m, ofText source = .error (.mismatch m) ∧ m.message source =
        ("TOML parse error at line 2, column 1\n  |\n2 | [version]\n  | ^^^^^^^^^\n" ++
          "invalid type: map, expected a string\n").toList := by
  intro source
  have read : (Reader.document (Cursor.ofText source)).any (fun d =>
      ((mentions d.1.1 d.1.2).filterMap (Mention.at? [])).map Prod.fst ==
        ["strip".toList, "version".toList, "strip".toList, "strip".toList]) = true := by
    decide +kernel
  have first : (Table.ofText? source).any (fun t =>
      keys t == ["version".toList, "strip".toList] &&
      (firstMismatch? (demands t.reverse)).any fun m => m.message source ==
        ("TOML parse error at line 4, column 6\n  |\n4 | root=1\n  |      ^\n" ++
          "invalid type: integer `1`, expected a string\n").toList) = true := by
    decide +kernel
  have stopped : (match ofText source with
      | .error (.mismatch m) => m.message source ==
        ("TOML parse error at line 2, column 1\n  |\n2 | [version]\n  | ^^^^^^^^^\n" ++
          "invalid type: map, expected a string\n").toList
      | _ => false) = true := by
    decide +kernel
  obtain ⟨⟨⟨pairs, sections⟩, after⟩, hread, hmentions⟩ := (Option.any_eq_true _ _).mp read
  obtain ⟨t, ht, hfirst⟩ := (Option.any_eq_true _ _).mp first
  obtain ⟨hkeys, hdemands⟩ := Bool.and_eq_true_iff.mp hfirst
  obtain ⟨m, hm, hmessage⟩ := (Option.any_eq_true _ _).mp hdemands
  refine ⟨pairs, sections, after, t, hread, ht, eq_of_beq hmentions, eq_of_beq hkeys,
    ⟨m, hm, eq_of_beq hmessage⟩, ?_⟩
  split at stopped
  · next m' h => exact ⟨m', h, eq_of_beq stopped⟩
  · cases stopped

end Config
end LogSweep
