import LogSweep.Proofs.TableKeys
import LogSweep.Proofs.Yields

/-! No table that a document describes has a key twice, and neither has any table inside it. -/
namespace LogSweep.Toml

/-- No table in a value has a key twice. -/
inductive Value.Distinct : Value → Prop
  | string (t : Text) : Distinct (.string t)
  | integer (n : Int) : Distinct (.integer n)
  | float (x : Binary64) : Distinct (.float x)
  | boolean (b : Bool) : Distinct (.boolean b)
  | moment : Distinct .moment
  | array {items : List (Spanned Value)} (inside : ∀ v ∈ items, v.item.Distinct) :
      Distinct (.array items)
  | table {entries : Table} (nodup : (keys entries).Nodup)
      (inside : ∀ e ∈ entries, e.2.item.Distinct) : Distinct (.table entries)

namespace Draft

/-- No table in an entry has a key twice. -/
inductive Distinct : Draft → Prop
  | value {v : Spanned Value} (inside : v.item.Distinct) : Distinct (.value v)
  | table {origin : Origin} {span : Span} {entries : Entries} (nodup : (keys entries).Nodup)
      (inside : ∀ e ∈ entries, e.2.Distinct) : Distinct (.table origin span entries)
  | tables {finished : List (Spanned Value)} {span : Span} {entries : Entries}
      (before : ∀ v ∈ finished, v.item.Distinct) (nodup : (keys entries).Nodup)
      (inside : ∀ e ∈ entries, e.2.Distinct) : Distinct (.tables finished span entries)

/-- No table under construction has a key twice. -/
structure AllDistinct (entries : Entries) : Prop where
  nodup : (keys entries).Nodup
  inside : ∀ e ∈ entries, e.2.Distinct

variable {entries entries' : Entries} {k : Text} {d : Draft}

lemma allDistinct_nil : AllDistinct [] := ⟨List.nodup_nil, nofun⟩

lemma distinct_finishAll (nodup : (keys entries).Nodup)
    (inside : ∀ e ∈ entries, e.2.finish.item.Distinct) :
    Value.Distinct (.table (finishAll entries)) := by
  refine .table (by rwa [keys_finishAll]) fun e he => ?_
  rw [finishAll_eq_map] at he
  obtain ⟨e', he', rfl⟩ := List.mem_map.mp he
  exact inside e' he'

theorem Distinct.finish (h : d.Distinct) : d.finish.item.Distinct := by
  induction h with
  | value inside => exact inside
  | table nodup inside ih => exact distinct_finishAll nodup ih
  | tables before nodup inside ih =>
    refine .array fun v hv => ?_
    rcases List.mem_cons.mp (List.mem_reverse.mp hv) with rfl | hv
    · exact distinct_finishAll nodup ih
    · exact before v hv

lemma AllDistinct.finish (h : AllDistinct entries) :
    Value.Distinct (.table (finishAll entries)) :=
  distinct_finishAll h.nodup fun e he => (h.inside e he).finish

lemma AllDistinct.of_find? (h : AllDistinct entries) (hk : find? k entries = some d) :
    d.Distinct := h.inside _ (mem_of_lookup hk)

lemma AllDistinct.concat (h : AllDistinct entries) (hk : k ∉ keys entries) (hd : d.Distinct) :
    AllDistinct (entries ++ [(k, d)]) where
  nodup := by
    rw [keys_append, keys_singleton, List.nodup_append]
    refine ⟨h.nodup, List.nodup_singleton k, fun x hx y hy => ?_⟩
    obtain rfl := List.mem_singleton.mp hy
    exact ne_of_mem_of_not_mem hx hk
  inside e he := by
    rcases List.mem_append.mp he with he | he
    · exact h.inside e he
    · obtain rfl := List.mem_singleton.mp he
      exact hd

lemma AllDistinct.replace (h : AllDistinct entries) (k : Text) (hd : d.Distinct) :
    AllDistinct (replace k d entries) where
  nodup := by
    rw [keys_replace]
    exact h.nodup
  inside e he := by
    obtain ⟨e', he', rfl⟩ := List.mem_map.mp he
    split
    · exact hd
    · exact h.inside e' he'

lemma AllDistinct.erase (h : AllDistinct entries) (k : Text) : AllDistinct (erase k entries) where
  nodup := by
    rw [keys_erase]
    exact h.nodup.filter _
  inside e he := h.inside e (List.mem_of_mem_filter he)

/-! Changes. -/

/-- A change gives tables without double keys if it is made to such tables. -/
def Change.KeepsDistinct (change : Change) : Prop :=
  ∀ origin entries entries', AllDistinct entries → change origin entries = some entries' →
    AllDistinct entries'

lemma along_keepsDistinct (opened : Origin) (path : List (Spanned Text)) {change : Change}
    (h : change.KeepsDistinct) : Change.KeepsDistinct (along opened path change) := by
  induction path with
  | nil => exact h
  | cons k path ih =>
    intro origin entries entries' distinct hchange
    cases goes_of_along hchange with
    | opens absent inside =>
      obtain ⟨nodup, hinside⟩ := ih _ _ _ allDistinct_nil inside
      exact distinct.concat (lookup_eq_none_iff.mp absent) (.table nodup hinside)
    | enters found inside =>
      cases distinct.of_find? found with
      | table nodup hinside =>
        obtain ⟨nodup', hinside'⟩ := ih _ _ _ ⟨nodup, hinside⟩ inside
        exact distinct.replace _ (.table nodup' hinside')
    | entersLast found inside =>
      cases distinct.of_find? found with
      | tables before nodup hinside =>
        obtain ⟨nodup', hinside'⟩ := ih _ _ _ ⟨nodup, hinside⟩ inside
        exact distinct.replace _ (.tables before nodup' hinside')

lemma insert_distinct {p : Pair} (hp : p.value.item.Distinct) (distinct : AllDistinct entries)
    (h : insert entries p = some entries') : AllDistinct entries' := by
  refine along_keepsDistinct .impliedByKey p.path ?_ _ _ _ distinct h
  intro origin inner inner' hinner hadd
  dsimp only at hadd
  split at hadd
  · obtain ⟨absent, rfl⟩ := add_eq_some hadd
    exact hinner.concat (lookup_eq_none_iff.mp absent) (.value hp)
  · cases hadd

lemma insertAll_distinct {pairs : List Pair} (hpairs : ∀ p ∈ pairs, p.value.item.Distinct)
    (distinct : AllDistinct entries) (h : insertAll entries pairs = some entries') :
    AllDistinct entries' := by
  refine foldlM_induct
    (P := fun pairs entries => (∀ p ∈ pairs, p.value.item.Distinct) → AllDistinct entries)
    (fun _ => distinct) (fun pairs p entries entries' ih hinsert hall => ?_) h hpairs
  have hfront := ih fun q hq => hall q (List.mem_append_left _ hq)
  exact insert_distinct (hall p (by simp)) hfront hinsert

lemma opened_keepsDistinct {s : Section} (hs : ∀ p ∈ s.pairs, p.value.item.Distinct) :
    Change.KeepsDistinct (opened s) := by
  intro origin entries entries' distinct h
  have hnew {new : Entries} (inside : insertAll [] s.pairs = some new) : AllDistinct new :=
    insertAll_distinct hs allDistinct_nil inside
  cases opens_of_opened h with
  | newTable opening absent inside =>
    obtain ⟨nodup, hinside⟩ := hnew inside
    exact distinct.concat (lookup_eq_none_iff.mp absent) (.table nodup hinside)
  | impliedTable opening found inside =>
    cases distinct.of_find? found with
    | table nodup hinside =>
      obtain ⟨nodup', hinside'⟩ := insertAll_distinct hs ⟨nodup, hinside⟩ inside
      exact (distinct.erase s.key).concat (by simp) (.table nodup' hinside')
  | firstElement opening absent inside =>
    obtain ⟨nodup, hinside⟩ := hnew inside
    exact distinct.concat (lookup_eq_none_iff.mp absent) (.tables nofun nodup hinside)
  | nextElement opening found inside =>
    obtain ⟨nodup, hinside⟩ := hnew inside
    cases distinct.of_find? found with
    | tables before nodup' hinside' =>
      refine distinct.replace s.key (.tables (List.forall_mem_cons.mpr ⟨?_, before⟩) nodup hinside)
      exact AllDistinct.finish ⟨nodup', hinside'⟩

end Draft

theorem Table.ofSections_distinct {pairs : List Draft.Pair} {sections : List Section} {t : Table}
    (hpairs : ∀ p ∈ pairs, p.value.item.Distinct)
    (hsections : ∀ s ∈ sections, ∀ p ∈ s.pairs, p.value.item.Distinct)
    (h : Table.ofSections pairs sections = some t) : Value.Distinct (.table t) := by
  obtain ⟨top, hpairs', h⟩ := Option.bind_eq_some_iff.mp h
  obtain ⟨entries, hheaded, heq⟩ := Option.bind_eq_some_iff.mp h
  obtain rfl := Option.some.inj heq
  have htop := Draft.insertAll_distinct hpairs Draft.allDistinct_nil hpairs'
  refine Draft.AllDistinct.finish (Draft.foldlM_induct
    (P := fun sections entries =>
      (∀ s ∈ sections, ∀ p ∈ s.pairs, p.value.item.Distinct) → Draft.AllDistinct entries)
    (fun _ => htop) (fun sections s entries entries' ih hinsert hall => ?_) hheaded hsections)
  have hfront := ih fun s' hs' => hall s' (List.mem_append_left _ hs')
  have hs := Draft.opened_keepsDistinct (hall s (by simp))
  exact Draft.along_keepsDistinct .impliedByHeader s.path hs _ _ _ hfront hinsert

lemma Value.distinct_established : Reader.Establishes Distinct where
  string := .string
  integer := .integer
  float := .float
  boolean := .boolean
  moment := .moment
  array _ inside := .array inside
  table _ _ _ _ _ _ inside made :=
    (Draft.insertAll_distinct inside Draft.allDistinct_nil made).finish

/-- Neither the table of a document nor any table in it has a key twice. -/
theorem Table.ofText?_distinct {source : Text} {t : Table} (h : Table.ofText? source = some t) :
    Value.Distinct (.table t) := by
  obtain ⟨⟨⟨pairs, sections⟩, after⟩, hread, hsections⟩ := Option.bind_eq_some_iff.mp h
  obtain ⟨hpairs, hheaded⟩ := Value.distinct_established.document_yields _ _ _ hread
  exact ofSections_distinct hpairs hheaded hsections

end LogSweep.Toml
