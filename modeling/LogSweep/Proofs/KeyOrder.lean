import LogSweep.Proofs.TableKeys
import LogSweep.Proofs.Yields

/-! The order of the keys in the tables that headers and dotted keys make. Keys stand in the order in
which the document mentions them first. The exception is a table that the headers of tables inside
it have implied: it moves behind the others when its own header comes. -/
namespace LogSweep.Toml

/-- A key that a document mentions in the table to which the keys in front of it lead. -/
structure Mention where
  front : List Text
  key : Text
  /-- The key has a header of its own here, which opens a table. -/
  own : Bool

namespace Mention

/-- The key that a mention concerns in the table at a path, and whether this key has its own header
here. -/
def at? : List Text → Mention → Option (Text × Bool)
  | [], ⟨[], key, own⟩ => some (key, own)
  | [], ⟨k :: _, _, _⟩ => some (k, false)
  | k :: path, ⟨k' :: front, key, own⟩ => if k = k' then at? path ⟨front, key, own⟩ else none
  | _ :: _, ⟨[], _, _⟩ => none

/-- The keys of a table after one more mention. -/
def place (ks : List Text) : Text × Bool → List Text
  | (k, own) => if own then ks.filter (· ≠ k) ++ [k] else if ks.contains k then ks else ks ++ [k]

/-- The keys of the table at a path, in the order to which the mentions lead. -/
def keysAt (path : List Text) (ms : List Mention) : List Text :=
  (ms.filterMap (at? path)).foldl place []

/-- The mention in a table that has a key in the table around it. -/
def behind (k : Text) (m : Mention) : Mention := { m with front := k :: m.front }

variable {k : Text} {ks : List Text} {ms : List Mention}

lemma at?_nil_behind (k : Text) (m : Mention) : at? [] (behind k m) = some (k, false) := rfl

lemma at?_cons_behind (p k : Text) (path : List Text) (m : Mention) :
    at? (p :: path) (behind k m) = if p = k then at? path m else none := rfl

lemma place_of_mem (h : k ∈ ks) : place ks (k, false) = ks := by
  simp [place, h]

lemma mem_place (ks : List Text) (k : Text) (own : Bool) : k ∈ place ks (k, own) := by
  cases own <;> by_cases h : k ∈ ks <;> simp [place, h]

lemma place_of_not_mem (h : k ∉ ks) (own : Bool) : place ks (k, own) = ks ++ [k] := by
  cases own with
  | false => simp [place, h]
  | true =>
    have hkeep : ks.filter (· ≠ k) = ks :=
      List.filter_eq_self.mpr fun x hx => by simpa using ne_of_mem_of_not_mem hx h
    simp only [place, if_true, hkeep]

/-- Where no key has its own header, keys stand in the order of their first mention. -/
lemma foldl_place_eq {xs : List (Text × Bool)} (h : ∀ x ∈ xs, x.2 = false) :
    xs.foldl place [] = (xs.map Prod.fst).eraseDups := by
  induction xs using List.reverseRecOn with
  | nil => rfl
  | append_singleton xs x ih =>
    obtain ⟨k, own⟩ := x
    obtain rfl : own = false := h (k, own) (by simp)
    rw [List.foldl_append, ih fun x hx => h x (by simp [hx]), List.map_append,
      List.eraseDups_append, List.map_singleton]
    generalize xs.map Prod.fst = seen
    by_cases hk : k ∈ seen
    · have hremoved : [k].removeAll seen = [] := by simp [List.removeAll, hk]
      exact (place_of_mem (List.mem_eraseDups.mpr hk)).trans (by simp [hremoved])
    · have hkept : [k].removeAll seen = [k] := by simp [List.removeAll, hk]
      have hnew : k ∉ seen.eraseDups := fun h => hk (List.mem_eraseDups.mp h)
      exact (place_of_not_mem hnew false).trans (by rw [hkept]; rfl)

lemma own_of_at? {path front : List Text} {key k : Text} {own : Bool}
    (h : at? path ⟨front, key, false⟩ = some (k, own)) : own = false := by
  induction path generalizing front with
  | nil => cases front <;> cases h <;> rfl
  | cons p path ih =>
    cases front with
    | nil => cases h
    | cons q front =>
      rw [at?] at h
      split at h
      · exact ih h
      · cases h

/-- Of the mentions inside the table of a key, only the first one may move the key. -/
lemma foldl_place_behind (k : Text) (ks : List Text) (hms : ms ≠ []) :
    ((ms.map (behind k)).filterMap (at? [])).foldl place ks = place ks (k, false) := by
  induction ms generalizing ks with
  | nil => exact absurd rfl hms
  | cons m ms ih =>
    rw [List.map_cons, List.filterMap_cons_some (at?_nil_behind k m), List.foldl_cons]
    by_cases hnil : ms = []
    · subst hnil
      rfl
    · rw [ih _ hnil, place_of_mem (mem_place ks k false)]

lemma foldl_place_behind_of_mem (h : k ∈ ks) (ms : List Mention) :
    ((ms.map (behind k)).filterMap (at? [])).foldl place ks = ks := by
  by_cases hms : ms = []
  · subst hms
    rfl
  · rw [foldl_place_behind k ks hms, place_of_mem h]

lemma filterMap_behind (p k : Text) (path : List Text) (ms : List Mention) :
    (ms.map (behind k)).filterMap (at? (p :: path)) =
      if p = k then ms.filterMap (at? path) else [] := by
  rw [List.filterMap_map]
  split
  · next h =>
    refine List.filterMap_congr fun m _ => ?_
    rw [Function.comp, at?_cons_behind, if_pos h]
  · next h =>
    refine List.filterMap_eq_nil_iff.mpr fun m _ => ?_
    rw [Function.comp, at?_cons_behind, if_neg h]

end Mention

namespace Draft
open Mention

/-- The keys of the table at a path, which has none if it does not exist yet. There is no answer if
the path leads to a value or through an array. -/
def keysAt? : List Text → Entries → Option (List Text)
  | [], entries => some (keys entries)
  | k :: path, entries =>
    match find? k entries with
    | none => some []
    | some (.table _ _ inner) => keysAt? path inner
    | some _ => none

/-- A step of the construction moves the keys of all tables as the given mentions say. -/
def Arranges (ms : List Mention) (entries entries' : Entries) : Prop :=
  ∀ path ks', keysAt? path entries' = some ks' →
    ∃ ks, keysAt? path entries = some ks ∧ ks' = (ms.filterMap (at? path)).foldl place ks

variable {entries entries' entries'' : Entries} {ms ms' : List Mention}

lemma keysAt?_empty (path : List Text) : keysAt? path [] = some [] := by
  cases path <;> rfl

lemma Arranges.refl (entries : Entries) : Arranges [] entries entries :=
  fun _ ks h => ⟨ks, h, rfl⟩

lemma Arranges.trans (h : Arranges ms entries entries') (h' : Arranges ms' entries' entries'') :
    Arranges (ms ++ ms') entries entries'' := by
  intro path ks'' hks''
  obtain ⟨ks', hks', rfl⟩ := h' path ks'' hks''
  obtain ⟨ks, hks, rfl⟩ := h path ks' hks'
  exact ⟨ks, hks, by rw [List.filterMap_append, List.foldl_append]⟩

/-- From nothing, the mentions alone decide. -/
lemma Arranges.keysAt?_eq (h : Arranges ms [] entries) {path : List Text} {ks : List Text}
    (hks : keysAt? path entries = some ks) : ks = Mention.keysAt path ms := by
  obtain ⟨ks₀, hks₀, rfl⟩ := h path ks hks
  rw [keysAt?_empty] at hks₀
  obtain rfl := Option.some.inj hks₀
  rfl

/-- A change that moves keys as mentions inside the table say that it is made to. -/
def Change.Follows (change : Change) (ms : List Mention) : Prop :=
  ∀ origin entries entries', change origin entries = some entries' → Arranges ms entries entries'

lemma keysAt?_cons_congr {p : Text} (h : find? p entries' = find? p entries) (path : List Text) :
    keysAt? (p :: path) entries' = keysAt? (p :: path) entries := by
  rw [keysAt?, keysAt?, h]

lemma keysAt?_of_absent {p : Text} (h : find? p entries = none) (path : List Text) :
    keysAt? (p :: path) entries = some [] := by
  rw [keysAt?, h]

lemma keysAt?_of_table {p : Text} {origin : Origin} {span : Span} {inner : Entries}
    (h : find? p entries = some (.table origin span inner)) (path : List Text) :
    keysAt? (p :: path) entries = keysAt? path inner := by
  rw [keysAt?, h]

lemma keysAt?_of_tables {p : Text} {finished : List (Spanned Value)} {span : Span}
    {inner : Entries} (h : find? p entries = some (.tables finished span inner))
    (path : List Text) : keysAt? (p :: path) entries = none := by
  rw [keysAt?, h]

lemma mem_keys_of_find? {k : Text} {d : Draft} (h : find? k entries = some d) : k ∈ keys entries :=
  mem_keys_iff.mpr ⟨d, mem_of_lookup h⟩

/-- A step that concerns one key: it moves the keys of the table itself, and those of the table
behind the key, as the mentions say, and does not touch the other entries. -/
lemma arranges_of_key {k : Text}
    (here : keys entries' = (ms.filterMap (at? [])).foldl place (keys entries))
    (behind : ∀ path ks', keysAt? (k :: path) entries' = some ks' →
      ∃ ks, keysAt? (k :: path) entries = some ks ∧
        ks' = (ms.filterMap (at? (k :: path))).foldl place ks)
    (others : ∀ p, p ≠ k → find? p entries' = find? p entries ∧
      ∀ path, ms.filterMap (at? (p :: path)) = []) :
    Arranges ms entries entries' := by
  intro path ks' hks'
  cases path with
  | nil =>
    obtain rfl := Option.some.inj hks'
    exact ⟨keys entries, rfl, here⟩
  | cons p path =>
    by_cases hp : p = k
    · subst hp
      exact behind path ks' hks'
    · obtain ⟨hfind, hnone⟩ := others p hp
      rw [keysAt?_cons_congr hfind] at hks'
      exact ⟨ks', hks', by rw [hnone, List.foldl_nil]⟩

/-- A change behind a key moves the keys inside, and the key itself comes last if it is new. -/
lemma Goes.arranges {opened : Origin} {k : Spanned Text} {change : Change}
    (h : Goes opened k change entries entries') (follows : change.Follows ms) (hms : ms ≠ []) :
    Arranges (ms.map (behind k.item)) entries entries' := by
  have hnone (p : Text) (hp : p ≠ k.item) (path : List Text) :
      (ms.map (behind k.item)).filterMap (at? (p :: path)) = [] := by
    rw [filterMap_behind, if_neg hp]
  refine arranges_of_key (k := k.item) ?_ (fun path ks' hks' => ?_) fun p hp => ⟨?_, hnone p hp⟩
  · rw [foldl_place_behind k.item _ hms]
    cases h with
    | opens absent inside =>
      rw [keys_append, keys_singleton, place_of_not_mem (lookup_eq_none_iff.mp absent)]
    | enters found inside => rw [keys_replace, place_of_mem (mem_keys_of_find? found)]
    | entersLast found inside => rw [keys_replace, place_of_mem (mem_keys_of_find? found)]
  · rw [filterMap_behind, if_pos rfl]
    cases h with
    | opens absent inside =>
      rw [keysAt?_of_table (by rw [find?_concat, absent, if_pos rfl]; rfl)] at hks'
      obtain ⟨ks, hks, heq⟩ := follows _ _ _ inside path ks' hks'
      rw [keysAt?_empty] at hks
      exact ⟨ks, (keysAt?_of_absent absent path).trans hks, heq⟩
    | enters found inside =>
      rw [keysAt?_of_table (by rw [find?_replace, if_pos rfl, found]; rfl)] at hks'
      obtain ⟨ks, hks, heq⟩ := follows _ _ _ inside path ks' hks'
      exact ⟨ks, (keysAt?_of_table found path).trans hks, heq⟩
    | entersLast found inside =>
      rw [keysAt?_of_tables (by rw [find?_replace, if_pos rfl, found]; rfl)] at hks'
      cases hks'
  · cases h with
    | opens absent inside => rw [find?_concat, if_neg hp, Option.or_none]
    | enters found inside => rw [find?_replace, if_neg hp]
    | entersLast found inside => rw [find?_replace, if_neg hp]

/-- The mentions behind all keys on a path. -/
def behindAll (path : List (Spanned Text)) (ms : List Mention) : List Mention :=
  path.foldr (fun k ms => ms.map (behind k.item)) ms

lemma behindAll_ne_nil (path : List (Spanned Text)) (hms : ms ≠ []) : behindAll path ms ≠ [] := by
  induction path with
  | nil => exact hms
  | cons k path ih => simpa [behindAll] using ih

lemma along_follows (opened : Origin) (path : List (Spanned Text)) {change : Change}
    (h : change.Follows ms) (hms : ms ≠ []) :
    Change.Follows (along opened path change) (behindAll path ms) := by
  induction path with
  | nil => exact h
  | cons k path ih =>
    intro origin entries entries' hchange
    exact (goes_of_along hchange).arranges ih (behindAll_ne_nil path hms)

lemma behindAll_eq_map (path : List (Spanned Text)) (ms : List Mention) :
    behindAll path ms = ms.map fun m => { m with front := path.map (·.item) ++ m.front } := by
  induction path with
  | nil => simp [behindAll]
  | cons k path ih =>
    rw [behindAll, List.foldr_cons, ← behindAll, ih, List.map_map]
    rfl

/-- What a pair mentions in the table that it is added to. -/
def Pair.mention (p : Pair) : Mention := ⟨p.path.map (·.item), p.key, false⟩

lemma add_arranges {k : Text} {v : Spanned Value} (h : add k v entries = some entries') :
    Arranges [⟨[], k, false⟩] entries entries' := by
  obtain ⟨absent, rfl⟩ := add_eq_some h
  refine arranges_of_key (k := k) ?_ (fun path ks' hks' => ?_) fun p hp => ⟨?_, fun path => rfl⟩
  · rw [keys_append, keys_singleton]
    exact (place_of_not_mem (lookup_eq_none_iff.mp absent) false).symm
  · rw [keysAt?, find?_concat, absent, if_pos rfl] at hks'
    cases hks'
  · rw [find?_concat, if_neg hp, Option.or_none]

lemma insert_arranges {p : Pair} (h : insert entries p = some entries') :
    Arranges [p.mention] entries entries' := by
  have hmention : behindAll p.path [⟨[], p.key, false⟩] = [p.mention] := by
    rw [behindAll_eq_map]
    simp [Pair.mention]
  rw [← hmention]
  refine along_follows .impliedByKey p.path ?_ (by simp) _ _ _ h
  intro origin inner inner' hadd
  dsimp only at hadd
  split at hadd
  · exact add_arranges hadd
  · cases hadd

lemma insertAll_arranges {pairs : List Pair} (h : insertAll entries pairs = some entries') :
    Arranges (pairs.map Pair.mention) entries entries' := by
  refine foldlM_induct (P := fun pairs after => Arranges (pairs.map Pair.mention) entries after)
    (Arranges.refl entries) (fun pairs p before after ih hinsert => ?_) h
  rw [List.map_append]
  exact ih.trans (insert_arranges hinsert)

/-- The key that a pair mentions in the table at a path. -/
def Pair.mentioned? (path : List Text) (p : Pair) : Option Text :=
  (Mention.at? path p.mention).map Prod.fst

/-- In a table of pairs alone, keys stand in the order of their first mention. -/
theorem keysAt?_insertAll {pairs : List Pair} (h : insertAll [] pairs = some entries)
    {path ks : List Text} (hks : keysAt? path entries = some ks) :
    ks = (pairs.filterMap (Pair.mentioned? path)).eraseDups := by
  have hown : ∀ x ∈ (pairs.map Pair.mention).filterMap (at? path), x.2 = false := by
    intro x hx
    obtain ⟨m, hm, hat⟩ := List.mem_filterMap.mp hx
    obtain ⟨p, -, rfl⟩ := List.mem_map.mp hm
    exact own_of_at? hat
  rw [(insertAll_arranges h).keysAt?_eq hks, Mention.keysAt, foldl_place_eq hown,
    List.map_filterMap, List.filterMap_map]
  rfl

/-- What the header of a section and the pairs under it mention in the table with the header's last
key. -/
def openedMentions (s : Section) : List Mention :=
  ⟨[], s.key, s.opening = .table⟩ :: (s.pairs.map Pair.mention).map (behind s.key)

lemma opened_follows (s : Section) : Change.Follows (opened s) (openedMentions s) := by
  intro origin entries entries' hopened
  have opens := opens_of_opened hopened
  have hkey : (openedMentions s).filterMap (at? []) =
      (s.key, decide (s.opening = .table)) ::
        ((s.pairs.map Pair.mention).map (behind s.key)).filterMap (at? []) :=
    List.filterMap_cons_some rfl
  have hothers (p : Text) (path : List Text) : (openedMentions s).filterMap (at? (p :: path)) =
      if p = s.key then (s.pairs.map Pair.mention).filterMap (at? path) else [] :=
    (List.filterMap_cons_none rfl).trans (filterMap_behind p s.key path _)
  refine arranges_of_key (k := s.key) ?_ (fun path ks' hks' => ?_)
    fun p hp => ⟨?_, fun path => by rw [hothers, if_neg hp]⟩
  · rw [hkey, List.foldl_cons, foldl_place_behind_of_mem (mem_place _ _ _)]
    cases opens with
    | newTable opening absent inside =>
      rw [keys_append, keys_singleton, place_of_not_mem (lookup_eq_none_iff.mp absent)]
    | impliedTable opening found inside => simp [opening, place]
    | firstElement opening absent inside =>
      rw [keys_append, keys_singleton, place_of_not_mem (lookup_eq_none_iff.mp absent)]
    | nextElement opening found inside =>
      have hown : decide (s.opening = .table) = false := by simp [opening]
      rw [keys_replace, hown, place_of_mem (mem_keys_of_find? found)]
  · rw [hothers, if_pos rfl]
    cases opens with
    | newTable opening absent inside =>
      rw [keysAt?_of_table (by rw [find?_concat, absent, if_pos rfl]; rfl)] at hks'
      obtain ⟨ks, hks, heq⟩ := insertAll_arranges inside path ks' hks'
      rw [keysAt?_empty] at hks
      exact ⟨ks, (keysAt?_of_absent absent path).trans hks, heq⟩
    | impliedTable opening found inside =>
      have herased : find? s.key (erase s.key entries) = none :=
        lookup_eq_none_iff.mpr (by simp)
      rw [keysAt?_of_table (by rw [find?_concat, herased, if_pos rfl]; rfl)] at hks'
      obtain ⟨ks, hks, heq⟩ := insertAll_arranges inside path ks' hks'
      exact ⟨ks, (keysAt?_of_table found path).trans hks, heq⟩
    | firstElement opening absent inside =>
      rw [keysAt?_of_tables (by rw [find?_concat, absent, if_pos rfl]; rfl)] at hks'
      cases hks'
    | nextElement opening found inside =>
      rw [keysAt?_of_tables (by rw [find?_replace, if_pos rfl, found]; rfl)] at hks'
      cases hks'
  · cases opens with
    | newTable opening absent inside => rw [find?_concat, if_neg hp, Option.or_none]
    | impliedTable opening found inside =>
      rw [find?_concat, if_neg hp, Option.or_none, find?_erase hp]
    | firstElement opening absent inside => rw [find?_concat, if_neg hp, Option.or_none]
    | nextElement opening found inside => rw [find?_replace, if_neg hp]

end Draft

/-- What a section mentions in the document. -/
def Section.mentions (s : Section) : List Mention :=
  ⟨s.path.map (·.item), s.key, s.opening = .table⟩ ::
    s.pairs.map fun p =>
      ⟨s.path.map (·.item) ++ s.key :: p.path.map (·.item), p.key, false⟩

/-- What a document mentions, in order. -/
def mentions (pairs : List Draft.Pair) (sections : List Section) : List Mention :=
  pairs.map Draft.Pair.mention ++ sections.flatMap Section.mentions

namespace Draft

/-- The table of a document, still under construction. -/
def ofSections (pairs : List Pair) (sections : List Section) : Option Entries :=
  insertAll [] pairs >>= fun top => sections.foldlM insertSection top

lemma insertSection_arranges {entries entries' : Entries} {s : Section}
    (h : insertSection entries s = some entries') : Arranges s.mentions entries entries' := by
  have hmentions : behindAll s.path (openedMentions s) = s.mentions := by
    rw [behindAll_eq_map, openedMentions, Section.mentions, List.map_cons, List.map_map,
      List.map_map, List.append_nil]
    rfl
  rw [← hmentions]
  exact along_follows .impliedByHeader s.path (opened_follows s) (by simp [openedMentions]) _ _ _ h

/-- The keys of each table that headers and dotted keys make stand in the order to which the mentions
in the document lead. -/
theorem keysAt?_ofSections {pairs : List Pair} {sections : List Section} {entries : Entries}
    (h : ofSections pairs sections = some entries) {path ks : List Text}
    (hks : keysAt? path entries = some ks) : ks = Mention.keysAt path (mentions pairs sections) := by
  obtain ⟨top, htop, hsections⟩ := Option.bind_eq_some_iff.mp h
  refine Arranges.keysAt?_eq ((insertAll_arranges htop).trans ?_) hks
  refine foldlM_induct
    (P := fun sections after => Arranges (sections.flatMap Section.mentions) top after)
    (Arranges.refl top) (fun sections s before after ih hinsert => ?_) hsections
  rw [List.flatMap_append, List.flatMap_singleton]
  exact ih.trans (insertSection_arranges hinsert)

end Draft

/-- In a value as it is read, the tables that are written in a line list their keys in the order in
which their pairs mention them first. -/
inductive Value.InOrder : Value → Prop
  | string (t : Text) : InOrder (.string t)
  | integer (n : Int) : InOrder (.integer n)
  | float (x : Binary64) : InOrder (.float x)
  | boolean (b : Bool) : InOrder (.boolean b)
  | moment : InOrder .moment
  | array {items : List (Spanned Value)} (inside : ∀ v ∈ items, v.item.InOrder) :
      InOrder (.array items)
  | table {value : Reader (Spanned Value)} {before after : Cursor} {pairs : List Draft.Pair}
      {entries : Draft.Entries} (read : Reader.inlinePairs value before = some (pairs, after))
      (made : Draft.insertAll [] pairs = some entries)
      (order : ∀ path ks, Draft.keysAt? path entries = some ks →
        ks = (pairs.filterMap (Draft.Pair.mentioned? path)).eraseDups)
      (inside : ∀ p ∈ pairs, p.value.item.InOrder) : InOrder (.table (Draft.finishAll entries))

lemma Value.inOrder_established : Reader.Establishes InOrder where
  string := .string
  integer := .integer
  float := .float
  boolean := .boolean
  moment := .moment
  array _ inside := .array inside
  table _ _ _ _ _ read inside made :=
    .table read made (fun _ _ hks => Draft.keysAt?_insertAll made hks) inside

lemma Table.ofSections_eq (pairs : List Draft.Pair) (sections : List Section) :
    Table.ofSections pairs sections = (Draft.ofSections pairs sections).map Draft.finishAll := by
  unfold Table.ofSections Draft.ofSections
  cases Draft.insertAll [] pairs with
  | none => rfl
  | some top =>
    change (sections.foldlM Draft.insertSection top).bind (some ∘ Draft.finishAll) =
      (sections.foldlM Draft.insertSection top).map Draft.finishAll
    cases sections.foldlM Draft.insertSection top <;> rfl

end LogSweep.Toml
