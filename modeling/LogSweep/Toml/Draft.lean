import LogSweep.Toml.Value

/-! Tables under construction. A table can be opened by a header, implied by the header of a table
inside it, or implied by a dotted key, and this decides what may still be added to it. -/
namespace LogSweep.Toml

/-- How a table was opened. -/
inductive Origin where
  | header
  | impliedByHeader
  | impliedByKey
  deriving DecidableEq, Repr

/-- An entry of a table under construction. Of an array of tables only the last one is open, and
the finished ones are kept from the last to the first. -/
inductive Draft where
  | value (v : Spanned Value)
  | table (origin : Origin) (span : Span) (entries : List (Text × Draft))
  | tables (finished : List (Spanned Value)) (span : Span) (entries : List (Text × Draft))

namespace Draft

abbrev Entries := List (Text × Draft)

mutual

/-- The finished value of an entry. An array of tables spans from its first to its last one. -/
def finish : Draft → Spanned Value
  | .value v => v
  | .table _ span entries => ⟨span, .table (finishAll entries)⟩
  | .tables finished span entries =>
    let first := (finished.getLast?.map (·.span.start)).getD span.start
    ⟨⟨first, span.stop⟩, .array (⟨span, .table (finishAll entries)⟩ :: finished).reverse⟩

def finishAll : List (Text × Draft) → Table
  | [] => []
  | (k, d) :: rest => (k, d.finish) :: finishAll rest

end

def find? (key : Text) (entries : Entries) : Option Draft := entries.lookup key

/-- The entries with another one for a key that they have, in its place. -/
def replace (key : Text) (d : Draft) (entries : Entries) : Entries :=
  entries.map fun e => if e.1 = key then (key, d) else e

def erase (key : Text) (entries : Entries) : Entries := entries.filter (·.1 ≠ key)

/-- A change to a table under construction, which may depend on how the table was opened. -/
abbrev Change := Origin → Entries → Option Entries

/-- The change made to the table at the end of a path. Tables that are missing on the way are
opened with the given origin. A path leads through the last one of an array of tables, and a key
does not lead into a table with a header. -/
def along (opened : Origin) : List (Spanned Text) → Change → Change
  | [], change => change
  | k :: path, change => fun _ entries =>
    match find? k.item entries with
    | none => do
      let inner ← along opened path change opened []
      return entries ++ [(k.item, .table opened k.span inner)]
    | some (.table origin span inner) =>
      if opened = .impliedByKey ∧ origin = .header then none
      else do
        let inner ← along opened path change origin inner
        return replace k.item (.table origin span inner) entries
    | some (.tables finished span inner) => do
      let inner ← along opened path change .header inner
      return replace k.item (.tables finished span inner) entries
    | some (.value _) => none

def add (key : Text) (v : Spanned Value) (entries : Entries) : Option Entries :=
  if (find? key entries).isSome then none else some (entries ++ [(key, .value v)])

/-- A key, its path given apart, with its value. -/
structure Pair where
  path : List (Spanned Text)
  key : Text
  value : Spanned Value

/-- The entries with one more pair. Only tables that dotted keys opened take dotted keys. -/
def insert (entries : Entries) (p : Pair) : Option Entries :=
  along .impliedByKey p.path
    (fun origin inner =>
      if p.path.isEmpty || origin = .impliedByKey then add p.key p.value inner else none)
    .header entries

def insertAll (entries : Entries) (pairs : List Pair) : Option Entries :=
  pairs.foldlM insert entries

end Draft

/-- What a header opens. -/
inductive Opening where
  | table
  | element
  deriving DecidableEq, Repr

/-- A header with the pairs under it. -/
structure Section where
  opening : Opening
  path : List (Spanned Text)
  key : Text
  /-- From the header to the end of the last value under it. -/
  span : Span
  pairs : List Draft.Pair

namespace Draft

/-- The change that opens a table or one more element of an array of tables. A table that other
headers have implied is completed and comes last. -/
def opened (s : Section) : Change := fun _ entries =>
  match s.opening, find? s.key entries with
  | .table, none => do
    return entries ++ [(s.key, .table .header s.span (← insertAll [] s.pairs))]
  | .table, some (.table .impliedByHeader _ inner) => do
    return erase s.key entries ++ [(s.key, .table .header s.span (← insertAll inner s.pairs))]
  | .element, none => do
    return entries ++ [(s.key, .tables [] s.span (← insertAll [] s.pairs))]
  | .element, some (.tables finished span inner) => do
    let last : Spanned Value := ⟨span, .table (finishAll inner)⟩
    let d := .tables (last :: finished) s.span (← insertAll [] s.pairs)
    return replace s.key d entries
  | _, _ => none

def insertSection (entries : Entries) (s : Section) : Option Entries :=
  along .impliedByHeader s.path (opened s) .header entries

end Draft

/-- The table of a document: its first pairs and then its sections. -/
def Table.ofSections (pairs : List Draft.Pair) (sections : List Section) : Option Table := do
  let top ← Draft.insertAll [] pairs
  return Draft.finishAll (← sections.foldlM Draft.insertSection top)

end LogSweep.Toml
