/-!
# Maps keyed by names

A finite map from strings, kept as its entries in strictly ascending order of
the keys. The order is that of code points, so the keys list in the order every
answer shows them, and two maps with the same look-ups are equal.
-/

namespace ProjectHub

/-- A finite map from strings, its entries in strictly ascending key order. -/
structure NameMap (α : Type u) where
  /-- The entries, smallest key first. -/
  entries : List (String × α)
  /-- Each key is below every later one. -/
  ordered : entries.Pairwise fun a b => a.1 < b.1
  deriving DecidableEq

namespace NameMap

variable {α : Type u} {β : Type v}

/-- The map without entries. -/
def empty : NameMap α := ⟨[], .nil⟩

instance : EmptyCollection (NameMap α) := ⟨empty⟩

instance : Inhabited (NameMap α) := ⟨empty⟩

/-- The entry list with `key` bound to `value`, in its place. -/
def insertEntry (key : String) (value : α) : List (String × α) → List (String × α)
  | [] => [(key, value)]
  | entry :: rest =>
    if key < entry.1 then (key, value) :: entry :: rest
    else if entry.1 < key then entry :: insertEntry key value rest
    else (key, value) :: rest

theorem mem_insertEntry {key : String} {value : α} {entry : String × α} :
    ∀ {entries : List (String × α)}, entry ∈ insertEntry key value entries →
      entry = (key, value) ∨ entry ∈ entries
  | [], h => by simpa [insertEntry] using h
  | head :: rest, h => by
    unfold insertEntry at h
    split at h
    · simpa using h
    · split at h
      · rcases List.mem_cons.1 h with h | h
        · exact .inr (h ▸ List.mem_cons_self)
        · exact (mem_insertEntry h).imp_right (List.mem_cons_of_mem head)
      · rcases List.mem_cons.1 h with h | h
        · exact .inl h
        · exact .inr (List.mem_cons_of_mem head h)

theorem pairwise_insertEntry (key : String) (value : α) :
    ∀ {entries : List (String × α)}, entries.Pairwise (fun a b => a.1 < b.1) →
      (insertEntry key value entries).Pairwise fun a b => a.1 < b.1
  | [], _ => by simp [insertEntry]
  | head :: rest, h => by
    have above := (List.pairwise_cons.1 h).1
    have tail := (List.pairwise_cons.1 h).2
    unfold insertEntry
    split
    · rename_i below
      refine List.pairwise_cons.2 ⟨fun entry member => ?_, h⟩
      rcases List.mem_cons.1 member with rfl | member
      · exact below
      · exact String.lt_trans below (above entry member)
    · split
      · rename_i below
        refine List.pairwise_cons.2 ⟨fun entry member => ?_, pairwise_insertEntry key value tail⟩
        rcases mem_insertEntry member with rfl | member
        · exact below
        · exact above entry member
      · rename_i notBelow notAbove
        have same : head.1 = key := String.le_antisymm notBelow notAbove
        exact List.pairwise_cons.2 ⟨fun entry member => same ▸ above entry member, tail⟩

/-- The map with `key` bound to `value`, whatever it was bound to before. -/
def insert (m : NameMap α) (key : String) (value : α) : NameMap α :=
  ⟨insertEntry key value m.entries, pairwise_insertEntry key value m.ordered⟩

/-- The map without an entry for `key`. -/
def erase (m : NameMap α) (key : String) : NameMap α :=
  ⟨m.entries.filter fun entry => entry.1 ≠ key, m.ordered.filter _⟩

/-- The value `key` is bound to. -/
def get? (m : NameMap α) (key : String) : Option α :=
  (m.entries.find? fun entry => entry.1 = key).map Prod.snd

/-- Whether `key` is bound. -/
def contains (m : NameMap α) (key : String) : Bool :=
  (m.get? key).isSome

/-- The bound names, ascending. -/
def keys (m : NameMap α) : List String :=
  m.entries.map Prod.fst

/-- The values, in the order of their names. -/
def values (m : NameMap α) : List α :=
  m.entries.map Prod.snd

/-- The entries, smallest key first. -/
def toList (m : NameMap α) : List (String × α) :=
  m.entries

/-- Whether nothing is bound. -/
def isEmpty (m : NameMap α) : Bool :=
  m.entries.isEmpty

/-- The number of bound names. -/
def size (m : NameMap α) : Nat :=
  m.entries.length

/-- The map of the entries of a list; of two entries with one key the later counts. -/
def ofList (entries : List (String × α)) : NameMap α :=
  entries.foldl (fun m entry => m.insert entry.1 entry.2) empty

/-- The entries of `a` and of `b`; where both bind a name, `b` counts. -/
def union (a b : NameMap α) : NameMap α :=
  b.entries.foldl (fun m entry => m.insert entry.1 entry.2) a

/-- The map with each value replaced by its image. -/
def map (f : α → β) (m : NameMap α) : NameMap β :=
  ⟨m.entries.map fun entry => (entry.1, f entry.2),
    List.pairwise_map.2 (m.ordered.imp fun h => h)⟩

/-- The entries whose name and value pass the test. -/
def filter (p : String → α → Bool) (m : NameMap α) : NameMap α :=
  ⟨m.entries.filter fun entry => p entry.1 entry.2, m.ordered.filter _⟩

/-- The names bound in either map, ascending and without repetition. -/
def allKeys (a : NameMap α) (b : NameMap β) : List String :=
  ((a.map fun _ => ()).union (b.map fun _ => ())).keys

end NameMap

end ProjectHub
