import ProjectHub.NameMap.Basic

/-!
# Laws of maps keyed by names

A look-up sees the last binding of its name: `get?_insert` and `get?_erase`
say so for one step. Two maps that answer every look-up alike are equal
(`ext_get?`), so a map is determined by what it binds.
-/

namespace ProjectHub

namespace NameMap

variable {α : Type u} {β : Type v}

theorem keys_pairwise (m : NameMap α) : m.keys.Pairwise (· < ·) :=
  List.pairwise_map.2 m.ordered

theorem keys_nodup (m : NameMap α) : m.keys.Nodup := by
  refine m.keys_pairwise.imp fun below same => ?_
  subst same
  exact String.lt_irrefl _ below

@[simp] theorem get?_empty (key : String) : (empty : NameMap α).get? key = none := rfl

/-- A look-up answers with the value of an entry of that name. -/
theorem mem_entries_of_get? {m : NameMap α} {key : String} {value : α}
    (h : m.get? key = some value) : (key, value) ∈ m.entries := by
  obtain ⟨entry, found, rfl⟩ := Option.map_eq_some_iff.1 h
  have name : entry.1 = key := by simpa using List.find?_some found
  exact name ▸ List.mem_of_find?_eq_some found

private theorem eq_of_mem {entries : List (String × α)} {a b : String × α}
    (ordered : entries.Pairwise fun a b => a.1 < b.1) (ha : a ∈ entries) (hb : b ∈ entries)
    (name : a.1 = b.1) : a = b := by
  induction entries with
  | nil => cases ha
  | cons head rest ih =>
    have ⟨above, tail⟩ := List.pairwise_cons.1 ordered
    rcases List.mem_cons.1 ha with eqA | inA <;> rcases List.mem_cons.1 hb with eqB | inB
    · rw [eqA, eqB]
    · exact absurd (name ▸ eqA ▸ above b inB) (String.lt_irrefl _)
    · exact absurd (name ▸ eqB ▸ above a inA) (String.lt_irrefl _)
    · exact ih tail inA inB

theorem get?_of_mem_entries {m : NameMap α} {key : String} {value : α}
    (h : (key, value) ∈ m.entries) : m.get? key = some value := by
  unfold get?
  cases found : m.entries.find? fun entry => decide (entry.1 = key) with
  | none => simpa using List.find?_eq_none.1 found _ h
  | some entry =>
    have name : entry.1 = key := by simpa using List.find?_some found
    have same := eq_of_mem m.ordered (List.mem_of_find?_eq_some found) h name
    simp [same]

theorem get?_eq_some_iff {m : NameMap α} {key : String} {value : α} :
    m.get? key = some value ↔ (key, value) ∈ m.entries :=
  ⟨mem_entries_of_get?, get?_of_mem_entries⟩

private theorem find?_insertEntry (key : String) (value : α) (name : String) :
    ∀ entries : List (String × α),
      (insertEntry key value entries).find? (fun entry => entry.1 = name) =
        if key = name then some (key, value) else entries.find? fun entry => entry.1 = name
  | [] => by by_cases h : key = name <;> simp [insertEntry, h]
  | head :: rest => by
    unfold insertEntry
    split
    · by_cases h : key = name <;> simp [h]
    · split
      · rename_i below
        have ih := find?_insertEntry key value name rest
        by_cases h : head.1 = name
        · have other : key ≠ name := by
            intro same
            rw [h, same] at below
            exact String.lt_irrefl _ below
          simp [h, other]
        · simp [h, ih]
      · rename_i notBelow notAbove
        have same : head.1 = key := String.le_antisymm notBelow notAbove
        by_cases h : key = name <;> simp [h, same]

theorem get?_insert (m : NameMap α) (key : String) (value : α) (name : String) :
    (m.insert key value).get? name = if key = name then some value else m.get? name := by
  unfold get? insert
  rw [find?_insertEntry]
  split <;> rfl

@[simp] theorem get?_insert_self (m : NameMap α) (key : String) (value : α) :
    (m.insert key value).get? key = some value := by
  simp [get?_insert]

theorem get?_insert_of_ne (m : NameMap α) {key name : String} (value : α) (h : key ≠ name) :
    (m.insert key value).get? name = m.get? name := by
  simp [get?_insert, h]

theorem get?_erase (m : NameMap α) (key name : String) :
    (m.erase key).get? name = if key = name then none else m.get? name := by
  unfold get? erase
  rw [List.find?_filter]
  by_cases h : key = name
  · subst h
    simp
  · rw [if_neg h]
    congr 2
    funext entry
    by_cases same : entry.1 = name
    · simp [same, Ne.symm h]
    · simp [same]

@[simp] theorem get?_erase_self (m : NameMap α) (key : String) :
    (m.erase key).get? key = none := by
  simp [get?_erase]

theorem get?_map (f : α → β) (m : NameMap α) (key : String) :
    (m.map f).get? key = (m.get? key).map f := by
  unfold get? map
  simp only [List.find?_map, Option.map_map]
  rfl

theorem mem_keys_iff {m : NameMap α} {key : String} : key ∈ m.keys ↔ m.contains key = true := by
  constructor
  · intro h
    obtain ⟨entry, member, rfl⟩ := List.mem_map.1 h
    have found : m.get? entry.1 = some entry.2 := get?_of_mem_entries member
    simp [contains, found]
  · intro h
    obtain ⟨value, h⟩ := Option.isSome_iff_exists.1 h
    exact List.mem_map.2 ⟨_, mem_entries_of_get? h, rfl⟩

private theorem entries_ext {a b : List (String × α)}
    (ha : a.Pairwise fun x y => x.1 < y.1) (hb : b.Pairwise fun x y => x.1 < y.1)
    (h : ∀ entry, entry ∈ a ↔ entry ∈ b) : a = b := by
  induction a generalizing b with
  | nil =>
    cases b with
    | nil => rfl
    | cons y ys => exact absurd ((h y).2 List.mem_cons_self) (by simp)
  | cons x xs ih =>
    cases b with
    | nil => exact absurd ((h x).1 List.mem_cons_self) (by simp)
    | cons y ys =>
      have ⟨aboveX, tailX⟩ := List.pairwise_cons.1 ha
      have ⟨aboveY, tailY⟩ := List.pairwise_cons.1 hb
      have same : x = y := by
        rcases List.mem_cons.1 ((h x).1 List.mem_cons_self) with eq | inY
        · exact eq
        · rcases List.mem_cons.1 ((h y).2 List.mem_cons_self) with eq | inX
          · exact eq.symm
          · exact absurd (String.lt_trans (aboveX y inX) (aboveY x inY)) (String.lt_irrefl _)
      subst same
      congr 1
      refine ih tailX tailY fun entry => ⟨fun member => ?_, fun member => ?_⟩
      · rcases List.mem_cons.1 ((h entry).1 (List.mem_cons_of_mem _ member)) with rfl | inY
        · exact absurd (aboveX _ member) (String.lt_irrefl _)
        · exact inY
      · rcases List.mem_cons.1 ((h entry).2 (List.mem_cons_of_mem _ member)) with rfl | inX
        · exact absurd (aboveY _ member) (String.lt_irrefl _)
        · exact inX

/-- Maps that answer every look-up alike are equal. -/
theorem ext_get? {a b : NameMap α} (h : ∀ key, a.get? key = b.get? key) : a = b := by
  have entries : a.entries = b.entries := by
    refine entries_ext a.ordered b.ordered fun entry => ?_
    obtain ⟨key, value⟩ := entry
    rw [← get?_eq_some_iff, ← get?_eq_some_iff, h]
  cases a
  cases b
  cases entries
  rfl

end NameMap

end ProjectHub

/-!
## Maps keyed by two names

A map from a first name to maps from a second one, used where each project has
names of its own. What is done under one first name leaves all others alone.
-/

namespace ProjectHub

namespace NameMap

variable {α : Type u}

/-- The map under a first name; empty where there is none. -/
def under (m : NameMap (NameMap α)) (first : String) : NameMap α :=
  (m.get? first).getD .empty

/-- The value under both names. -/
def getAt? (m : NameMap (NameMap α)) (first second : String) : Option α :=
  (m.under first).get? second

/-- The map with a value under both names. -/
def insertAt (m : NameMap (NameMap α)) (first second : String) (value : α) :
    NameMap (NameMap α) :=
  m.insert first ((m.under first).insert second value)

/-- The map without a value under both names. -/
def eraseAt (m : NameMap (NameMap α)) (first second : String) : NameMap (NameMap α) :=
  m.insert first ((m.under first).erase second)

theorem under_insert (m : NameMap (NameMap α)) (first : String) (inner : NameMap α)
    (other : String) :
    (m.insert first inner).under other = if first = other then inner else m.under other := by
  unfold under
  rw [get?_insert]
  split <;> rfl

theorem getAt?_insertAt (m : NameMap (NameMap α)) (first second : String) (value : α)
    (a b : String) :
    (m.insertAt first second value).getAt? a b =
      if first = a ∧ second = b then some value else m.getAt? a b := by
  unfold getAt? insertAt
  rw [under_insert]
  by_cases ha : first = a
  · subst ha
    simp [get?_insert]
  · simp [ha]

theorem getAt?_eraseAt (m : NameMap (NameMap α)) (first second a b : String) :
    (m.eraseAt first second).getAt? a b =
      if first = a ∧ second = b then none else m.getAt? a b := by
  unfold getAt? eraseAt
  rw [under_insert]
  by_cases ha : first = a
  · subst ha
    simp [get?_erase]
  · simp [ha]

end NameMap

end ProjectHub
