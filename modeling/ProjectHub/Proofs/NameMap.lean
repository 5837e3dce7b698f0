import Mathlib.Data.List.Nodup
import ProjectHub.NameMap.Lemmas

/-!
# Maps built from lists of entries

A map made by binding the entries of a list one after the other answers with
the last entry of a name. Unions, maps of lists and the names of two maps
together are all made that way, so their laws follow from one lemma.
-/

namespace ProjectHub

namespace NameMap

variable {α : Type u} {β : Type v}

theorem mem_toList_iff {m : NameMap α} {key : String} {value : α} :
    (key, value) ∈ m.toList ↔ m.get? key = some value :=
  get?_eq_some_iff.symm

theorem mem_values_iff {m : NameMap α} {value : α} :
    value ∈ m.values ↔ ∃ key, m.get? key = some value := by
  constructor
  · intro h
    obtain ⟨⟨key, _⟩, he, rfl⟩ := List.mem_map.1 h
    exact ⟨key, get?_of_mem_entries he⟩
  · rintro ⟨key, h⟩
    exact List.mem_map.2 ⟨_, mem_entries_of_get? h, rfl⟩

/-- Values that are stored under names of their own list these names. -/
theorem map_values {m : NameMap α} {nameOf : α → String}
    (h : ∀ {key value}, m.get? key = some value → nameOf value = key) :
    m.values.map nameOf = m.keys := by
  rw [values, keys, List.map_map]
  exact List.map_congr_left fun entry hentry => h (get?_of_mem_entries hentry)

/-- What holds of all entries holds of all that is bound. -/
theorem forall_get?_iff {m : NameMap α} {p : String → α → Prop} :
    (∀ key value, m.get? key = some value → p key value) ↔
      ∀ entry ∈ m.entries, p entry.1 entry.2 := by
  constructor
  · exact fun h entry hentry => h entry.1 entry.2 (get?_of_mem_entries hentry)
  · exact fun h key value hget => h (key, value) (mem_entries_of_get? hget)

/-- Binding entries one after the other: the last entry of a name counts, and where there is
none, what was bound before. -/
theorem get?_foldl_insert (entries : List (String × α)) (m : NameMap α) (key : String) :
    (entries.foldl (fun m entry => m.insert entry.1 entry.2) m).get? key =
      ((entries.reverse.find? fun entry => entry.1 = key).map Prod.snd).or (m.get? key) := by
  induction entries generalizing m with
  | nil => rfl
  | cons entry rest ih =>
      rw [List.foldl_cons, ih, get?_insert, List.reverse_cons, List.find?_append]
      cases rest.reverse.find? fun entry => entry.1 = key with
      | some found => rfl
      | none => by_cases h : entry.1 = key <;> simp [h]

theorem get?_ofList (entries : List (String × α)) (key : String) :
    (ofList entries).get? key =
      (entries.reverse.find? fun entry => entry.1 = key).map Prod.snd := by
  unfold ofList
  rw [get?_foldl_insert, get?_empty, Option.or_none]

/-- In a list that names each key once, every entry counts. -/
theorem get?_ofList_of_nodup {entries : List (String × α)} (h : (entries.map Prod.fst).Nodup)
    {key : String} {value : α} :
    (ofList entries).get? key = some value ↔ (key, value) ∈ entries := by
  rw [get?_ofList]
  constructor
  · intro hf
    obtain ⟨entry, found, rfl⟩ := Option.map_eq_some_iff.1 hf
    have name : entry.1 = key := by simpa using List.find?_some found
    exact name ▸ List.mem_reverse.1 (List.mem_of_find?_eq_some found)
  · intro hm
    cases found : entries.reverse.find? fun entry => decide (entry.1 = key) with
    | none => simpa using List.find?_eq_none.1 found (key, value) (List.mem_reverse.2 hm)
    | some entry =>
        have name : entry.1 = key := by simpa using List.find?_some found
        have member := List.mem_reverse.1 (List.mem_of_find?_eq_some found)
        have same := List.inj_on_of_nodup_map h member hm name
        simp [same]

theorem ofList_entries (m : NameMap α) : ofList m.entries = m := by
  apply ext_get?
  intro key
  apply Option.ext
  intro value
  rw [get?_ofList_of_nodup m.keys_nodup, get?_eq_some_iff]

section Fold

variable {σ γ ε : Type} {f : σ → β → Except ε σ} (put : NameMap α → σ)
  {shape : β → γ} {shapeOf : α → γ} {bs : List β}

theorem foldlM_insert {entries : List (String × α)}
    (hstep : ∀ entry ∈ entries, ∀ {b bound}, shape b = shapeOf entry.2 →
      bound.contains entry.1 = false → f (put bound) b = .ok (put (bound.insert entry.1 entry.2)))
    (hbs : bs.map shape = entries.map fun entry => shapeOf entry.2)
    (hdistinct : (entries.map Prod.fst).Nodup) {bound : NameMap α}
    (hfree : ∀ entry ∈ entries, bound.contains entry.1 = false) :
    bs.foldlM f (put bound) =
      .ok (put (entries.foldl (fun m entry => m.insert entry.1 entry.2) bound)) := by
  induction entries generalizing bs bound with
  | nil =>
      rw [List.map_eq_nil_iff.mp hbs]
      rfl
  | cons entry entries ih =>
      obtain ⟨b, rest, rfl, hb, hrest⟩ := List.map_eq_cons_iff.mp hbs
      obtain ⟨hfresh, hdistinct⟩ := List.nodup_cons.mp hdistinct
      rw [List.foldlM_cons, hstep entry List.mem_cons_self hb (hfree entry List.mem_cons_self)]
      refine ih (fun other hother => hstep other (List.mem_cons_of_mem _ hother)) hrest hdistinct ?_
      -- a name comes once, so it is free when its turn comes
      intro other hother
      have hne : entry.1 ≠ other.1 := by
        intro same
        exact hfresh (same ▸ List.mem_map_of_mem hother)
      rw [contains, get?_insert_of_ne _ _ hne]
      exact hfree other (List.mem_cons_of_mem _ hother)

/-- A fold that binds the values of a map one after the other, each to a name not bound before,
makes the map. The map stands in a state of the fold where `put` puts it. -/
theorem foldlM_values {m : NameMap α}
    (hstep : ∀ {key value b bound}, m.get? key = some value → shape b = shapeOf value →
      bound.contains key = false → f (put bound) b = .ok (put (bound.insert key value)))
    (hbs : bs.map shape = m.values.map shapeOf) : bs.foldlM f (put .empty) = .ok (put m) := by
  have hmade : bs.foldlM f (put .empty) = .ok (put (ofList m.entries)) :=
    foldlM_insert put (fun entry hentry => hstep (get?_of_mem_entries hentry))
      (hbs.trans (List.map_map ..)) m.keys_nodup (fun _ _ => rfl)
  rw [hmade, ofList_entries]

end Fold

theorem get?_union (a b : NameMap α) (key : String) :
    (a.union b).get? key = (b.get? key).or (a.get? key) := by
  unfold union
  rw [get?_foldl_insert, ← get?_ofList, ofList_entries]

theorem get?_filter (p : String → α → Bool) (m : NameMap α) (key : String) :
    (m.filter p).get? key = (m.get? key).filter (p key) := by
  apply Option.ext
  intro value
  rw [get?_eq_some_iff, Option.filter_eq_some_iff, get?_eq_some_iff]
  simp [filter]

@[simp] theorem filter_true (m : NameMap α) : (m.filter fun _ _ => true) = m := by
  apply ext_get?
  intro key
  rw [get?_filter]
  cases m.get? key <;> rfl

/-- Binding a name to what it is bound to changes nothing. -/
theorem insert_of_get? {m : NameMap α} {key : String} {value : α} (h : m.get? key = some value) :
    m.insert key value = m := by
  apply ext_get?
  intro name
  rw [get?_insert]
  split
  · rename_i same
    rw [← same, h]
  · rfl

/-- Of two bindings of one name the later counts. -/
theorem insert_insert (m : NameMap α) (key : String) (first second : α) :
    (m.insert key first).insert key second = m.insert key second := by
  apply ext_get?
  intro name
  simp only [get?_insert]
  split <;> rfl

theorem mem_keys_iff_isSome {m : NameMap α} {key : String} :
    key ∈ m.keys ↔ (m.get? key).isSome :=
  mem_keys_iff

theorem mem_allKeys_iff {a : NameMap α} {b : NameMap β} {key : String} :
    key ∈ a.allKeys b ↔ (a.get? key).isSome ∨ (b.get? key).isSome := by
  unfold allKeys
  rw [mem_keys_iff_isSome, get?_union, get?_map, get?_map]
  cases a.get? key <;> cases b.get? key <;> simp

theorem allKeys_nodup (a : NameMap α) (b : NameMap β) : (a.allKeys b).Nodup :=
  keys_nodup _

end NameMap

end ProjectHub
