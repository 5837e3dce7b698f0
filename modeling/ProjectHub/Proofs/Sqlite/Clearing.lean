import ProjectHub.Proofs.Sqlite.Taking

/-!
# Names that move between tables

The statements of a difference go through the tables in the order of their
names. A name that moves from a table to an earlier one is taken before it is
free. The statements take only free names just if no name moves that way and
nothing has the name under which a table is rebuilt.
-/

namespace ProjectHub

open Sqlite
open Sql (Statement)
open Sql.Statement (takeFree)

namespace Realm

/-- The holders of the names of a realm. -/
def holders (r : Realm) : List Holder :=
  r.tables.values.flatMap Table.holders

/-- No two tables or indexes have one name in any case. -/
def HasDistinctNames (r : Realm) : Prop :=
  (r.holders.map fun h => Text.lowerAscii h.name).Nodup

instance (r : Realm) : Decidable r.HasDistinctNames :=
  inferInstanceAs (Decidable (List.Nodup _))

section Holders

variable {r : Realm} {h : Holder}

theorem mem_holders_iff (hr : r.WellFormed) :
    h ∈ r.holders ↔ ∃ t, r.tables.get? h.home = some t ∧ h ∈ t.holders := by
  simp only [holders, List.mem_flatMap, NameMap.mem_values_iff]
  constructor
  · rintro ⟨t, ⟨key, ht⟩, hh⟩
    rw [Table.home_of_mem_holders hh, hr.ownName ht]
    exact ⟨t, ht, hh⟩
  · rintro ⟨t, ht, hh⟩
    exact ⟨t, ⟨h.home, ht⟩, hh⟩

theorem housed_holders (r : Realm) : ∀ a ∈ r.holders, Holder.table a.home ∈ r.holders := by
  intro a ha
  obtain ⟨t, ht, ha⟩ := List.mem_flatMap.mp ha
  refine List.mem_flatMap.mpr ⟨t, ht, ?_⟩
  rw [Table.home_of_mem_holders ha]
  exact t.table_mem_holders

theorem tidy_holders (hr : r.HasDistinctNames) : Tidy r.holders where
  distinct := by
    intro a ha b hb hsame
    exact List.inj_on_of_nodup_map hr ha hb (sameName_iff.mp hsame)
  housed := r.housed_holders

theorem nodup_holders (hr : r.HasDistinctNames) {t : Table} (ht : t ∈ r.tables.values) :
    (t.holders.map fun h => Text.lowerAscii h.name).Nodup := by
  unfold HasDistinctNames holders at hr
  rw [List.map_flatMap] at hr
  exact (List.nodup_flatMap.mp hr).1 t ht

end Holders

/-! ## The statements for a realm -/

/-- Whether the difference of two realms builds a table anew. -/
def rebuilds (current desired : Realm) (name : String) : Bool :=
  match current.tables.get? name, desired.tables.get? name with
  | some before, some after => Table.isRebuilt before after
  | _, _ => false

/-- Whether the names taken for a table are free when its turn comes: no later table, nor an index
on one, has them, and a rebuild finds its temporary name free. -/
structure ClearsAt (current desired : Realm) (name : String) : Prop where
  names : ∀ wanted ∈ desired.holders, wanted.home = name → ∀ held ∈ current.holders,
    name < held.home → sameName held.name wanted.name = false
  later : current.rebuilds desired name = true → ∀ held ∈ current.holders, name ≤ held.home →
    sameName held.name (Statement.rebuildName name) = false
  earlier : current.rebuilds desired name = true → ∀ wanted ∈ desired.holders, wanted.home < name →
    sameName wanted.name (Statement.rebuildName name) = false

section Turn

variable {current desired : Realm} (hcurrent : current.WellFormed) (hdesired : desired.WellFormed)
  (hwanted : desired.HasDistinctNames) {name : String} {todo : List String} {held : List Holder}

theorem mem_holders_at {r : Realm} (hr : r.WellFormed) {t : Table}
    (ht : r.tables.get? name = some t) (h : Holder) :
    h ∈ r.holders ∧ h.home = name ↔ h ∈ t.holders := by
  rw [mem_holders_iff hr]
  constructor
  · rintro ⟨⟨u, hu, hh⟩, rfl⟩
    rw [ht] at hu
    cases hu
    exact hh
  · intro hh
    have hhome : h.home = name := (Table.home_of_mem_holders hh).trans (hr.ownName ht)
    rw [hhome]
    exact ⟨⟨t, ht, hh⟩, rfl⟩

theorem home_ne_of_get?_eq_none {r : Realm} (hr : r.WellFormed) (hnone : r.tables.get? name = none)
    {h : Holder} (hh : h ∈ r.holders) : h.home ≠ name := by
  rintro rfl
  obtain ⟨t, ht, -⟩ := (mem_holders_iff hr).mp hh
  rw [hnone] at ht
  cases ht

/-- What is held while some tables have not had their turn: for these, what the current realm
holds, for all others what the desired one holds. -/
def Between (current desired : Realm) (todo : List String) (held : List Holder) : Prop :=
  ∀ h : Holder, h ∈ held ↔ if h.home ∈ todo then h ∈ current.holders else h ∈ desired.holders

variable (hbetween : Between current desired (name :: todo) held)
include hbetween

theorem mem_of_home (h : Holder) (hhome : h.home = name) : h ∈ held ↔ h ∈ current.holders := by
  rw [hbetween h, if_pos (by rw [hhome]; exact List.mem_cons_self)]

include hcurrent

theorem stands_of_between {before : Table} (hbefore : current.tables.get? name = some before) :
    before.Stands held := by
  intro h hhome
  have hown : h.home = name := hhome.trans (hcurrent.ownName hbefore)
  rw [mem_of_home hbetween h hown, ← mem_holders_at hcurrent hbefore, and_iff_left hown]

theorem home_ne_of_between (hnone : current.tables.get? name = none) {h : Holder} (hh : h ∈ held) :
    h.home ≠ name := by
  intro hhome
  exact home_ne_of_get?_eq_none hcurrent hnone ((mem_of_home hbetween h hhome).mp hh) hhome

include hdesired

/-- What is held after the turn of a table. -/
theorem mem_foldl_diffAt (htidy : Tidy held) (hfree : current.rebuilds desired name = true →
    isHeld held (Statement.rebuildName name) = false) (h : Holder) :
    h ∈ (Statement.ofChanges (diffAt current desired name)).foldl Statement.holders held ↔
      (h ∈ held ∧ h.home ≠ name) ∨ (h ∈ desired.holders ∧ h.home = name) := by
  unfold diffAt
  unfold rebuilds at hfree
  cases hbefore : current.tables.get? name with
  | none =>
      have hnone (x : Holder) (hx : x ∈ held) : x.home ≠ name :=
        home_ne_of_between hcurrent hbetween hbefore hx
      cases hafter : desired.tables.get? name with
      | none =>
          have hnot : ¬(h ∈ desired.holders ∧ h.home = name) := fun hh =>
            home_ne_of_get?_eq_none hdesired hafter hh.1 hh.2
          rw [or_iff_left hnot, and_iff_left_of_imp (hnone h)]
          rfl
      | some after =>
          obtain rfl := hdesired.ownName hafter
          rw [mem_holders_at hdesired hafter, Statement.ofChanges, List.flatMap_singleton]
          exact Table.mem_foldl_addTable hnone h
  | some before =>
      have hstands := stands_of_between hcurrent hbetween hbefore
      have hown := hcurrent.ownName hbefore
      cases hafter : desired.tables.get? name with
      | none =>
          have hnot : ¬(h ∈ desired.holders ∧ h.home = name) := fun hh =>
            home_ne_of_get?_eq_none hdesired hafter hh.1 hh.2
          rw [or_iff_left hnot, ← hown]
          exact Table.mem_holders_dropTable htidy hstands rfl h
      | some after =>
          obtain rfl := hdesired.ownName hafter
          rw [hbefore, hafter] at hfree
          rw [mem_holders_at hdesired hafter]
          exact Table.mem_foldl_diff htidy hstands hown (hcurrent.tables hbefore)
            (hdesired.tables hafter) h hfree

include hwanted

/-- The statements for a table take free names just if the names wanted for it are free of what is
held for other tables, and a rebuild finds its temporary name free. -/
theorem takeFree_diffAt_iff (htidy : Tidy held) :
    takeFree held (Statement.ofChanges (diffAt current desired name)) = true ↔
      (current.rebuilds desired name = true →
        isHeld held (Statement.rebuildName name) = false) ∧
      ∀ wanted ∈ desired.holders, wanted.home = name → ∀ other ∈ held, other.home ≠ name →
        sameName other.name wanted.name = false := by
  have hapart {after : Table} (hafter : desired.tables.get? name = some after) :
      after.Apart held ↔ ∀ wanted ∈ desired.holders, wanted.home = name →
        ∀ other ∈ held, other.home ≠ name → sameName other.name wanted.name = false := by
    simp only [Table.Apart, ← mem_holders_at hdesired hafter, and_imp, hdesired.ownName hafter]
  have hvacuous (hnone : desired.tables.get? name = none) : ∀ wanted ∈ desired.holders,
      wanted.home = name → ∀ other ∈ held, other.home ≠ name →
        sameName other.name wanted.name = false := fun wanted hmem hhome =>
    absurd hhome (home_ne_of_get?_eq_none hdesired hnone hmem)
  have hdistinct {after : Table} (hafter : desired.tables.get? name = some after) :
      (after.holders.map fun h => Text.lowerAscii h.name).Nodup :=
    nodup_holders hwanted (NameMap.mem_values_iff.mpr ⟨name, hafter⟩)
  unfold diffAt rebuilds
  cases hbefore : current.tables.get? name with
  | none =>
      have hnone (x : Holder) (hx : x ∈ held) : x.home ≠ name :=
        home_ne_of_between hcurrent hbetween hbefore hx
      cases hafter : desired.tables.get? name with
      | none =>
          refine iff_of_true rfl ⟨fun hrebuilt => ?_, hvacuous hafter⟩
          cases hrebuilt
      | some after =>
          rw [← hapart hafter]
          obtain rfl := hdesired.ownName hafter
          rw [Statement.ofChanges, List.flatMap_singleton,
            Table.takeFree_addTable_iff hnone (hdistinct hafter)]
          simp
  | some before =>
      cases hafter : desired.tables.get? name with
      | none =>
          refine iff_of_true rfl ⟨fun hrebuilt => ?_, hvacuous hafter⟩
          cases hrebuilt
      | some after =>
          have hstands := stands_of_between hcurrent hbetween hbefore
          have hown := hcurrent.ownName hbefore
          rw [← hapart hafter]
          obtain rfl := hdesired.ownName hafter
          exact Table.takeFree_diff_iff htidy hstands hown (hcurrent.tables hbefore)
            (hdesired.tables hafter) (hdistinct hafter)

end Turn

section Run

variable {current desired : Realm} (hcurrent : current.WellFormed) (hdesired : desired.WellFormed)
  (hheld : current.HasDistinctNames) (hwanted : desired.HasDistinctNames)

/-- Names of tables in order, of which those that are missing come before all others. -/
structure Remaining (current desired : Realm) (todo : List String) : Prop where
  ordered : todo.Pairwise (· < ·)
  earlier : ∀ h : Holder, h ∈ current.holders ∨ h ∈ desired.holders →
    h.home ∈ todo ∨ ∀ name ∈ todo, h.home < name

variable {name : String} {todo : List String} {held : List Holder}

theorem Remaining.tail (h : Remaining current desired (name :: todo)) :
    Remaining current desired todo := by
  obtain ⟨hfirst, hordered⟩ := List.pairwise_cons.mp h.ordered
  refine ⟨hordered, fun x hx => ?_⟩
  rcases h.earlier x hx with hmem | hbefore
  · rcases List.mem_cons.mp hmem with hhome | hmem
    · rw [hhome]
      exact .inr hfirst
    · exact .inl hmem
  · exact .inr fun other hother => hbefore other (List.mem_cons_of_mem _ hother)

section Turn

variable (hremaining : Remaining current desired (name :: todo))
  (hbetween : Between current desired (name :: todo) held)
include hremaining hbetween

theorem mem_held_iff (h : Holder) :
    h ∈ held ↔ (h ∈ current.holders ∧ name ≤ h.home) ∨ (h ∈ desired.holders ∧ h.home < name) := by
  obtain ⟨hfirst, -⟩ := List.pairwise_cons.mp hremaining.ordered
  have hle (hmem : h.home ∈ name :: todo) : name ≤ h.home := by
    rcases List.mem_cons.mp hmem with hhome | hmem
    · exact hhome.symm ▸ String.le_refl name
    · exact String.not_lt.mp fun hlt => String.lt_irrefl _ (String.lt_trans hlt (hfirst _ hmem))
  have hlt (hh : h ∈ current.holders ∨ h ∈ desired.holders) (hnot : h.home ∉ name :: todo) :
      h.home < name := (hremaining.earlier h hh).resolve_left hnot name List.mem_cons_self
  rw [hbetween h]
  split
  · rename_i hmem
    have hnot : ¬(h ∈ desired.holders ∧ h.home < name) := fun hh =>
      String.not_lt.mpr (hle hmem) hh.2
    rw [or_iff_left hnot, and_iff_left (hle hmem)]
  · rename_i hmem
    have hnot : ¬(h ∈ current.holders ∧ name ≤ h.home) := fun hh =>
      String.not_lt.mpr hh.2 (hlt (.inl hh.1) hmem)
    rw [or_iff_right hnot, and_iff_left_of_imp fun hh => hlt (.inr hh) hmem]

include hwanted

/-- What has to be free at the turn of a table, told of the two realms. -/
theorem clearsAt_iff :
    ((current.rebuilds desired name = true → isHeld held (Statement.rebuildName name) = false) ∧
        ∀ wanted ∈ desired.holders, wanted.home = name → ∀ other ∈ held, other.home ≠ name →
          sameName other.name wanted.name = false) ↔
      ClearsAt current desired name := by
  have hmem := mem_held_iff hremaining hbetween
  constructor
  · rintro ⟨hfree, hapart⟩
    refine ⟨?_, ?_, ?_⟩
    · intro wanted hw hhome c hc hlt
      have hle : name ≤ c.home := String.not_lt.mp fun hgt =>
        String.lt_irrefl _ (String.lt_trans hlt hgt)
      have hne : c.home ≠ name := fun heq => String.lt_irrefl name (heq ▸ hlt)
      exact hapart wanted hw hhome c ((hmem c).mpr (.inl ⟨hc, hle⟩)) hne
    · intro hrebuilt c hc hle
      exact isHeld_eq_false_iff.mp (hfree hrebuilt) c ((hmem c).mpr (.inl ⟨hc, hle⟩))
    · intro hrebuilt w hw hlt
      exact isHeld_eq_false_iff.mp (hfree hrebuilt) w ((hmem w).mpr (.inr ⟨hw, hlt⟩))
  · rintro ⟨hnames, hlater, hearlier⟩
    refine ⟨fun hrebuilt => isHeld_eq_false_iff.mpr fun h hh => ?_, ?_⟩
    · rcases (hmem h).mp hh with ⟨hc, hle⟩ | ⟨hw, hlt⟩
      · exact hlater hrebuilt h hc hle
      · exact hearlier hrebuilt h hw hlt
    · intro wanted hw hhome other hother hne
      rcases (hmem other).mp hother with ⟨hc, hle⟩ | ⟨hd, -⟩
      · have hlt : name < other.home := by
          by_contra hnot
          exact hne (String.le_antisymm (String.not_lt.mp hnot) hle)
        exact hnames wanted hw hhome other hc hlt
      · rw [Bool.eq_false_iff]
        intro hsame
        have heq := (tidy_holders hwanted).distinct other hd wanted hw hsame
        exact hne (heq ▸ hhome)

end Turn

theorem between_turn (hnot : name ∉ todo) {next : List Holder}
    (hbetween : Between current desired (name :: todo) held)
    (hnext : ∀ h : Holder, h ∈ next ↔
      (h ∈ held ∧ h.home ≠ name) ∨ (h ∈ desired.holders ∧ h.home = name)) :
    Between current desired todo next := by
  intro h
  rw [hnext, hbetween h]
  by_cases hhome : h.home = name
  · simp [hhome, hnot]
  · simp [hhome]

theorem housed_turn {next : List Holder} (hhoused : ∀ a ∈ held, Holder.table a.home ∈ held)
    (hnext : ∀ h : Holder, h ∈ next ↔
      (h ∈ held ∧ h.home ≠ name) ∨ (h ∈ desired.holders ∧ h.home = name)) :
    ∀ a ∈ next, Holder.table a.home ∈ next := by
  intro a ha
  rcases (hnext a).mp ha with ⟨ha, hne⟩ | ⟨ha, hhome⟩
  · exact (hnext _).mpr (.inl ⟨hhoused a ha, hne⟩)
  · exact (hnext _).mpr (.inr ⟨desired.housed_holders a ha, hhome⟩)

include hwanted in
theorem tidy_turn {next : List Holder} (htidy : Tidy held)
    (hapart : ∀ wanted ∈ desired.holders, wanted.home = name → ∀ other ∈ held, other.home ≠ name →
      sameName other.name wanted.name = false)
    (hnext : ∀ h : Holder, h ∈ next ↔
      (h ∈ held ∧ h.home ≠ name) ∨ (h ∈ desired.holders ∧ h.home = name)) : Tidy next := by
  refine ⟨?_, housed_turn htidy.housed hnext⟩
  intro a ha b hb hsame
  rcases (hnext a).mp ha with ⟨ha, hane⟩ | ⟨ha, hahome⟩ <;>
    rcases (hnext b).mp hb with ⟨hb, hbne⟩ | ⟨hb, hbhome⟩
  · exact htidy.distinct a ha b hb hsame
  · rw [hapart b hb hbhome a ha hane] at hsame
    cases hsame
  · rw [sameName_comm, hapart a ha hahome b hb hbne] at hsame
    cases hsame
  · exact (tidy_holders hwanted).distinct a ha b hb hsame

include hcurrent hdesired hwanted in
/-- The statements for the tables that remain take free names just if the names of each are free at
its turn. -/
theorem takeFree_flatMap_iff (hremaining : Remaining current desired todo)
    (hbetween : Between current desired todo held) (htidy : Tidy held) :
    takeFree held (Statement.ofChanges (todo.flatMap (diffAt current desired))) = true ↔
      ∀ name ∈ todo, ClearsAt current desired name := by
  induction todo generalizing held with
  | nil => simp [Statement.ofChanges, takeFree]
  | cons name todo ih =>
      have hturn := takeFree_diffAt_iff hcurrent hdesired hwanted hbetween htidy
      have hclears := clearsAt_iff hwanted hremaining hbetween
      have hnot : name ∉ todo := fun hmem =>
        String.lt_irrefl _ ((List.pairwise_cons.mp hremaining.ordered).1 name hmem)
      rw [List.flatMap_cons, Statement.ofChanges, List.flatMap_append, ← Statement.ofChanges,
        Statement.takeFree_append, Bool.and_eq_true, List.forall_mem_cons, hturn.trans hclears]
      -- only if the names of this table were free is it known what is held at the next turn
      refine and_congr_right fun hclear => ?_
      obtain ⟨hfree, hapart⟩ := hclears.mpr hclear
      have hnext := mem_foldl_diffAt hcurrent hdesired hbetween htidy hfree
      exact ih hremaining.tail (between_turn hnot hbetween hnext)
        (tidy_turn hwanted htidy hapart hnext)

/-- Whether a realm gives up names in time for another: no name that the other has for a table or
an index on it is held for a later table, and nobody has the name under which a table is rebuilt
when that is done. -/
structure ClearsFor (current desired : Realm) : Prop where
  names : ∀ wanted ∈ desired.holders, ∀ held ∈ current.holders, wanted.home < held.home →
    sameName held.name wanted.name = false
  later : ∀ name ∈ current.tables.keys, current.rebuilds desired name = true →
    ∀ held ∈ current.holders, name ≤ held.home →
      sameName held.name (Statement.rebuildName name) = false
  earlier : ∀ name ∈ current.tables.keys, current.rebuilds desired name = true →
    ∀ wanted ∈ desired.holders, wanted.home < name →
      sameName wanted.name (Statement.rebuildName name) = false

instance (current desired : Realm) : Decidable (current.ClearsFor desired) :=
  decidable_of_iff
    ((∀ wanted ∈ desired.holders, ∀ held ∈ current.holders, wanted.home < held.home →
        sameName held.name wanted.name = false) ∧
      (∀ name ∈ current.tables.keys, current.rebuilds desired name = true →
        ∀ held ∈ current.holders, name ≤ held.home →
          sameName held.name (Statement.rebuildName name) = false) ∧
      ∀ name ∈ current.tables.keys, current.rebuilds desired name = true →
        ∀ wanted ∈ desired.holders, wanted.home < name →
          sameName wanted.name (Statement.rebuildName name) = false)
    ⟨fun ⟨hnames, hlater, hearlier⟩ => ⟨hnames, hlater, hearlier⟩,
      fun h => ⟨h.names, h.later, h.earlier⟩⟩

theorem isSome_of_rebuilds (h : current.rebuilds desired name = true) :
    name ∈ current.tables.keys := by
  rw [NameMap.mem_keys_iff_isSome]
  unfold rebuilds at h
  split at h
  · rename_i hbefore _
    rw [hbefore]
    rfl
  · cases h

include hcurrent hdesired

theorem home_mem_allKeys {h : Holder} (hh : h ∈ current.holders ∨ h ∈ desired.holders) :
    h.home ∈ current.tables.allKeys desired.tables := by
  rw [NameMap.mem_allKeys_iff]
  rcases hh with hh | hh
  · obtain ⟨t, ht, -⟩ := (mem_holders_iff hcurrent).mp hh
    exact .inl (by rw [ht]; rfl)
  · obtain ⟨t, ht, -⟩ := (mem_holders_iff hdesired).mp hh
    exact .inr (by rw [ht]; rfl)

theorem clearsFor_iff : current.ClearsFor desired ↔
    ∀ name ∈ current.tables.allKeys desired.tables, ClearsAt current desired name := by
  constructor
  · intro hclears name _
    refine ⟨?_, fun h => hclears.later name (isSome_of_rebuilds h) h,
      fun h => hclears.earlier name (isSome_of_rebuilds h) h⟩
    rintro wanted hw rfl
    exact hclears.names wanted hw
  · intro hall
    have hkey {name : String} (h : current.rebuilds desired name = true) :
        ClearsAt current desired name := by
      refine hall name (NameMap.mem_allKeys_iff.mpr (.inl ?_))
      exact NameMap.mem_keys_iff_isSome.mp (isSome_of_rebuilds h)
    refine ⟨?_, fun name _ h => (hkey h).later h, fun name _ h => (hkey h).earlier h⟩
    intro wanted hw
    exact (hall _ (home_mem_allKeys hcurrent hdesired (.inr hw))).names wanted hw rfl

theorem between_allKeys :
    Between current desired (current.tables.allKeys desired.tables) current.holders := by
  intro h
  split
  · rfl
  · rename_i hnot
    have hnone (hh : h ∈ current.holders ∨ h ∈ desired.holders) : False :=
      hnot (home_mem_allKeys hcurrent hdesired hh)
    exact iff_of_false (fun hh => hnone (.inl hh)) (fun hh => hnone (.inr hh))

include hheld hwanted

/-- The statements of a difference take free names just if the current realm gives up its names in
time. -/
theorem takeFree_diff_iff :
    takeFree current.holders (Statement.ofChanges (current.diff desired)) = true ↔
      current.ClearsFor desired := by
  have hremaining : Remaining current desired (current.tables.allKeys desired.tables) :=
    ⟨NameMap.keys_pairwise _, fun h hh => .inl (home_mem_allKeys hcurrent hdesired hh)⟩
  rw [diff, takeFree_flatMap_iff hcurrent hdesired hwanted hremaining
    (between_allKeys hcurrent hdesired) (tidy_holders hheld), clearsFor_iff hcurrent hdesired]

/-- A database with the names of a realm that carries out all statements of a difference had these
names given up in time. -/
theorem clearsFor_of_foldlM_after? {db next : Database} (hdb : db.Sound)
    (hholders : ∀ h, h ∈ db.holders ↔ h ∈ current.holders)
    (h : (Statement.ofChanges (current.diff desired)).foldlM Database.after? db = some next) :
    current.ClearsFor desired := by
  rw [← takeFree_diff_iff hcurrent hdesired hheld hwanted]
  exact (Database.holders_foldlM_after? hdb hholders h).2

/-- Wherever the statements of a difference are cut before one that takes a name, nobody holds that
name, just if the current realm gives up its names in time. Statements that a database with the
names of the current realm has carried out leave just these names taken in it. -/
theorem free_names_diff_iff :
    ((∀ done statement rest,
        Statement.ofChanges (current.diff desired) = done ++ statement :: rest →
          ∀ name ∈ statement.taken?,
            isHeld (done.foldl Statement.holders current.holders) name = false) ↔
      current.ClearsFor desired) ∧
    ∀ db : Database, db.Sound → (∀ h, h ∈ db.holders ↔ h ∈ current.holders) →
      ∀ (done : List Statement) (reached : Database),
        done.foldlM Database.after? db = some reached →
          ∀ name, reached.isTaken name =
            isHeld (done.foldl Statement.holders current.holders) name := by
  constructor
  · rw [← Statement.takeFree_iff]
    exact takeFree_diff_iff hcurrent hdesired hheld hwanted
  · intro db hdb hholders done reached hreached name
    rw [Database.isTaken_eq]
    exact isHeld_congr (Database.holders_foldlM_after? hdb hholders hreached).1

end Run

/-- Two tables of one column, with an index on one of them. -/
def indexedOn (owner : String) : Realm where
  tables := .ofList (["a", "b"].map fun name =>
    (name, ⟨name, [.ofType "id" "integer"], [],
      if name = owner then .ofList [("i", ⟨"i", ["id"], false⟩)] else .empty⟩))

/-- An index that moves to an earlier table is created while it is still there. -/
theorem free_names_diff_indexedOn :
    ((indexedOn "b").WellFormed ∧ (indexedOn "a").WellFormed ∧
      (indexedOn "b").HasDistinctNames ∧ (indexedOn "a").HasDistinctNames) ∧
    ¬∀ done statement rest,
        Statement.ofChanges ((indexedOn "b").diff (indexedOn "a")) = done ++ statement :: rest →
          ∀ name ∈ statement.taken?,
            isHeld (done.foldl Statement.holders (indexedOn "b").holders) name = false := by
  have hb : (indexedOn "b").WellFormed ∧ (indexedOn "b").HasDistinctNames := by decide +kernel
  have ha : (indexedOn "a").WellFormed ∧ (indexedOn "a").HasDistinctNames := by decide +kernel
  refine ⟨⟨hb.1, ha.1, hb.2, ha.2⟩, ?_⟩
  rw [(free_names_diff_iff hb.1 ha.1 hb.2 ha.2).1]
  decide +kernel

example : Statement.ofChanges ((indexedOn "b").diff (indexedOn "a")) =
    [.createIndex "a" ⟨"i", ["id"], false⟩, .dropIndex "i"] := by
  decide +kernel

end Realm

end ProjectHub

