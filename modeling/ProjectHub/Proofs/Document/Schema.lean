import ProjectHub.Document.Schema
import ProjectHub.Proofs.Realm.Agreement
import ProjectHub.Proofs.Run
import ProjectHub.Proofs.Text.Words

/-!
# What a document describes

The realm of a document is well formed: what its blocks name is there, and once
only. The types of its columns are in normal form.
-/

namespace ProjectHub

/-- A column whose type is in normal form. -/
def Column.IsNormal (c : Column) : Prop :=
  normalizeType c.sqlType = c.sqlType

instance (c : Column) : Decidable c.IsNormal :=
  inferInstanceAs (Decidable (normalizeType c.sqlType = c.sqlType))

namespace Document

/-! ## Types and defaults of columns -/

namespace Value

/-- The text of an argument of a type. -/
def argumentText? : Value → Option String
  | .number digits => some digits
  | .ident name => some name
  | _ => none

/-- The text of a type as it is written. -/
def typeText? : Value → Option String
  | .ident name => some name
  | .text name => some name
  | .call name args =>
    (args.mapM argumentText?).map fun args => name ++ "(" ++ ",".intercalate args ++ ")"
  | _ => none

end Value

section

variable {line : Nat} {value : Value} {type : String}

theorem typeArgument_eq_ok_iff {text : String} :
    typeArgument line value = .ok text ↔ value.argumentText? = some text := by
  cases value <;> simp [typeArgument, Value.argumentText?]

theorem mapM_typeArgument_eq_ok_iff {args : List Value} {texts : List String} :
    args.mapM (typeArgument line) = .ok texts ↔ args.mapM Value.argumentText? = some texts := by
  induction args generalizing texts with
  | nil => simp [pure, Except.pure]
  | cons arg args ih =>
      simp only [List.mapM_cons, bind_eq_ok_iff, Option.bind_eq_bind, Option.bind_eq_some_iff,
        typeArgument_eq_ok_iff, ih, pure, Except.pure, Except.ok.injEq, Option.some.injEq]

/-- A type is the normal form of the text it is written with. -/
theorem typeOfValue_eq_ok_iff : typeOfValue line value = .ok type ↔
    ∃ raw, value.typeText? = some raw ∧ normalizeType raw = type := by
  cases value with
  | call name args =>
      simp only [typeOfValue, Value.typeText?, bind_eq_ok_iff, mapM_typeArgument_eq_ok_iff,
        Option.map_eq_some_iff, pure, Except.pure, Except.ok.injEq]
      constructor
      · rintro ⟨texts, htexts, rfl⟩
        exact ⟨_, ⟨texts, htexts, rfl⟩, rfl⟩
      · rintro ⟨_, ⟨texts, htexts, rfl⟩, rfl⟩
        exact ⟨texts, htexts, rfl⟩
  | _ => simp [typeOfValue, Value.typeText?]

end

/-- The attributes of a name. -/
def attributesOf (name : String) (attributes : List Attribute) : List Attribute :=
  attributes.filter fun a => a.name = name

/-- What an attribute says of a column. -/
theorem ColumnFacts.add_eq_ok_iff {facts next : ColumnFacts} {a : Attribute} :
    facts.add a = .ok next ↔
      (a.name = "type" ∧ ∃ type, typeOfValue a.line a.value = .ok type ∧
        { facts with type := some type } = next) ∨
      (a.name = "null" ∧ ∃ nullable, a.value = .bool nullable ∧
        { facts with nullable := nullable } = next) ∨
      (a.name = "default" ∧ ∃ default, defaultOfValue a.line a.value = .ok default ∧
        { facts with default := some default } = next) ∨
      ((a.name = "comment" ∨ a.name = "auto_increment") ∧ facts = next) := by
  unfold add
  split
  · rename_i hname
    simp [hname, bind_eq_ok_iff, pure, Except.pure]
  · rename_i hname
    split
    · rename_i hvalue
      simp [hname, hvalue]
    · rename_i hvalue
      have hnone : ∀ nullable, a.value ≠ .bool nullable := hvalue
      simp [hname, hnone]
  · rename_i hname
    simp [hname, bind_eq_ok_iff, pure, Except.pure]
  · rename_i hname
    simp [hname]
  · rename_i hname
    simp [hname]
  · rename_i htype hnull hdefault hcomment hauto
    refine iff_of_false nofun ?_
    rintro (⟨h, -⟩ | ⟨h, -⟩ | ⟨h, -⟩ | ⟨h | h, -⟩)
    · exact htype h
    · exact hnull h
    · exact hdefault h
    · exact hcomment h
    · exact hauto h

section Facts

variable {facts next : ColumnFacts} {a : Attribute}

theorem type_add (hname : a.name = "type") (h : facts.add a = .ok next) :
    ∃ type, typeOfValue a.line a.value = .ok type ∧ next.type = some type := by
  simp only [ColumnFacts.add_eq_ok_iff, hname, true_and, String.reduceEq, false_and, or_self,
    or_false] at h
  obtain ⟨type, htype, rfl⟩ := h
  exact ⟨type, htype, rfl⟩

theorem default_add (hname : a.name = "default") (h : facts.add a = .ok next) :
    ∃ default, defaultOfValue a.line a.value = .ok default ∧ next.default = some default := by
  simp only [ColumnFacts.add_eq_ok_iff, hname, true_and, String.reduceEq, false_and, or_self,
    or_false, false_or] at h
  obtain ⟨default, hdefault, rfl⟩ := h
  exact ⟨default, hdefault, rfl⟩

/-- Attributes of other names leave the type and the default as they are. -/
theorem add_of_ne (h : facts.add a = .ok next) :
    (a.name ≠ "type" → next.type = facts.type) ∧
      (a.name ≠ "default" → next.default = facts.default) := by
  obtain ⟨hname, type, -, rfl⟩ | ⟨-, nullable, -, rfl⟩ | ⟨hname, default, -, rfl⟩ | ⟨-, rfl⟩ :=
    ColumnFacts.add_eq_ok_iff.mp h
  · exact ⟨absurd hname, fun _ => rfl⟩
  · exact ⟨fun _ => rfl, fun _ => rfl⟩
  · exact ⟨fun _ => rfl, absurd hname⟩
  · exact ⟨fun _ => rfl, fun _ => rfl⟩

/-- Of several attributes of a name the last one holds. -/
theorem last_of_foldlM {name : String} {field : ColumnFacts → Option String}
    {Says : Attribute → String → Prop}
    (hthis : ∀ {facts next : ColumnFacts} {a : Attribute}, a.name = name →
      facts.add a = .ok next → ∃ value, Says a value ∧ field next = some value)
    (hother : ∀ {facts next : ColumnFacts} {a : Attribute}, a.name ≠ name →
      facts.add a = .ok next → field next = field facts)
    {attributes : List Attribute} (h : attributes.foldlM ColumnFacts.add facts = .ok next) :
    (attributesOf name attributes = [] ∧ field next = field facts) ∨
      ∃ a value, (attributesOf name attributes).getLast? = some a ∧ Says a value ∧
        field next = some value := by
  induction attributes using List.reverseRecOn generalizing next with
  | nil =>
      cases h
      exact .inl ⟨rfl, rfl⟩
  | append_singleton attributes b ih =>
      rw [List.foldlM_append] at h
      obtain ⟨middle, hmiddle, h⟩ := exists_of_bind_ok h
      simp only [List.foldlM_cons, List.foldlM_nil, bind_pure] at h
      rw [attributesOf, List.filter_append]
      by_cases hname : b.name = name
      · obtain ⟨value, hsays, hnext⟩ := hthis hname h
        rw [List.filter_singleton, decide_eq_true hname, cond_true, List.getLast?_concat]
        exact .inr ⟨b, value, rfl, hsays, hnext⟩
      · rw [List.filter_singleton, decide_eq_false hname, cond_false, List.append_nil,
          hother hname h]
        exact ih hmiddle

end Facts

end Document

open Document

namespace Column

variable {block : Block} {column : Column}

theorem facts_ofBlock (h : Column.ofBlock block = .ok column) :
    ∃ facts, block.attributes.foldlM ColumnFacts.add {} = .ok facts ∧
      facts.type = some column.sqlType ∧ facts.default = column.default := by
  unfold Column.ofBlock at h
  obtain ⟨name, -, h⟩ := exists_of_bind_ok h
  split at h
  · cases h
  · obtain ⟨facts, hfacts, h⟩ := exists_of_bind_ok h
    split at h
    · cases h
    · rename_i htype
      cases h
      exact ⟨facts, hfacts, htype, rfl⟩

/-- The type of a column is what the last of its attributes says that give one. -/
theorem type_ofBlock (h : Column.ofBlock block = .ok column) :
    ∃ a, (attributesOf "type" block.attributes).getLast? = some a ∧
      typeOfValue a.line a.value = .ok column.sqlType := by
  obtain ⟨facts, hfacts, htype, -⟩ := facts_ofBlock h
  obtain ⟨-, hnone⟩ | ⟨a, type, hlast, hsays, hsome⟩ :=
    last_of_foldlM type_add (fun hname hadd => (add_of_ne hadd).1 hname) hfacts
  · cases htype.symm.trans hnone
  · cases htype.symm.trans hsome
    exact ⟨a, hlast, hsays⟩

theorem default_ofBlock {a : Attribute} (h : Column.ofBlock block = .ok column)
    (hlast : (attributesOf "default" block.attributes).getLast? = some a) :
    ∃ default, defaultOfValue a.line a.value = .ok default ∧ column.default = some default := by
  obtain ⟨facts, hfacts, -, hdefault⟩ := facts_ofBlock h
  obtain ⟨hnone, -⟩ | ⟨b, default, hlast', hsays, hsome⟩ :=
    last_of_foldlM default_add (fun hname hadd => (add_of_ne hadd).2 hname) hfacts
  · rw [hnone] at hlast
    cases hlast
  · cases hlast.symm.trans hlast'
    exact ⟨default, hsays, hdefault.symm.trans hsome⟩

theorem isNormal_ofBlock (h : Column.ofBlock block = .ok column) : column.IsNormal := by
  obtain ⟨a, -, htype⟩ := type_ofBlock h
  obtain ⟨raw, -, hraw⟩ := typeOfValue_eq_ok_iff.mp htype
  rw [IsNormal, ← hraw]
  exact normalizeType_normalizeType raw

end Column

theorem Document.columnsOfBlock_ne_nil {block : Block} {columns : List String}
    (h : columnsOfBlock block = .ok columns) : columns ≠ [] := by
  rintro rfl
  unfold columnsOfBlock at h
  split at h
  · cases h
  · split at h
    · cases h
    · rename_i items hitems _
      obtain ⟨v, vs, rfl⟩ := List.exists_cons_of_ne_nil hitems
      rw [List.mapM_cons] at h
      simp only [bind, Except.bind, pure, Except.pure] at h
      split at h
      · cases h
      · split at h <;> cases h
    · cases h

theorem Index.columns_ne_nil_ofBlock {block : Block} {index : Index}
    (h : Index.ofBlock block = .ok index) : index.columns ≠ [] := by
  unfold Index.ofBlock at h
  simp only [bind, Except.bind, pure, Except.pure] at h
  split at h
  · cases h
  · split at h
    · cases h
    · split at h
      · cases h
      · rename_i columns hcolumns
        cases h
        exact columnsOfBlock_ne_nil hcolumns

namespace Table

/-- What holds of a table at every block of its declaration: its columns have different names and
normal types, and its indexes stand under their own names, each with a column. -/
structure Building (t : Table) : Prop where
  distinct : (t.columns.map Column.name).Nodup
  normal : ∀ column ∈ t.columns, column.IsNormal
  ownName : ∀ {name index}, t.indexes.get? name = some index → index.name = name
  indexed : ∀ {name index}, t.indexes.get? name = some index → index.columns ≠ []

/-- What a block inside a table declares: a column of a new name, the primary key, or an index of
a new name. -/
theorem addBlock_eq_ok_iff {t next : Table} {block : Block} : t.addBlock block = .ok next ↔
    (block.kind = "column" ∧ ∃ column, Column.ofBlock block = .ok column ∧
      t.hasColumn column.name = false ∧ { t with columns := t.columns ++ [column] } = next) ∨
    (block.kind = "primary_key" ∧ ∃ columns, columnsOfBlock block = .ok columns ∧
      { t with primaryKey := columns } = next) ∨
    (block.kind = "index" ∧ ∃ index, Index.ofBlock block = .ok index ∧
      t.indexes.contains index.name = false ∧
        { t with indexes := t.indexes.insert index.name index } = next) := by
  unfold addBlock
  split
  · rename_i hkind
    simp only [hkind, bind_eq_ok_iff, ite_throw_eq_ok_iff]
    simp
  · rename_i hkind
    simp [hkind, bind_eq_ok_iff, pure, Except.pure]
  · rename_i hkind
    simp only [hkind, bind_eq_ok_iff, ite_throw_eq_ok_iff]
    simp
  · rename_i hcolumn hkey hindex
    refine iff_of_false nofun ?_
    rintro (⟨hkind, -⟩ | ⟨hkind, -⟩ | ⟨hkind, -⟩)
    · exact hcolumn hkind
    · exact hkey hkind
    · exact hindex hkind

theorem building_addBlock {t next : Table} {block : Block} (ht : t.Building)
    (h : t.addBlock block = .ok next) : next.Building := by
  obtain ⟨-, column, hcolumn, hfree, rfl⟩ | ⟨-, columns, -, rfl⟩ | ⟨-, index, hindex, -, rfl⟩ :=
    addBlock_eq_ok_iff.mp h
  · refine ⟨?_, ?_, ht.ownName, ht.indexed⟩
    · rw [List.map_append, List.nodup_append]
      refine ⟨ht.distinct, by simp, ?_⟩
      intro name hname other hother same
      obtain ⟨c, hc, rfl⟩ := List.mem_map.mp hname
      rw [List.map_singleton, List.mem_singleton] at hother
      exact Bool.eq_false_iff.mp hfree (hasColumn_iff.mpr ⟨c, hc, same.trans hother⟩)
    · intro c hc
      rcases List.mem_append.mp hc with hc | hc
      · exact ht.normal c hc
      · rw [List.mem_singleton.mp hc]
        exact Column.isNormal_ofBlock hcolumn
  · exact ⟨ht.distinct, ht.normal, ht.ownName, ht.indexed⟩
  · have hcases {name : String} {found : Index}
        (hfound : (t.indexes.insert index.name index).get? name = some found) :
        (found = index ∧ index.name = name) ∨ t.indexes.get? name = some found := by
      rw [NameMap.get?_insert] at hfound
      split at hfound
      · rename_i same
        exact .inl ⟨(Option.some.inj hfound).symm, same⟩
      · exact .inr hfound
    refine ⟨ht.distinct, ht.normal, ?_, ?_⟩
    · intro name found hfound
      obtain ⟨rfl, same⟩ | hfound := hcases hfound
      · exact same
      · exact ht.ownName hfound
    · intro name found hfound
      obtain ⟨rfl, -⟩ | hfound := hcases hfound
      · exact Index.columns_ne_nil_ofBlock hindex
      · exact ht.indexed hfound

/-- A table as blocks declare it: it is well formed, its types are in normal form, and it and each
of its indexes have a column. -/
structure Declared (t : Table) : Prop where
  wellFormed : t.WellFormed
  normal : ∀ column ∈ t.columns, column.IsNormal
  columns : t.columns ≠ []
  indexed : ∀ {name index}, t.indexes.get? name = some index → index.columns ≠ []

theorem declared_ofBlock {block : Block} {t : Table} (h : Table.ofBlock block = .ok t) :
    t.Declared := by
  unfold ofBlock at h
  simp only [bind, Except.bind, pure, Except.pure] at h
  split at h
  · cases h
  · rename_i name hname
    split at h
    · cases h
    · split at h
      · cases h
      · rename_i built hbuilt
        split at h
        · cases h
        · rename_i hcolumns
          split at h
          · cases h
          · rename_i hnone
            rw [← Except.ok.inj h]
            have hbuilding : built.Building := by
              refine foldlM_ok_of_step (fun s a _ s' => building_addBlock) ?_ hbuilt
              exact ⟨List.nodup_nil, by simp, by simp, by simp⟩
            -- the columns of keys are looked up only now, so blocks may come in any order
            have hthere : ∀ column ∈ built.referencedColumns, built.hasColumn column = true := by
              intro column hcolumn
              simpa using List.find?_eq_none.mp hnone column hcolumn
            refine ⟨⟨hbuilding.distinct, hbuilding.ownName, ?_, ?_⟩, hbuilding.normal, ?_,
              hbuilding.indexed⟩
            · intro column hcolumn
              exact hthere column (List.mem_append_left _ hcolumn)
            · intro key index hindex column hcolumn
              have hvalue : index ∈ built.indexes.values := NameMap.mem_values_iff.mpr ⟨key, hindex⟩
              exact hthere column
                (List.mem_append_right _ (List.mem_flatMap.mpr ⟨index, hvalue, hcolumn⟩))
            · rintro hnil
              exact hcolumns (List.isEmpty_iff.mpr hnil)

end Table

namespace Realm

/-- The columns of all tables have types in normal form. -/
def IsNormal (r : Realm) : Prop :=
  ∀ {name t}, r.tables.get? name = some t → ∀ column ∈ t.columns, column.IsNormal

instance (r : Realm) : Decidable r.IsNormal :=
  decidable_of_iff (∀ e ∈ r.tables.toList, ∀ column ∈ e.2.columns, column.IsNormal)
    ⟨fun h _ _ ht => h _ (NameMap.mem_toList_iff.2 ht), fun h _ he => h (NameMap.mem_toList_iff.1 he)⟩

/-- What a block of a document declares: nothing, or a table of a new name. -/
theorem addBlock_cases {r next : Realm} {block : Block} (h : r.addBlock block = .ok next) :
    (block.kind = "schema" ∧ next = r) ∨
    (block.kind = "table" ∧ ∃ t, Table.ofBlock block = .ok t ∧
      r.tables.contains t.name = false ∧ next = ⟨r.tables.insert t.name t⟩) := by
  unfold addBlock at h
  simp only [bind, Except.bind, pure, Except.pure] at h
  split at h
  · rename_i hkind
    exact .inl ⟨hkind, (Except.ok.inj h).symm⟩
  · rename_i hkind
    split at h
    · cases h
    · rename_i table htable
      split at h
      · cases h
      · rename_i hfree
        exact .inr ⟨hkind, table, htable, Bool.eq_false_iff.mpr hfree, (Except.ok.inj h).symm⟩
  · cases h

/-- Whether every table is one that a block declares, stored under its own name. -/
def FromBlocks (r : Realm) : Prop :=
  ∀ name t, r.tables.get? name = some t →
    t.name = name ∧ ∃ block, Table.ofBlock block = .ok t

theorem fromBlocks_addBlock {r next : Realm} {block : Block} (hr : r.FromBlocks)
    (h : r.addBlock block = .ok next) : next.FromBlocks := by
  obtain ⟨-, rfl⟩ | ⟨-, table, htable, -, rfl⟩ := addBlock_cases h
  · exact hr
  · intro name t ht
    rw [NameMap.get?_insert] at ht
    split at ht
    · rename_i same
      rw [← Option.some.inj ht]
      exact ⟨same, block, htable⟩
    · exact hr name t ht

theorem fromBlocks_ofBody {body : Body} {r : Realm} (h : ofBody body = .ok r) : r.FromBlocks := by
  unfold ofBody at h
  split at h
  · cases h
  · refine foldlM_ok_of_step (fun s a _ s' => fromBlocks_addBlock) ?_ h
    intro name t ht
    cases ht

theorem parse_eq_ok_iff {document : String} {r : Realm} : Realm.parse document = .ok r ↔
    ∃ ts body, tokens document = .ok ts ∧ bodyOfTokens ts = .ok body ∧ ofBody body = .ok r := by
  unfold parse
  constructor
  · intro h
    simp only [bind, Except.bind] at h
    split at h
    · cases h
    · rename_i ts hts
      split at h
      · cases h
      · rename_i body hbody
        exact ⟨ts, body, hts, hbody, h⟩
  · rintro ⟨ts, body, hts, hbody, h⟩
    simp only [hts, hbody, bind, Except.bind, h]

theorem fromBlocks_parse {document : String} {r : Realm} (h : Realm.parse document = .ok r) :
    r.FromBlocks := by
  obtain ⟨_, _, -, -, hbody⟩ := parse_eq_ok_iff.mp h
  exact fromBlocks_ofBody hbody

/-- A realm that a document describes is well formed, and its types are in normal form. -/
theorem wellFormed_parse {document : String} {r : Realm} (h : Realm.parse document = .ok r) :
    r.WellFormed ∧ r.IsNormal := by
  have hblocks := fromBlocks_parse h
  have hdeclared {name : String} {t : Table} (ht : r.tables.get? name = some t) : t.Declared := by
    obtain ⟨-, block, hblock⟩ := hblocks name t ht
    exact Table.declared_ofBlock hblock
  exact ⟨⟨fun ht => (hblocks _ _ ht).1, fun ht => (hdeclared ht).wellFormed⟩,
    fun ht => (hdeclared ht).normal⟩

end Realm

end ProjectHub
