import ProjectHub.Proofs.Document.Lines
import ProjectHub.Proofs.Document.Spelling

/-!
# The canonical document of a realm

A realm is written as a document of its tables: every name as a quoted label,
types as quoted text, defaults as `sql("…")`, what admits NULL and what is unique
as truth values, and the columns of keys as lists of quoted text. The document
describes that realm and no other.

The realms that have such a document are all that any document describes.
-/

namespace ProjectHub

open Document

/-! ## Blocks of a realm -/

/-- The attribute that lists the columns of a key. -/
def Document.columnsAttribute (columns : List String) : Attribute :=
  ⟨"columns", .list (columns.map .text), 0⟩

/-- The block that declares a column. -/
def Column.toBlock (c : Column) : Block where
  kind := "column"
  labels := [c.name]
  attributes := ⟨"type", .text c.sqlType, 0⟩ :: ⟨"null", .bool c.nullable, 0⟩ ::
    (c.default.map fun expression => ⟨"default", .call "sql" [.text expression], 0⟩).toList
  blocks := []
  line := 0

/-- The block that declares an index. -/
def Index.toBlock (i : Index) : Block where
  kind := "index"
  labels := [i.name]
  attributes := [columnsAttribute i.columns, ⟨"unique", .bool i.unique, 0⟩]
  blocks := []
  line := 0

/-- The block that declares a primary key, unless it is empty. -/
def Table.keyBlocks (t : Table) : List Block :=
  if t.primaryKey = [] then []
  else [⟨"primary_key", [], [columnsAttribute t.primaryKey], [], 0⟩]

/-- The block that declares a table: its columns, then its primary key, then its indexes. -/
def Table.toBlock (t : Table) : Block where
  kind := "table"
  labels := [t.name]
  attributes := []
  blocks := t.columns.map Column.toBlock ++ (t.keyBlocks ++ t.indexes.values.map Index.toBlock)
  line := 0

/-- The blocks that declare the tables of a realm. -/
def Realm.toBlocks (r : Realm) : List Block :=
  r.tables.values.map Table.toBlock

/-- The canonical document of a realm. -/
def Realm.toDocument (r : Realm) : String :=
  render (itemTokens [] r.toBlocks)

/-- A realm that a document can describe: it is well formed, its types are in normal form, and
every table and every index has a column. -/
structure Realm.Declarable (r : Realm) : Prop where
  wellFormed : r.WellFormed
  normal : r.IsNormal
  columns : ∀ {name t}, r.tables.get? name = some t → t.columns ≠ []
  indexed : ∀ {name t}, r.tables.get? name = some t →
    ∀ {key index}, t.indexes.get? key = some index → index.columns ≠ []

instance (r : Realm) : Decidable r.Declarable :=
  decidable_of_iff
    (r.WellFormed ∧ ∀ e ∈ r.tables.toList, (∀ c ∈ e.2.columns, c.IsNormal) ∧ e.2.columns ≠ [] ∧
      ∀ i ∈ e.2.indexes.toList, i.2.columns ≠ [])
    ⟨fun ⟨hwell, htables⟩ => ⟨hwell, fun ht => (htables _ (NameMap.mem_toList_iff.2 ht)).1,
        fun ht => (htables _ (NameMap.mem_toList_iff.2 ht)).2.1,
        fun ht _ _ hi =>
          (htables _ (NameMap.mem_toList_iff.2 ht)).2.2 _ (NameMap.mem_toList_iff.2 hi)⟩,
      fun h => ⟨h.wellFormed, fun _ ht => ⟨h.normal (NameMap.mem_toList_iff.1 ht),
        h.columns (NameMap.mem_toList_iff.1 ht),
        fun _ hi => h.indexed (NameMap.mem_toList_iff.1 ht) (NameMap.mem_toList_iff.1 hi)⟩⟩⟩

/-- Every realm that a document describes is declarable, in whatever order its blocks stand. -/
theorem Realm.declarable_of_parse {document : String} {r : Realm}
    (h : Realm.parse document = .ok r) : r.Declarable := by
  have hblocks := fromBlocks_parse h
  have hdeclared {name : String} {t : Table} (ht : r.tables.get? name = some t) : t.Declared := by
    obtain ⟨-, block, hblock⟩ := hblocks name t ht
    exact Table.declared_ofBlock hblock
  obtain ⟨hwell, hnormal⟩ := wellFormed_parse h
  exact ⟨hwell, hnormal, fun ht => (hdeclared ht).columns, fun ht => (hdeclared ht).indexed⟩

/-- A document with its keys before the columns they name, which gives attributes twice: of the
lists of columns the first counts, of all else the last. -/
def Document.shuffled : String :=
  "table \"t\" \x7b\n" ++
    "  index \"i\" \x7b columns = [b, \"a\"] columns = [] \x7d\n" ++
    "  primary_key \x7b columns = [column.a] \x7d\n" ++
    "  column \"a\" \x7b type = text type = varchar(8) \x7d\n" ++
    "  column \"b\" \x7b type = \"big  int\" \x7d\n" ++
  "\x7d"

theorem Realm.parse_shuffled : Realm.parse Document.shuffled =
    .ok ⟨.ofList [("t", ⟨"t", [⟨"a", "VARCHAR(8)", false, none⟩, ⟨"b", "BIG INT", false, none⟩],
      ["a"], .ofList [("i", ⟨"i", ["b", "a"], false⟩)]⟩)]⟩ := by
  refine parse_of_tokens [] [⟨"table", ["t"], [],
    [⟨"index", ["i"],
      [⟨"columns", .list [.ident "b", .text "a"], 0⟩, ⟨"columns", .list [], 0⟩], [], 0⟩,
    ⟨"primary_key", [], [⟨"columns", .list [.ident "column.a"], 0⟩], [], 0⟩,
    ⟨"column", ["a"],
      [⟨"type", .ident "text", 0⟩, ⟨"type", .call "varchar" [.number "8"], 0⟩], [], 0⟩,
    ⟨"column", ["b"], [⟨"type", .text "big  int", 0⟩], [], 0⟩], 0⟩] ?_ rfl ?_ ?_
  · unfold tokens Document.shuffled
    simp only [String.toList_append, -String.reduceAppend, -String.reduceToList]
    decide +kernel
  · decide +kernel
  · decide +kernel

theorem Realm.declarable_of_parse_shuffled : ∃ r, Realm.parse Document.shuffled = .ok r ∧
    r.Declarable :=
  ⟨_, parse_shuffled, declarable_of_parse parse_shuffled⟩

/-! ## Its tokens -/

namespace Document

theorem isSpelled_word : ∀ word ∈ ["table", "column", "type", "null", "default", "sql",
    "primary_key", "index", "columns", "unique", "true", "false"],
    (Token.ident word).isSpelled = true := by
  decide +kernel

theorem isSpelled_mark : ∀ t ∈ [Token.equals, .comma, .openParen, .closeParen, .openBracket,
    .closeBracket], t.isSpelled = true := by
  decide

theorem isSpelled_text (value : String) : (Token.text value).isSpelled = true := rfl

theorem all_isSpelled_tokensOf (columns : List String) :
    (Value.tokensOf (columns.map .text)).all Token.isSpelled = true := by
  induction columns with
  | nil => rfl
  | cons column columns ih =>
      cases columns with
      | nil => rfl
      | cons next columns => simpa [Value.tokensOf, Value.tokens, Token.isSpelled] using ih

theorem all_isSpelled_columnsAttribute (columns : List String) :
    (columnsAttribute columns).tokens.all Token.isSpelled = true := by
  have hcolumns := all_isSpelled_tokensOf columns
  simp [columnsAttribute, Attribute.tokens, Value.tokens, isSpelled_word, isSpelled_mark, hcolumns]

/-- The tokens of a block are spelled if those of its parts are. -/
theorem all_isSpelled_block {b : Block} (hkind : (Token.ident b.kind).isSpelled = true)
    (hattributes : ∀ a ∈ b.attributes, a.tokens.all Token.isSpelled = true)
    (hblocks : ∀ inner ∈ b.blocks, inner.tokens.all Token.isSpelled = true) :
    b.tokens.all Token.isSpelled = true := by
  obtain ⟨kind, labels, attributes, blocks, line⟩ := b
  have hlabels : (labels.map Token.text).all Token.isSpelled = true := by simp [isSpelled_text]
  have hitems : (attributes.flatMap Attribute.tokens).all Token.isSpelled = true := by
    rw [List.all_flatMap, List.all_eq_true]
    exact hattributes
  have hinner : (Block.tokensOf blocks).all Token.isSpelled = true := by
    rw [Block.tokensOf_eq_flatMap, List.all_flatMap, List.all_eq_true]
    exact hblocks
  simp only [Block.tokens, List.all_cons, List.all_append, hkind, hlabels, hitems, hinner]
  rfl

theorem all_isSpelled_column (c : Column) : c.toBlock.tokens.all Token.isSpelled = true := by
  have hkind := isSpelled_word "column" (by simp)
  refine all_isSpelled_block hkind ?_ (by simp [Column.toBlock])
  cases hdefault : c.default <;>
    simp [Column.toBlock, hdefault, Attribute.tokens, Value.tokens, Value.tokensOf, isSpelled_word,
      isSpelled_mark, isSpelled_text]

theorem all_isSpelled_index (i : Index) : i.toBlock.tokens.all Token.isSpelled = true := by
  have hkind := isSpelled_word "index" (by simp)
  refine all_isSpelled_block hkind ?_ (by simp [Index.toBlock])
  have hcolumns := all_isSpelled_columnsAttribute i.columns
  simp only [Index.toBlock, List.forall_mem_cons, hcolumns, true_and]
  simp [Attribute.tokens, Value.tokens, isSpelled_word, isSpelled_mark]

theorem all_isSpelled_table (t : Table) : t.toBlock.tokens.all Token.isSpelled = true := by
  have hkind := isSpelled_word "table" (by simp)
  refine all_isSpelled_block hkind (by simp [Table.toBlock]) ?_
  intro inner hinner
  simp only [Table.toBlock, List.mem_append, List.mem_map] at hinner
  rcases hinner with ⟨c, -, rfl⟩ | hkey | ⟨i, -, rfl⟩
  · exact all_isSpelled_column c
  · unfold Table.keyBlocks at hkey
    split at hkey
    · cases hkey
    · rw [List.mem_singleton.mp hkey]
      refine all_isSpelled_block (isSpelled_word _ (by simp)) ?_ (by simp)
      simpa using all_isSpelled_columnsAttribute t.primaryKey
  · exact all_isSpelled_index i

theorem isSpelled_realm (r : Realm) : ∀ t ∈ itemTokens [] r.toBlocks, t.isSpelled = true := by
  rw [← List.all_eq_true]
  have htables : (Block.tokensOf r.toBlocks).all Token.isSpelled = true := by
    rw [Block.tokensOf_eq_flatMap, Realm.toBlocks, List.all_flatMap, List.all_map, List.all_eq_true]
    exact fun t ht => all_isSpelled_table t
  simpa [itemTokens] using htables

theorem isReadable_texts (columns : List String) :
    Value.areReadable (columns.map .text) = true := by
  simp [Value.areReadable_iff, Value.isReadable]

theorem isReadable_table (t : Table) : t.toBlock.isReadable = true := by
  simp only [Table.toBlock, Block.isReadable, List.all_nil, Bool.true_and, Block.areReadable_iff,
    List.mem_append, List.mem_map]
  rintro inner (⟨c, -, rfl⟩ | hkey | ⟨i, -, rfl⟩)
  · cases hdefault : c.default <;>
      simp [Column.toBlock, hdefault, Block.isReadable, Block.areReadable, Value.isReadable,
        Value.areReadable]
  · unfold Table.keyBlocks at hkey
    split at hkey
    · cases hkey
    · rw [List.mem_singleton.mp hkey]
      simp [Block.isReadable, Block.areReadable, columnsAttribute, Value.isReadable,
        isReadable_texts]
  · simp [Index.toBlock, Block.isReadable, Block.areReadable, columnsAttribute, Value.isReadable,
      isReadable_texts]

end Document

/-! ## What the blocks declare -/

section Blocks

theorem Document.exists_of_unplaced_cons {attributes rest : List Attribute} {name : String}
    {value : Value} {place : Nat}
    (h : attributes.map Attribute.unplaced = ⟨name, value, place⟩ :: rest) :
    ∃ line more, attributes = ⟨name, value, line⟩ :: more ∧
      more.map Attribute.unplaced = rest := by
  obtain ⟨⟨_, _, line⟩, more, rfl, hfirst, hmore⟩ := List.map_eq_cons_iff.mp h
  cases hfirst
  exact ⟨line, more, rfl, hmore⟩

theorem Document.mapM_columnReference (line : Nat) (columns : List String) :
    (columns.map Value.text).mapM (columnReference line) = .ok columns := by
  induction columns with
  | nil => rfl
  | cons column columns ih =>
      rw [List.map_cons, List.mapM_cons, ih]
      rfl

theorem Document.columnsOfBlock_columnsAttribute {b : Block} {columns : List String}
    {line : Nat} {more : List Attribute} (hcolumns : columns ≠ [])
    (h : b.attributes = ⟨"columns", .list (columns.map .text), line⟩ :: more) :
    columnsOfBlock b = .ok columns := by
  obtain ⟨first, rest, rfl⟩ := List.exists_cons_of_ne_nil hcolumns
  simp only [columnsOfBlock, h, List.find?_cons, decide_true]
  exact mapM_columnReference line (first :: rest)

variable {b : Block}

theorem Column.ofBlock_of_unplaced {c : Column} (hc : c.IsNormal)
    (h : b.unplaced = c.toBlock.unplaced) : Column.ofBlock b = .ok c := by
  obtain ⟨name, type, nullable, default⟩ := c
  obtain ⟨kind, labels, attributes, blocks, line⟩ := b
  simp only [toBlock, Block.unplaced, Block.mk.injEq, List.map_cons, Block.allUnplaced_eq_map,
    List.map_nil, List.map_eq_nil_iff] at h
  obtain ⟨-, rfl, hattributes, rfl, -⟩ := h
  obtain ⟨place, more, rfl, hmore⟩ := exists_of_unplaced_cons hattributes
  obtain ⟨place', others, rfl, hothers⟩ := exists_of_unplaced_cons hmore
  have htype : normalizeType type = type := hc
  cases default with
  | none =>
      rw [List.map_eq_nil_iff.mp hothers]
      simp [ofBlock, Block.label, ColumnFacts.add, typeOfValue, htype, bind, Except.bind, pure,
        Except.pure]
  | some expression =>
      obtain ⟨place'', last, rfl, hlast⟩ := exists_of_unplaced_cons hothers
      rw [List.map_eq_nil_iff.mp hlast]
      simp [ofBlock, Block.label, ColumnFacts.add, typeOfValue, defaultOfValue, htype, bind,
        Except.bind, pure, Except.pure]

theorem Index.ofBlock_of_unplaced {i : Index} (hi : i.columns ≠ [])
    (h : b.unplaced = i.toBlock.unplaced) : Index.ofBlock b = .ok i := by
  obtain ⟨kind, labels, attributes, blocks, line⟩ := b
  simp only [toBlock, columnsAttribute, Block.unplaced, Block.mk.injEq, List.map_cons,
    List.map_nil] at h
  obtain ⟨-, rfl, hattributes, -, -⟩ := h
  obtain ⟨place, more, rfl, hmore⟩ := exists_of_unplaced_cons hattributes
  obtain ⟨place', others, rfl, hothers⟩ := exists_of_unplaced_cons hmore
  rw [List.map_eq_nil_iff.mp hothers]
  have hcolumns := columnsOfBlock_columnsAttribute (b := ⟨kind, [i.name],
    [⟨"columns", .list (i.columns.map .text), place⟩, ⟨"unique", .bool i.unique, place'⟩],
    blocks, line⟩) hi rfl
  simp [ofBlock, Block.label, uniqueOfAttribute, hcolumns, bind, Except.bind, pure, Except.pure]

namespace Table

theorem addBlock_column {t : Table} {c : Column} (hc : c.IsNormal)
    (hfresh : c.name ∉ t.columns.map Column.name) (h : b.unplaced = c.toBlock.unplaced) :
    t.addBlock b = .ok { t with columns := t.columns ++ [c] } := by
  have hkind : b.kind = "column" := by
    rw [← Block.kind_unplaced, h, Block.kind_unplaced]
    rfl
  have hnot : t.hasColumn c.name = false := by
    rw [Bool.eq_false_iff, Ne, hasColumn_iff]
    rintro ⟨d, hd, same⟩
    exact hfresh (List.mem_map.mpr ⟨d, hd, same⟩)
  rw [addBlock, hkind]
  simp [Column.ofBlock_of_unplaced hc h, hnot, bind, Except.bind, pure, Except.pure]

theorem addBlock_index {t : Table} {i : Index} (hi : i.columns ≠ [])
    (hfresh : t.indexes.contains i.name = false) (h : b.unplaced = i.toBlock.unplaced) :
    t.addBlock b = .ok { t with indexes := t.indexes.insert i.name i } := by
  have hkind : b.kind = "index" := by
    rw [← Block.kind_unplaced, h, Block.kind_unplaced]
    rfl
  rw [addBlock, hkind]
  simp [Index.ofBlock_of_unplaced hi h, hfresh, bind, Except.bind, pure, Except.pure]

variable {bs : List Block}

theorem foldlM_columns {t : Table} {columns : List Column} (hnormal : ∀ c ∈ columns, c.IsNormal)
    (hdistinct : ((t.columns ++ columns).map Column.name).Nodup)
    (h : bs.map Block.unplaced = (columns.map Column.toBlock).map Block.unplaced) :
    bs.foldlM addBlock t = .ok { t with columns := t.columns ++ columns } := by
  induction columns generalizing t bs with
  | nil =>
      rw [List.map_eq_nil_iff.mp h, List.append_nil]
      rfl
  | cons c columns ih =>
      obtain ⟨b, rest, rfl, hb, hrest⟩ := List.map_eq_cons_iff.mp h
      have hfresh : c.name ∉ t.columns.map Column.name := by
        rw [List.map_append, List.nodup_append] at hdistinct
        exact fun hmem => hdistinct.2.2 _ hmem _ List.mem_cons_self rfl
      rw [List.foldlM_cons, addBlock_column (hnormal c List.mem_cons_self) hfresh hb]
      have hassoc : t.columns ++ c :: columns = t.columns ++ [c] ++ columns := by simp
      rw [hassoc] at hdistinct ⊢
      exact ih (t := { t with columns := t.columns ++ [c] })
        (fun d hd => hnormal d (List.mem_cons_of_mem _ hd)) hdistinct hrest

/-- The block of a primary key gives the key; where there is none, the key stays empty. -/
theorem foldlM_keyBlocks {s : Table} (t : Table) (hs : s.primaryKey = [])
    (h : bs.map Block.unplaced = t.keyBlocks.map Block.unplaced) :
    bs.foldlM addBlock s = .ok { s with primaryKey := t.primaryKey } := by
  unfold keyBlocks at h
  split at h
  · rename_i hempty
    rw [List.map_eq_nil_iff.mp h, hempty, ← hs]
    rfl
  · rename_i hkey
    obtain ⟨b, rest, rfl, hb, hrest⟩ := List.map_eq_cons_iff.mp h
    rw [List.map_eq_nil_iff.mp hrest]
    obtain ⟨kind, labels, attributes, blocks, line⟩ := b
    simp only [columnsAttribute, Block.unplaced, Block.mk.injEq, List.map_cons, List.map_nil] at hb
    obtain ⟨rfl, -, hattributes, -, -⟩ := hb
    obtain ⟨place, more, rfl, -⟩ := exists_of_unplaced_cons hattributes
    rw [List.foldlM_cons, addBlock, columnsOfBlock_columnsAttribute hkey rfl]
    rfl

theorem foldlM_indexes {t : Table} {indexes : NameMap Index} (ht : t.indexes = .empty)
    (hindexes : ∀ {name i}, indexes.get? name = some i → i.name = name ∧ i.columns ≠ [])
    (h : bs.map Block.unplaced = (indexes.values.map Index.toBlock).map Block.unplaced) :
    bs.foldlM addBlock t = .ok { t with indexes := indexes } := by
  have hmade :
      bs.foldlM addBlock { t with indexes := .empty } = .ok { t with indexes := indexes } := by
    refine NameMap.foldlM_values (fun indexes => { t with indexes := indexes }) ?_
      (h.trans (List.map_map ..))
    intro name i b bound hi hb hfree
    obtain ⟨rfl, hcolumns⟩ := hindexes hi
    exact addBlock_index hcolumns hfree hb
  rwa [← ht] at hmade

/-- The block of a table declares that table. -/
theorem ofBlock_of_unplaced {t : Table} (ht : t.WellFormed) (hnormal : ∀ c ∈ t.columns, c.IsNormal)
    (hcolumns : t.columns ≠ [])
    (hindexed : ∀ {name i}, t.indexes.get? name = some i → i.columns ≠ [])
    (h : b.unplaced = t.toBlock.unplaced) : Table.ofBlock b = .ok t := by
  obtain ⟨kind, labels, attributes, blocks, line⟩ := b
  simp only [toBlock, Block.unplaced, Block.mk.injEq, List.map_nil, List.map_eq_nil_iff,
    Block.allUnplaced_eq_map, List.map_append] at h
  obtain ⟨-, rfl, rfl, hblocks, -⟩ := h
  obtain ⟨columns, others, rfl, hbs, hothers⟩ := List.map_eq_append_iff.mp hblocks
  obtain ⟨keys, indexes, rfl, hkeys, hindexes⟩ := List.map_eq_append_iff.mp hothers
  -- the columns come first, then the key, then the indexes, and no group undoes another
  have hfold : (columns ++ (keys ++ indexes)).foldlM addBlock
      { name := t.name, columns := [], primaryKey := [], indexes := .empty } = .ok t := by
    have hfresh : (([] ++ t.columns).map Column.name).Nodup := ht.distinct
    rw [List.foldlM_append, foldlM_columns hnormal hfresh hbs]
    simp only [bind, Except.bind, List.foldlM_append, List.nil_append]
    rw [foldlM_keyBlocks t rfl hkeys]
    exact foldlM_indexes rfl (fun hi => ⟨ht.ownName hi, hindexed hi⟩) hindexes
  have hthere : t.referencedColumns.find? (fun column => !t.hasColumn column) = none := by
    rw [List.find?_eq_none]
    intro column hcolumn
    rw [referencedColumns, List.mem_append, List.mem_flatMap] at hcolumn
    rcases hcolumn with hcolumn | ⟨i, hi, hcolumn⟩
    · simp [ht.key column hcolumn]
    · obtain ⟨name, hi⟩ := NameMap.mem_values_iff.mp hi
      simp [ht.indexed hi column hcolumn]
  simp [ofBlock, Block.label, refuseUnknown, hfold, hthere, hcolumns, bind, Except.bind, pure,
    Except.pure]

end Table

theorem Realm.addBlock_table {r : Realm} {t : Table} (h : Table.ofBlock b = .ok t)
    (hkind : b.kind = "table") (hfresh : r.tables.contains t.name = false) :
    r.addBlock b = .ok ⟨r.tables.insert t.name t⟩ := by
  rw [addBlock, hkind]
  simp [h, hfresh, bind, Except.bind, pure, Except.pure]

end Blocks

namespace Realm

section Reading

variable {r : Realm} (hr : r.Declarable)
include hr

/-- A body of the blocks of a realm describes that realm, on whatever lines the blocks stand. -/
theorem ofBody_of_like {body : Body} (hbody : body.Like [] r.toBlocks) : ofBody body = .ok r := by
  have hattributes : body.attributes = [] := List.map_eq_nil_iff.mp hbody.attributes
  rw [ofBody, hattributes]
  refine NameMap.foldlM_values Realm.mk ?_ (hbody.blocks.trans (List.map_map ..))
  intro name t b bound ht hb hfree
  have hkind : b.kind = "table" := by
    rw [← Block.kind_unplaced, hb, Function.comp_apply, Block.kind_unplaced]
    rfl
  have hblock : Table.ofBlock b = .ok t := Table.ofBlock_of_unplaced (hr.wellFormed.tables ht)
    (hr.normal ht) (hr.columns ht) (hr.indexed ht) hb
  obtain rfl := hr.wellFormed.ownName ht
  exact addBlock_table hblock hkind hfree

/-- The canonical document of a realm is read as that realm, with the order of its columns, its
keys and the columns of its indexes. -/
theorem parse_toDocument : Realm.parse r.toDocument = .ok r := by
  obtain ⟨ts, htokens, hplaced⟩ := tokens_render (isSpelled_realm r)
  have hreadable : ∀ b ∈ r.toBlocks, b.isReadable = true := by
    intro b hb
    obtain ⟨t, -, rfl⟩ := List.mem_map.mp hb
    exact isReadable_table t
  obtain ⟨body, hbody, hlike⟩ := bodyOfTokens_itemTokens (List.forall_mem_nil _) hreadable hplaced
  simp only [Realm.parse, toDocument, htokens, hbody, bind, Except.bind]
  exact ofBody_of_like hr hlike

end Reading

/-- Two tables: one without name, key and index whose column has a quote, a backslash and a line
break in its name; one with a key over two columns, an index over them the other way round, and a
default with a quote in it. -/
def awkward : Realm where
  tables := .ofList
    [("", ⟨"", [⟨"a\"\\\n\x7b # é", "INTEGER", true, none⟩], [], .empty⟩),
      ("column.t\t", ⟨"column.t\t",
        [⟨"b", "VARCHAR(8)", false, some "'\"' || char(10)"⟩, ⟨"a", "", true, none⟩],
        ["b", "a"], .ofList [("true", ⟨"true", ["a", "b", "a"], true⟩)]⟩)]

theorem parse_toDocument_awkward :
    awkward.Declarable ∧ Realm.parse awkward.toDocument = .ok awkward :=
  ⟨by decide +kernel, parse_toDocument (by decide +kernel)⟩

example :
    toDocument ⟨.ofList
      [("a\"b", ⟨"a\"b", [⟨"id", "TEXT", true, some "'\n'"⟩], ["id"], .empty⟩)]⟩ =
    "table \"a\\\"b\" \x7b\n" ++
      "  column \"id\" \x7b\n" ++
        "    type = \"TEXT\"\n" ++
        "    null = true\n" ++
        "    default = sql(\"'\\n'\")\n" ++
      "  \x7d\n" ++
      "  primary_key \x7b\n" ++
        "    columns = [\"id\"]\n" ++
      "  \x7d\n" ++
    "\x7d\n" := by
  decide +kernel

end Realm

end ProjectHub
