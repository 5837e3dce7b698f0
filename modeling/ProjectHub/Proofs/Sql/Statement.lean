import ProjectHub.Proofs.Sql.Literal
import ProjectHub.Sql.Statement

/-!
# Statements and the names in them

A name is written between quotes, with each quote in it twice, so it cannot end
its own quotes: it is read back from the front of any text that does not go on
with a quote. Lists of names in parentheses are told apart the same way. The text
of a statement is a verb, a name and the rest, and it determines the statement but
for the types and defaults of columns, which are written as they are.
-/

namespace ProjectHub.Sql

/-! ## Names between quotes -/

section Names

variable {quote : Char} {cs rest rest' : List Char}

theorem toList_quoteName (name : String) : (quoteName name).toList = enclose '"' name.toList :=
  String.toList_ofList

/-- Quoted texts in front of no quote are told apart from what follows them. -/
theorem enclose_append_inj {inner other : List Char} (hrest : rest.head? ≠ some quote)
    (hrest' : rest'.head? ≠ some quote)
    (h : enclose quote inner ++ rest = enclose quote other ++ rest') :
    inner = other ∧ rest = rest' := by
  have hread := (unenclose_enclose_iff inner rest).mpr hrest
  rw [h, (unenclose_enclose_iff other rest').mpr hrest'] at hread
  exact (Prod.mk.inj (Option.some.inj hread)).imp Eq.symm Eq.symm

theorem quoteName_append_inj {name other : String} (hrest : rest.head? ≠ some '"')
    (hrest' : rest'.head? ≠ some '"')
    (h : (quoteName name).toList ++ rest = (quoteName other).toList ++ rest') :
    name = other ∧ rest = rest' := by
  rw [toList_quoteName, toList_quoteName] at h
  exact (enclose_append_inj hrest hrest' h).imp_left String.toList_inj.mp

theorem quoteName_inj {name other : String} : quoteName name = quoteName other ↔ name = other := by
  refine ⟨fun h => ?_, congrArg quoteName⟩
  have happend := congrArg (fun text => text.toList ++ []) h
  exact (quoteName_append_inj (by simp) (by simp) happend).1

/-- What stands behind the first name of a list. -/
def moreNames : List String → List Char
  | [] => []
  | name :: names => ", ".toList ++ ((quoteName name).toList ++ moreNames names)

theorem toList_nameList_cons (name : String) (names : List String) :
    (nameList (name :: names)).toList = (quoteName name).toList ++ moreNames names := by
  induction names generalizing name with
  | nil => simp [nameList, moreNames, String.intercalate_singleton]
  | cons next names ih =>
      have hnext := ih next
      unfold nameList at hnext ⊢
      rw [List.map_cons] at hnext
      rw [List.map_cons, List.map_cons, String.intercalate_cons_cons, String.toList_append,
        String.toList_append, hnext, moreNames, List.append_assoc]

theorem head?_moreNames (names : List String) (rest : List Char) :
    (moreNames names ++ ')' :: rest).head? ≠ some '"' := by
  cases names <;> simp [moreNames]

theorem moreNames_append_inj {names others : List String}
    (h : moreNames names ++ ')' :: rest = moreNames others ++ ')' :: rest') :
    names = others ∧ rest = rest' := by
  induction names generalizing others with
  | nil =>
      cases others with
      | nil => exact ⟨rfl, (List.cons.inj h).2⟩
      | cons other others => simp [moreNames] at h
  | cons name names ih =>
      cases others with
      | nil => simp [moreNames] at h
      | cons other others =>
          rw [moreNames, moreNames, List.append_assoc, List.append_assoc, List.append_assoc,
            List.append_assoc] at h
          obtain ⟨hname, hmore⟩ := quoteName_append_inj (head?_moreNames _ _) (head?_moreNames _ _)
            (List.append_cancel_left h)
          exact (ih hmore).imp_left fun hnames => congrArg₂ _ hname hnames

/-- Lists of names in front of a closing parenthesis are told apart from what follows them. -/
theorem nameList_append_inj {names others : List String}
    (h : (nameList names).toList ++ ')' :: rest = (nameList others).toList ++ ')' :: rest') :
    names = others ∧ rest = rest' := by
  cases names with
  | nil =>
      cases others with
      | nil => exact ⟨rfl, (List.cons.inj h).2⟩
      | cons other others =>
        rw [toList_nameList_cons, toList_quoteName] at h
        simp [nameList, enclose] at h
  | cons name names =>
      cases others with
      | nil =>
        rw [toList_nameList_cons, toList_quoteName] at h
        simp [nameList, enclose] at h
      | cons other others =>
          rw [toList_nameList_cons, toList_nameList_cons, List.append_assoc, List.append_assoc] at h
          obtain ⟨hname, hmore⟩ :=
            quoteName_append_inj (head?_moreNames _ _) (head?_moreNames _ _) h
          exact (moreNames_append_inj hmore).imp_left fun hnames => congrArg₂ _ hname hnames

end Names

/-! ## The text of a statement -/

namespace Statement

/-- What a statement starts with. -/
inductive Verb where
  | createTable
  | insert
  | dropTable
  | alter
  | createIndex (unique : Bool)
  | dropIndex
  deriving DecidableEq

/-- The words of a verb. -/
def Verb.text : Verb → String
  | createTable => "CREATE TABLE "
  | insert => "INSERT INTO "
  | dropTable => "DROP TABLE "
  | alter => "ALTER TABLE "
  | createIndex unique => "CREATE " ++ (if unique then "UNIQUE " else "") ++ "INDEX "
  | dropIndex => "DROP INDEX "

/-- The verb of a statement. -/
def verb : Statement → Verb
  | createTable _ _ => .createTable
  | copyRows _ _ _ => .insert
  | dropTable _ => .dropTable
  | renameTable _ _ => .alter
  | addColumn _ _ => .alter
  | dropColumn _ _ => .alter
  | createIndex _ index => .createIndex index.unique
  | dropIndex _ => .dropIndex

/-- The first name of a statement. -/
def subject : Statement → String
  | createTable name _ => name
  | copyRows target _ _ => target
  | dropTable name => name
  | renameTable name _ => name
  | addColumn table _ => table
  | dropColumn table _ => table
  | createIndex _ index => index.name
  | dropIndex name => name

/-- What follows the first name of a statement. -/
def ending : Statement → String
  | createTable _ shape => " (" ++ ", ".intercalate (tableParts shape) ++ ")"
  | copyRows _ source columns =>
    " (" ++ nameList columns ++ ") SELECT " ++ nameList columns ++ " FROM " ++ quoteName source
  | dropTable _ => ""
  | renameTable _ newName => " RENAME TO " ++ quoteName newName
  | addColumn _ column => " ADD COLUMN " ++ columnDefinition column
  | dropColumn _ column => " DROP COLUMN " ++ quoteName column
  | createIndex table index => " ON " ++ quoteName table ++ " (" ++ nameList index.columns ++ ")"
  | dropIndex _ => ""

theorem text_eq (s : Statement) : s.text = s.verb.text ++ quoteName s.subject ++ s.ending := by
  cases s <;> dsimp only [text, verb, Verb.text, subject, ending] <;>
    simp only [String.append_assoc, String.append_empty]

/-- The verbs one by one. -/
def Verb.all : List Verb :=
  [createTable, insert, dropTable, alter, createIndex true, createIndex false, dropIndex]

theorem Verb.mem_all (v : Verb) : v ∈ all := by
  cases v with
  | createIndex unique => cases unique <;> simp [all]
  | _ => simp [all]

theorem Verb.not_mem_text (v : Verb) : '"' ∉ v.text.toList := by
  have hall : ∀ v ∈ all, '"' ∉ v.text.toList := by decide
  exact hall v v.mem_all

theorem Verb.text_inj {v w : Verb} : v.text = w.text → v = w := by
  have hall : ∀ v ∈ all, ∀ w ∈ all, v.text = w.text → v = w := by decide
  exact hall v v.mem_all w w.mem_all

theorem head?_ending (s : Statement) : s.ending.toList.head? ≠ some '"' := by
  cases s <;> simp [ending]

/-- What precedes the first quote is told apart from what follows. -/
theorem append_quote_inj {front other rest rest' : List Char} (hfront : '"' ∉ front)
    (hother : '"' ∉ other) (h : front ++ '"' :: rest = other ++ '"' :: rest') :
    front = other ∧ rest = rest' := by
  induction front generalizing other with
  | nil =>
      cases other with
      | nil => exact ⟨rfl, (List.cons.inj h).2⟩
      | cons c other => exact absurd ((List.cons.inj h).1 ▸ List.mem_cons_self) hother
  | cons c front ih =>
      cases other with
      | nil => exact absurd ((List.cons.inj h).1.symm ▸ List.mem_cons_self) hfront
      | cons d other =>
          obtain ⟨rfl, htail⟩ := List.cons.inj h
          exact (ih (List.not_mem_of_not_mem_cons hfront) (List.not_mem_of_not_mem_cons hother)
            htail).imp_left (congrArg (c :: ·))

/-- The text of a statement tells its verb, its first name and what follows. -/
theorem parts_of_text {s t : Statement} (h : s.text = t.text) :
    s.verb = t.verb ∧ s.subject = t.subject ∧ s.ending.toList = t.ending.toList := by
  rw [text_eq, text_eq, ← String.toList_inj] at h
  simp only [String.toList_append, List.append_assoc] at h
  have hquote := h
  rw [toList_quoteName, toList_quoteName] at hquote
  obtain ⟨hverb, -⟩ := append_quote_inj s.verb.not_mem_text t.verb.not_mem_text hquote
  rw [hverb] at h
  obtain ⟨hsubject, hending⟩ :=
    quoteName_append_inj s.head?_ending t.head?_ending (List.append_cancel_left h)
  exact ⟨Verb.text_inj (String.toList_inj.mp hverb), hsubject, hending⟩

/-- Statements that no text has to tell apart: they are the same, or create tables of one name, or
add columns of one name to one table. The types and defaults of columns are written as they are. -/
inductive Alike : Statement → Statement → Prop
  | same (s : Statement) : Alike s s
  | createTable (name : String) (shape other : Table) :
    Alike (.createTable name shape) (.createTable name other)
  | addColumn (table : String) {column other : Column} (hname : column.name = other.name) :
    Alike (.addColumn table column) (.addColumn table other)

section Endings

variable {table other : String}

theorem createIndex_of_ending {index index' : Index} (hname : index.name = index'.name)
    (hunique : index.unique = index'.unique)
    (h : (createIndex table index).ending.toList = (createIndex other index').ending.toList) :
    createIndex table index = createIndex other index' := by
  obtain ⟨name, columns, unique⟩ := index
  obtain ⟨name', columns', unique'⟩ := index'
  obtain rfl : name = name' := hname
  obtain rfl : unique = unique' := hunique
  simp only [ending, String.toList_append, List.append_assoc] at h
  obtain ⟨htable, hmore⟩ := quoteName_append_inj (by simp) (by simp) (List.append_cancel_left h)
  have hlist : (nameList columns).toList ++ [')'] = (nameList columns').toList ++ [')'] :=
    List.append_cancel_left hmore
  rw [htable, (nameList_append_inj hlist).1]

theorem copyRows_of_ending {target : String} {columns columns' : List String}
    (h : (copyRows target table columns).ending.toList =
      (copyRows target other columns').ending.toList) :
    copyRows target table columns = copyRows target other columns' := by
  simp only [ending, String.toList_append, List.append_assoc] at h
  obtain ⟨hcolumns, hmore⟩ := nameList_append_inj (List.append_cancel_left h)
  subst hcolumns
  have hsource := List.append_cancel_left (List.append_cancel_left (List.append_cancel_left hmore))
  rw [quoteName_inj.mp (String.toList_inj.mp hsource)]

theorem name_of_columnDefinition {column column' : Column}
    (h : columnDefinition column = columnDefinition column') : column.name = column'.name := by
  rw [← String.toList_inj] at h
  simp only [columnDefinition, String.toList_append, List.append_assoc] at h
  exact (quoteName_append_inj (by simp) (by simp) h).1

end Endings

/-- A statement is determined by its text, but for the shape of a created table and the definition
of an added column. -/
theorem alike_of_text {s t : Statement} (h : s.text = t.text) : Alike s t := by
  obtain ⟨hverb, hsubject, hending⟩ := parts_of_text h
  cases s with
  | createTable name shape =>
      cases t <;> cases hverb
      obtain rfl : name = _ := hsubject
      exact .createTable name _ _
  | copyRows target source columns =>
      cases t <;> cases hverb
      obtain rfl : target = _ := hsubject
      rw [copyRows_of_ending hending]
      exact .same _
  | dropTable name =>
      cases t <;> cases hverb
      obtain rfl : name = _ := hsubject
      exact .same _
  | dropIndex name =>
      cases t <;> cases hverb
      obtain rfl : name = _ := hsubject
      exact .same _
  | createIndex table index =>
      cases t with
      | createIndex other index' =>
          rw [createIndex_of_ending hsubject (Verb.createIndex.inj hverb) hending]
          exact .same _
      | _ => cases hverb
  | renameTable name newName =>
      cases t with
      | renameTable other newName' =>
          obtain rfl : name = other := hsubject
          simp only [ending, String.toList_append] at hending
          have hname := List.append_cancel_left hending
          rw [quoteName_inj.mp (String.toList_inj.mp hname)]
          exact .same _
      | addColumn | dropColumn => simp [ending] at hending
      | _ => cases hverb
  | addColumn table column =>
      cases t with
      | addColumn other column' =>
          obtain rfl : table = other := hsubject
          simp only [ending, String.toList_append] at hending
          have hdefinition := List.append_cancel_left hending
          exact .addColumn table (name_of_columnDefinition (String.toList_inj.mp hdefinition))
      | renameTable | dropColumn => simp [ending] at hending
      | _ => cases hverb
  | dropColumn table column =>
      cases t with
      | dropColumn other column' =>
          obtain rfl : table = other := hsubject
          simp only [ending, String.toList_append] at hending
          have hname := List.append_cancel_left hending
          rw [quoteName_inj.mp (String.toList_inj.mp hname)]
          exact .same _
      | renameTable | addColumn => simp [ending] at hending
      | _ => cases hverb

end Statement

/-! ## The statements of a change -/

/-- The texts of the statements of a change, in order. -/
def textsOf (change : SchemaChange) : List String :=
  (Statement.ofChange change).map Statement.text

section Changes

open Statement

variable {change : SchemaChange} {s : Statement}

/-- A change with the text of a statement for its only text has one statement, which that text does
not tell apart from the given one. -/
theorem exists_alike_of_textsOf (h : textsOf change = [s.text]) :
    ∃ t, ofChange change = [t] ∧ Alike t s := by
  obtain ⟨t, rest, hchange, ht, hrest⟩ := List.map_eq_cons_iff.mp h
  rw [List.map_eq_nil_iff.mp hrest] at hchange
  exact ⟨t, hchange, alike_of_text ht⟩

theorem eq_dropTable_iff {table : String} :
    textsOf change = textsOf (.dropTable table) ↔ change = .dropTable table := by
  refine ⟨fun h => ?_, congrArg textsOf⟩
  obtain ⟨t, hchange, halike⟩ := exists_alike_of_textsOf h
  cases halike
  cases change <;> simp_all [ofChange]

theorem eq_dropColumn_iff {table column : String} :
    textsOf change = textsOf (.dropColumn table column) ↔ change = .dropColumn table column := by
  refine ⟨fun h => ?_, congrArg textsOf⟩
  obtain ⟨t, hchange, halike⟩ := exists_alike_of_textsOf h
  cases halike
  cases change <;> simp_all [ofChange]

theorem eq_addIndex_iff {table : String} {index : Index} :
    textsOf change = textsOf (.addIndex table index) ↔ change = .addIndex table index := by
  refine ⟨fun h => ?_, congrArg textsOf⟩
  obtain ⟨t, hchange, halike⟩ := exists_alike_of_textsOf h
  cases halike
  cases change <;> simp_all [ofChange]

theorem exists_dropIndex_iff {table name : String} :
    textsOf change = textsOf (.dropIndex table name) ↔
      ∃ other, change = .dropIndex other name := by
  constructor
  · intro h
    obtain ⟨t, hchange, halike⟩ := exists_alike_of_textsOf h
    cases halike
    cases change <;> simp_all [ofChange]
  · rintro ⟨other, rfl⟩
    rfl

end Changes

/-- A quoted name is read back where it ends, if no other quote follows, and reading it does not end
earlier whatever follows. So the text of a change determines it: a dropped table, a dropped column
and its table, and an added index with its table; of a dropped index it determines the name, which
is all it has. -/
theorem quoted_names_are_read_back :
    (∀ (name : String) (rest : List Char),
      unenclose '"' ((quoteName name).toList ++ rest) = some (name.toList, rest) ↔
        rest.head? ≠ some '"') ∧
    (∀ (name : String) (rest : List Char),
      unenclose '"' ('"' :: (double '"' name.toList ++ rest)) =
        (undouble '"' rest).map fun (more, after) => (name.toList ++ more, after)) ∧
    ∀ change : SchemaChange,
      (∀ table, textsOf change = textsOf (.dropTable table) ↔ change = .dropTable table) ∧
      (∀ table column, textsOf change = textsOf (.dropColumn table column) ↔
        change = .dropColumn table column) ∧
      (∀ table index, textsOf change = textsOf (.addIndex table index) ↔
        change = .addIndex table index) ∧
      ∀ table name, textsOf change = textsOf (.dropIndex table name) ↔
        ∃ other, change = .dropIndex other name := by
  refine ⟨fun name rest => ?_, fun name rest => ?_, fun change => ⟨fun table => eq_dropTable_iff,
    fun table column => eq_dropColumn_iff, fun table index => eq_addIndex_iff,
    fun table name => exists_dropIndex_iff⟩⟩
  · rw [toList_quoteName]
    exact unenclose_enclose_iff name.toList rest
  · rw [unenclose, if_pos rfl]
    exact undouble_append name.toList rest

example : textsOf (.addIndex "t" ⟨"i", ["a\", \"b)"], false⟩) =
    ["CREATE INDEX \"i\" ON \"t\" (\"a\"\", \"\"b)\")"] := by
  decide +kernel

end ProjectHub.Sql
