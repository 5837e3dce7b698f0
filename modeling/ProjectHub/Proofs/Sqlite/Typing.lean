import ProjectHub.Proofs.Sqlite.Soundness
import ProjectHub.Proofs.Text.Words

/-!
# Types and what they prefer

A column stores every value in the form that its type prefers, and leaves a value
in that form as it is. Which form that is, the name of the type says: what
statements say of columns, as values or as text, leaves nothing else to say.
-/

namespace ProjectHub.Sqlite

/-! ## Values as columns store them -/

namespace Value

theorem numberFront?_isNumber {cs rest : List Char} {v : Value}
    (h : numberFront? cs = some (v, rest)) : (∃ n, v = .integer n) ∨ ∃ d, v = .real d := by
  simp only [numberFront?] at h
  split at h
  · cases h
  · split at h
    · split at h
      all_goals
        split at h
        · cases h
          exact .inl ⟨_, rfl⟩
        · cases h
          exact .inr ⟨_, rfl⟩
    · cases h
      exact .inr ⟨_, rfl⟩

theorem ofNumericText?_isNumber {s : String} {v : Value} (h : ofNumericText? s = some v) :
    (∃ n, v = .integer n) ∨ ∃ d, v = .real d := by
  unfold ofNumericText? at h
  split at h
  · rename_i hfront
    split at h
    · cases h
      exact numberFront?_isNumber hfront
    · cases h
  · cases h

theorem wholeIfExact_cases (v : Value) :
    v.wholeIfExact = v ∨ (∃ d, v = .real d) ∧ ∃ n, v.wholeIfExact = .integer n := by
  cases v with
  | real d =>
      simp only [wholeIfExact]
      split
      · split
        · exact .inr ⟨⟨d, rfl⟩, _, rfl⟩
        · exact .inl rfl
      · exact .inl rfl
  | _ => exact .inl rfl

end Value

namespace Affinity

theorem ofSpelling_cases (v : Value) : ofSpelling v = v ∨
    (∃ n, ofSpelling v = .integer n) ∨ ∃ d, ofSpelling v = .real d := by
  cases v with
  | text s =>
      simp only [ofSpelling]
      cases hnumber : Value.ofNumericText? s with
      | none => exact .inl rfl
      | some v => exact .inr (Value.ofNumericText?_isNumber hnumber)
  | _ => exact .inl rfl

/-- What a column has stored it stores as it is. -/
theorem store_store (a : Affinity) (v : Value) : a.store (a.store v) = a.store v := by
  have hnumeric : (ofSpelling (ofSpelling v).wholeIfExact).wholeIfExact =
      (ofSpelling v).wholeIfExact := by
    rcases Value.wholeIfExact_cases (ofSpelling v) with hwhole | ⟨-, n, hwhole⟩
    · rw [hwhole]
      rcases ofSpelling_cases v with h | ⟨n, h⟩ | ⟨d, h⟩
      · rw [h] at hwhole ⊢
        rw [h, hwhole]
      all_goals
        rw [h] at hwhole ⊢
        exact hwhole
    · rw [hwhole]
      rfl
  cases a with
  | blob => rfl
  | text => cases v <;> rfl
  | numeric => exact hnumeric
  | integer => exact hnumeric
  | real =>
      simp only [store]
      rcases ofSpelling_cases v with h | ⟨n, h⟩ | ⟨d, h⟩
      · cases v with
        | text s =>
            rw [h]
            simp only [h]
        | _ => rfl
      · rw [h]
        rfl
      · rw [h]
        rfl

theorem store_null (a : Affinity) : a.store .null = .null := by
  cases a <;> rfl

theorem store_integer (n : Int) : integer.store (.integer n) = .integer n := rfl

/-! ## Types by their names -/

theorem occurs_iff {w cs : List Char} : occurs w cs = true ↔ w <:+: cs := by
  induction cs with
  | nil => simp [occurs, List.isEmpty_iff]
  | cons c cs ih =>
      rw [occurs, Bool.or_eq_true, ih, List.isPrefixOf_iff_prefix, List.infix_cons_iff]

/-- A word occurs in a type as it does in its normal form. -/
theorem occurs_normalizeType {w : List Char} (hw : Text.IsWord w) (type : String) :
    occurs w ((normalizeType type).toList.map Char.toUpper) =
      occurs w (type.toList.map Char.toUpper) := by
  have hwords : Text.words ((normalizeType type).toList.map Char.toUpper) =
      Text.words (type.toList.map Char.toUpper) := by
    have htwice : Char.toUpper ∘ Char.toUpper = Char.toUpper := funext Text.toUpper_toUpper
    have hjoined : ∀ v ∈ Text.words type.toList, Text.IsWord v := fun v => Text.isWord_of_mem_words
    simp only [normalizeType, Text.upperAscii, String.toList_ofList, List.map_map, htwice,
      Text.words_map Text.isBlank_toUpper, Text.words_intercalate hjoined]
  rw [Bool.eq_iff_iff, occurs_iff, occurs_iff, Text.infix_iff_words hw, hwords,
    ← Text.infix_iff_words hw]

theorem ofType_normalizeType (type : String) : ofType (normalizeType type) = ofType type := by
  have hword : ∀ word ∈ ["INT", "CHAR", "CLOB", "TEXT", "BLOB", "REAL", "FLOA", "DOUB"],
      occurs word.toList ((normalizeType type).toList.map Char.toUpper) =
        occurs word.toList (type.toList.map Char.toUpper) := by
    intro word hword
    refine occurs_normalizeType ?_ type
    revert word
    decide
  simp only [List.forall_mem_cons] at hword
  obtain ⟨h₁, h₂, h₃, h₄, h₅, h₆, h₇, h₈, -⟩ := hword
  simp only [ofType, h₁, h₂, h₃, h₄, h₅, h₆, h₇, h₈]

theorem ofType_congr {a b : String} (h : Text.sameAscii a b = true) : ofType a = ofType b := by
  simp only [ofType, Text.map_toUpper_of_sameAscii h]

end Affinity

/-- A type that is what its name says: statements can write no other. -/
structure TypeName.IsNamed (type : TypeName) : Prop where
  affinity : type = .none ∨ type.affinity = .ofType type.text
  number : type.numbersRows = true → Text.sameAscii type.text "INTEGER" = true

instance (type : TypeName) : Decidable type.IsNamed :=
  decidable_of_iff ((type = .none ∨ type.affinity = .ofType type.text) ∧
      (type.numbersRows = true → Text.sameAscii type.text "INTEGER" = true))
    ⟨fun h => ⟨h.1, h.2⟩, fun h => ⟨h.affinity, h.number⟩⟩

namespace TypeName

variable {type declared : TypeName}

theorem isNamed_none : TypeName.none.IsNamed :=
  ⟨.inl rfl, fun h => by cases h⟩

theorem isNamed_ofText (cs : List Char) : (ofText cs).IsNamed := by
  unfold ofText
  generalize dropOuterQuotes (dropGenerated cs) = plain
  simp only
  split
  · exact isNamed_none
  · refine ⟨.inr rfl, fun hnumber => ?_⟩
    cases plain with
    | nil => cases hnumber
    | cons c rest =>
        have hquote : isQuote c = false := by
          rw [Bool.eq_false_iff]
          intro hquote
          simp only [isQuote, Bool.or_eq_true, beq_iff_eq] at hquote
          have hfirst : c.toLower = 'i' := by
            have hlower := Text.sameAscii_iff.mp hnumber
            rw [String.toList_ofList, List.map_cons] at hlower
            exact (List.cons.inj hlower).1
          obtain ((rfl | rfl) | rfl) | rfl := hquote <;> revert hfirst <;> decide
        rw [dequote, hquote, if_neg Bool.false_ne_true]
        exact hnumber

theorem IsNamed.integer (h : type.IsNamed) (hnumber : type.numbersRows = true) :
    type.affinity = .integer := by
  rcases h.affinity with rfl | haffinity
  · cases hnumber
  · rw [haffinity, Affinity.ofType_congr (h.number hnumber)]
    decide

theorem isNamed_of_typeName {ls rest : List Lexeme} (h : Reader.typeName ls = some (type, rest)) :
    type.IsNamed := by
  simp only [Reader.typeName, bind, Option.bind_eq_some_iff, pure] at h
  obtain ⟨⟨words, left⟩, -, h⟩ := h
  split at h
  · cases h
    exact isNamed_none
  · cases h
    exact isNamed_ofText _

theorem isNamed_of_plainType? {text : String} (h : plainType? text = some type) : type.IsNamed := by
  unfold plainType? at h
  split at h
  · rename_i hread
    obtain ⟨ls, -, hname⟩ := Option.bind_eq_some_iff.mp hread
    cases (Option.ite_none_right_eq_some.mp h).2
    exact isNamed_of_typeName hname
  · cases h

/-- The type that a column gets where the type it had is written in normal form prefers the values
that its rows have. -/
theorem store_of_normal {v : Value} (htype : type.IsNamed)
    (hdeclared : plainType? (normalizeType type.text) = some declared)
    (h : type.affinity.store v = v) : declared.affinity.store v = v := by
  have htext := plainType?_text hdeclared
  rcases (isNamed_of_plainType? hdeclared).affinity with rfl | haffinity
  · rfl
  · rw [htext, Affinity.ofType_normalizeType] at haffinity
    rcases htype.affinity with rfl | hown
    · have hnone : plainType? (normalizeType TypeName.none.text) = some .none := by decide
      rw [hnone] at hdeclared
      cases hdeclared
      rfl
    · rw [haffinity, ← hown]
      exact h

end TypeName

/-! ## Commands with types that are what their names say -/

namespace Command

/-- Whether the types of the columns that a command makes are what their names say. -/
def IsNamed : Command → Prop
  | createTable _ definition _ => ∀ d ∈ definition.columns, d.type.IsNamed
  | addColumn _ d => d.type.IsNamed
  | _ => True

instance (command : Command) : Decidable command.IsNamed :=
  match command with
  | createTable _ definition _ => inferInstanceAs (Decidable (∀ d ∈ definition.columns, d.type.IsNamed))
  | addColumn _ d => inferInstanceAs (Decidable d.type.IsNamed)
  | createIndex .. | dropTable .. | dropIndex .. | renameTable .. | dropColumn .. | insert ..
  | copyRows .. | deleteRows .. | evaluate .. | idle => isTrue trivial

end Command

namespace Reader

variable {ls rest : List Lexeme}

theorem isNamed_of_column {d : ColumnDefinition} (h : column ls = some (d, rest)) :
    d.type.IsNamed := by
  simp only [column, bind, Option.bind_eq_some_iff, pure] at h
  obtain ⟨⟨word, afterName⟩, -, ⟨type, afterType⟩, htype, ⟨constraints, left⟩, -, h⟩ := h
  cases h
  exact TypeName.isNamed_of_typeName htype

theorem isNamed_of_columnsAfter {steps : Nat} {ds : List ColumnDefinition}
    (h : columnsAfter steps ls = some (ds, rest)) : ∀ d ∈ ds, d.type.IsNamed := by
  induction steps generalizing ls ds rest with
  | zero =>
      cases h
      simp
  | succ steps ih =>
      unfold columnsAfter at h
      split at h
      · cases h
        simp
      · split at h
        · cases h
          simp
        · simp only [bind, Option.bind_eq_some_iff, pure] at h
          obtain ⟨⟨first, afterFirst⟩, hfirst, ⟨others, left⟩, hothers, h⟩ := h
          cases h
          exact List.forall_mem_cons.mpr ⟨isNamed_of_column hfirst, ih hothers⟩

theorem isNamed_of_table {definition : TableDefinition} (h : table ls = some (definition, rest)) :
    ∀ d ∈ definition.columns, d.type.IsNamed := by
  simp only [table, bind, Option.bind_eq_some_iff] at h
  obtain ⟨opened, -, ⟨first, afterFirst⟩, hfirst, ⟨others, afterOthers⟩, hothers, h⟩ := h
  have hall : ∀ d ∈ first :: others, d.type.IsNamed :=
    List.forall_mem_cons.mpr ⟨isNamed_of_column hfirst, isNamed_of_columnsAfter hothers⟩
  -- with constraints of the table or without
  split at h
  all_goals
    obtain ⟨⟨constraints, afterAll⟩, -, h⟩ := Option.bind_eq_some_iff.mp h
    obtain ⟨closed, -, h⟩ := Option.bind_eq_some_iff.mp h
    split at h
    · cases h
      exact hall
    · obtain ⟨options, -, h⟩ := Option.bind_eq_some_iff.mp h
      cases h
      exact hall

theorem isNamed_of_creation {command : Command} (h : creation ls = some (command, rest)) :
    command.IsNamed := by
  unfold creation at h
  split at h
  · simp only [bind, Option.bind_eq_some_iff, pure] at h
    obtain ⟨⟨ifMissing, _⟩, -, ⟨word, _⟩, -, ⟨definition, _⟩, hdefinition, h⟩ := h
    cases h
    exact isNamed_of_table hdefinition
  · simp only [bind, Option.bind_eq_some_iff, pure] at h
    obtain ⟨⟨unique, _⟩, -, _, -, ⟨ifMissing, _⟩, -, ⟨word, _⟩, -, _, -, ⟨table, _⟩, -, ⟨columns, _⟩,
      -, h⟩ := h
    cases h
    trivial

theorem isNamed_of_alteration {tail : List Char} {command : Command}
    (h : alteration tail ls = some (command, rest)) : command.IsNamed := by
  simp only [alteration, bind, Option.bind_eq_some_iff, pure] at h
  obtain ⟨⟨word, _⟩, -, h⟩ := h
  split at h
  · split at h
    · simp only [Option.bind_eq_some_iff] at h
      obtain ⟨_, -, ⟨newName, _⟩, -, h⟩ := h
      cases h
      trivial
    · simp only [Option.bind_eq_some_iff] at h
      obtain ⟨⟨_, _⟩, -, ⟨definition, _⟩, hdefinition, h⟩ := h
      split at h
      · cases h
      · cases h
        exact isNamed_of_column hdefinition
    · simp only [Option.bind_eq_some_iff] at h
      obtain ⟨⟨_, _⟩, -, ⟨column, _⟩, -, h⟩ := h
      cases h
      trivial
    · cases h
  · cases h

theorem isNamed_of_removal {command : Command} (h : removal ls = some (command, rest)) :
    command.IsNamed := by
  simp only [removal, bind, Option.bind_eq_some_iff, pure] at h
  obtain ⟨⟨isTable, _⟩, -, h⟩ := h
  cases isTable with
  | true =>
      obtain ⟨_, -, ⟨ifThere, _⟩, -, ⟨word, _⟩, -, h⟩ := by
        simpa only [if_true, Option.bind_eq_some_iff] using h
      cases h
      trivial
  | false =>
      obtain ⟨_, -, ⟨ifThere, _⟩, -, ⟨word, _⟩, -, h⟩ := by
        simpa only [Bool.false_eq_true, if_false, Option.bind_eq_some_iff] using h
      cases h
      trivial

theorem isNamed_of_addition {command : Command} (h : addition ls = some (command, rest)) :
    command.IsNamed := by
  simp only [addition, bind, Option.bind_eq_some_iff, pure] at h
  obtain ⟨⟨word, _⟩, -, h⟩ := h
  -- with names of columns or without
  split at h
  all_goals
    obtain ⟨⟨columns, _⟩, -, h⟩ := Option.bind_eq_some_iff.mp h
    split at h
    · split at h
      · simp only [Option.bind_eq_some_iff] at h
        obtain ⟨⟨first, _⟩, -, ⟨others, _⟩, -, h⟩ := h
        cases h
        trivial
      · split at h
        · cases h
        · obtain ⟨_, -, h⟩ := Option.bind_eq_some_iff.mp h
          cases h
          trivial
      · simp only [Option.bind_eq_some_iff] at h
        obtain ⟨⟨names, _⟩, -, _, -, ⟨source, _⟩, -, h⟩ := h
        split at h
        · cases h
          trivial
        · cases h
      · cases h
    · cases h

theorem isNamed_of_command {tail : List Char} {command : Command}
    (h : Reader.command tail ls = some (command, rest)) : command.IsNamed := by
  unfold Reader.command at h
  split at h
  · split at h
    · exact isNamed_of_creation h
    · exact isNamed_of_removal h
    · obtain ⟨_, -, h⟩ := Option.bind_eq_some_iff.mp h
      exact isNamed_of_alteration h
    · obtain ⟨_, -, h⟩ := Option.bind_eq_some_iff.mp h
      exact isNamed_of_addition h
    · simp only [bind, Option.bind_eq_some_iff, pure] at h
      obtain ⟨_, -, ⟨word, _⟩, -, h⟩ := h
      cases h
      trivial
    · simp only [evaluation, bind, Option.bind_eq_some_iff, pure] at h
      obtain ⟨⟨first, _⟩, -, ⟨others, _⟩, -, h⟩ := h
      cases h
      trivial
    · cases h
      trivial
    · cases h
  · cases h

theorem isNamed_of_commands {tail : List Char} {steps : Nat} {read : List Command}
    (h : Reader.commands tail steps ls = some read) : ∀ command ∈ read, command.IsNamed := by
  induction steps generalizing ls read with
  | zero =>
      cases ls with
      | nil =>
          cases h
          simp
      | cons l ls => cases h
  | succ steps ih =>
      cases ls with
      | nil =>
          cases h
          simp
      | cons l ls =>
          unfold Reader.commands at h
          split at h
          · exact ih h
          · obtain ⟨⟨first, left⟩, hfirst, h⟩ := Option.bind_eq_some_iff.mp h
            have hnamed := isNamed_of_command hfirst
            simp only at h
            split at h
            · cases h
              simpa using hnamed
            · split at h
              · simp only [bind, Option.bind_eq_some_iff, pure] at h
                obtain ⟨others, hothers, h⟩ := h
                cases h
                exact List.forall_mem_cons.mpr ⟨hnamed, ih hothers⟩
              · cases h

end Reader

namespace Command

/-- The text of a statement can name no type that is not what its name says. -/
theorem isNamed_of_ofText? {text : String} {commands : List Command}
    (h : ofText? text = some commands) : ∀ command ∈ commands, command.IsNamed := by
  simp only [ofText?, bind, Option.bind_eq_some_iff] at h
  obtain ⟨⟨ls, isOpen⟩, -, h⟩ := h
  exact Reader.isNamed_of_commands h

theorem isNamed_of_ofColumn? {column : Column} {d : ColumnDefinition}
    (h : ColumnDefinition.ofColumn? column = some d) : d.type.IsNamed := by
  obtain ⟨type, default, htype, -, rfl⟩ := exists_ofPlain h
  exact TypeName.isNamed_of_plainType? htype

theorem isNamed_of_ofTable? {shape : Table} {definition : TableDefinition}
    (h : TableDefinition.ofTable? shape = some definition) :
    ∀ d ∈ definition.columns, d.type.IsNamed := by
  obtain ⟨ds, hds, rfl⟩ := columns_of_ofTable? h
  intro d hd
  obtain ⟨column, -, hcolumn⟩ := exists_of_mem_mapM hds hd
  exact isNamed_of_ofColumn? hcolumn

theorem isNamed_of_plain? {statement : Sql.Statement} {command : Command}
    (h : plain? statement = some command) : command.IsNamed := by
  cases statement with
  | createTable name shape =>
      obtain ⟨definition, hdefinition, rfl⟩ := Option.map_eq_some_iff.mp h
      exact isNamed_of_ofTable? hdefinition
  | addColumn table column =>
      obtain ⟨d, hd, rfl⟩ := Option.map_eq_some_iff.mp h
      exact isNamed_of_ofColumn? hd
  | _ =>
      cases h
      trivial

/-- Nor can a statement. -/
theorem isNamed_of_ofStatement? {statement : Sql.Statement} {commands : List Command}
    (h : ofStatement? statement = some commands) : ∀ command ∈ commands, command.IsNamed := by
  unfold ofStatement? at h
  split at h
  · cases h
  · split at h
    · rename_i hplain
      cases h
      simpa using isNamed_of_plain? hplain
    · exact isNamed_of_ofText? h

end Command

end ProjectHub.Sqlite
