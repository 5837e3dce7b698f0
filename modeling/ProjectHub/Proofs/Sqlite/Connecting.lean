import ProjectHub.Proofs.Files
import ProjectHub.Sqlite.Host

/-!
# What connecting leaves

Opening a database makes its file where that is missing, and the file is empty, so
every database is what it was. The file is what a second connection finds; that
one fails at most where the path of the database looks up a name below the file.
-/

namespace ProjectHub

namespace Sqlite

namespace Host

/-! ## The databases are what they were -/

section Opened

variable {host next : Host}

theorem withFile?_cases {names : List String} {creates : Bool}
    (h : host.withFile? names creates = some next) :
    (next = host ∧ ∃ content, FileSystem.nodeAt? names host.files = some (.file content)) ∨
      (FileSystem.nodeAt? names host.files = none ∧
        next = { host with
          files := NameMap.insert host.files (FileSystem.pathOf names) (.file []) }) := by
  unfold withFile? at h
  cases hnode : FileSystem.nodeAt? names host.files with
  | none =>
      simp only [hnode, Option.ite_none_right_eq_some, Option.some.injEq] at h
      exact .inr ⟨rfl, h.2.symm⟩
  | some node =>
      cases node with
      | directory => simp [hnode] at h
      | file content =>
          simp only [hnode, Option.some.injEq] at h
          exact .inl ⟨h.symm, content, rfl⟩

theorem get?_of_nodeAt?_eq_none {names : List String} {fs : FileSystem}
    (h : FileSystem.nodeAt? names fs = none) :
    names ≠ [] ∧ NameMap.get? fs (FileSystem.pathOf names) = none := by
  unfold FileSystem.nodeAt? at h
  cases names with
  | nil => simp at h
  | cons name names => exact ⟨List.cons_ne_nil _ _, by simpa using h⟩

theorem database?_withFile? {names : List String} {creates : Bool}
    (h : host.withFile? names creates = some next) (place : Place) :
    next.database? place = host.database? place := by
  rcases withFile?_cases h with ⟨rfl, -⟩ | ⟨hnode, rfl⟩
  · rfl
  · cases place with
    | memory => rfl
    | file path =>
        obtain ⟨-, hmissing⟩ := get?_of_nodeAt?_eq_none hnode
        by_cases hpath : FileSystem.pathOf names = path
        · simp only [database?, NameMap.get?_insert, ← hpath, if_true, hmissing]
        · simp only [database?, NameMap.get?_insert_of_ne _ _ hpath]

/-- A file that was made is there when it is asked for again. -/
theorem withFile?_again {names : List String} {creates : Bool}
    (h : host.withFile? names creates = some next) :
    next.withFile? names creates = some next := by
  have hnode : ∃ content, FileSystem.nodeAt? names next.files = some (.file content) := by
    rcases withFile?_cases h with ⟨rfl, hfound⟩ | ⟨hnode, rfl⟩
    · exact hfound
    · obtain ⟨hnames, -⟩ := get?_of_nodeAt?_eq_none hnode
      refine ⟨[], ?_⟩
      simp [FileSystem.nodeAt?, hnames]
  obtain ⟨content, hcontent⟩ := hnode
  simp only [withFile?, hcontent]

end Opened

/-! ## The names of a path -/

/-- Whether a walk looks up a name below a path. -/
def LooksBelow (path : String) : List String → List String → Prop
  | _, [] => False
  | above, name :: rest =>
    if name = "" ∨ name = "." then LooksBelow path above rest
    else if name = ".." then LooksBelow path above.dropLast rest
    else FileSystem.LeadsOver path above ∨ LooksBelow path (above ++ [name]) rest

theorem eq_endOf_of_names? {fs : FileSystem} {above parts names : List String}
    (h : names? fs above parts = some names) :
    names = FileSystem.endOf above parts ∧ names ≠ [] := by
  induction parts generalizing above with
  | nil =>
      simp only [names?, Option.ite_none_left_eq_some, Option.some.injEq] at h
      obtain ⟨hnonempty, rfl⟩ := h
      exact ⟨rfl, by simpa using hnonempty⟩
  | cons name parts ih =>
      simp only [names?] at h
      simp only [FileSystem.endOf]
      split at h
      · rename_i hskip
        rw [if_pos hskip]
        exact ih h
      · rename_i hskip
        rw [if_neg hskip]
        split at h
        · rename_i hback
          rw [if_pos hback]
          exact ih h
        · rename_i hback
          rw [if_neg hback]
          exact ih (Option.ite_none_right_eq_some.mp h).2

/-- What the names of a path mean does not depend on the files; only whether it can be looked
up does. -/
theorem names?_unique {fs fs' : FileSystem} {above parts a b : List String}
    (ha : names? fs above parts = some a) (hb : names? fs' above parts = some b) : a = b :=
  (eq_endOf_of_names? ha).1.trans (eq_endOf_of_names? hb).1.symm

/-- The names of a path mean the same where all that they are looked up below is alike. -/
theorem names?_alike {paths : String → Prop} {fs fs' : FileSystem}
    (h : FileSystem.Alike paths fs fs') {above : List String} (habove : FileSystem.Descends above)
    (parts : List String) (hbelow : ∀ path, LooksBelow path above parts → paths path) :
    names? fs above parts = names? fs' above parts := by
  induction parts generalizing above with
  | nil => rfl
  | cons name parts ih =>
      simp only [LooksBelow] at hbelow
      simp only [names?]
      by_cases hskip : name = "" ∨ name = "."
      · simp only [if_pos hskip] at hbelow ⊢
        exact ih habove hbelow
      · simp only [if_neg hskip] at hbelow ⊢
        by_cases hback : name = ".."
        · simp only [if_pos hback] at hbelow ⊢
          exact ih habove.dropLast hbelow
        · simp only [if_neg hback] at hbelow ⊢
          have hname : FileSystem.Descends (above ++ [name]) :=
            habove.append ⟨fun hempty => hskip (.inl hempty), fun hdot => hskip (.inr hdot), hback⟩
          have hlook : canLookUp fs above name = canLookUp fs' above name := by
            rw [canLookUp, canLookUp, h.directoryAt fun path hpath =>
              hbelow path (.inl (FileSystem.leadsOver_of_passes habove hpath))]
          rw [hlook, ih hname fun path hpath => hbelow path (.inr hpath)]

/-! ## Opening a database again -/

/-- Whether opening a database makes a file that its own path looks up a name below. -/
def Obstructs (host : Host) (opening : Opening) : Prop :=
  opening.isTransient = false ∧
    ∃ names, names? host.files [] (opening.path.splitOn "/") = some names ∧
      FileSystem.nodeAt? names host.files = none ∧
      LooksBelow (FileSystem.pathOf names) [] (opening.path.splitOn "/")

section Again

variable {host next : Host} {opening : Opening} {connection : Connection}
  (h : host.open? opening = some (connection, next))
include h

theorem open?_cases :
    (opening.isTransient = true ∧ next = host) ∨
      (opening.isTransient = false ∧
        ∃ names, names? host.files [] (opening.path.splitOn "/") = some names ∧
          host.withFile? names opening.creates = some next ∧
          connection = ⟨.file (FileSystem.pathOf names), opening.writes && !opening.frozen,
            opening.frozen⟩) := by
  simp only [open?, bind, pure] at h
  split at h
  · rename_i htransient
    cases h
    exact .inl ⟨htransient, rfl⟩
  · rename_i htransient
    simp only [Option.bind_eq_some_iff, Option.some.injEq, Prod.mk.injEq] at h
    obtain ⟨names, hnames, made, hmade, rfl, rfl⟩ := h
    exact .inr ⟨by simpa using htransient, names, hnames, hmade, rfl⟩

theorem database?_open? (place : Place) : next.database? place = host.database? place := by
  rcases open?_cases h with ⟨-, rfl⟩ | ⟨-, names, -, hmade, -⟩
  · rfl
  · exact database?_withFile? hmade place

/-- Where names are found again, the second opening finds what the first one found. -/
theorem open?_of_names? {names : List String} (htransient : opening.isTransient = false)
    (hnames : names? host.files [] (opening.path.splitOn "/") = some names)
    (hagain : names? next.files [] (opening.path.splitOn "/") = some names) :
    next.open? opening = some (connection, next) := by
  rcases open?_cases h with ⟨htrue, -⟩ | ⟨-, found, hfound, hmade, rfl⟩
  · rw [htransient] at htrue
    cases htrue
  · cases hnames.symm.trans hfound
    simp only [open?, htransient, hagain, withFile?_again hmade, bind, Option.bind_some, pure,
      Bool.false_eq_true, if_false]

/-- A second opening finds what the first one found, or it is refused. -/
theorem open?_again :
    next.open? opening = some (connection, next) ∨ next.open? opening = none := by
  cases htransient : opening.isTransient with
  | true =>
      rcases open?_cases h with ⟨-, rfl⟩ | ⟨hfalse, -⟩
      · exact .inl h
      · rw [htransient] at hfalse
        cases hfalse
  | false =>
      obtain ⟨htrue, -⟩ | ⟨-, names, hnames, -, -⟩ := open?_cases h
      · rw [htransient] at htrue
        cases htrue
      cases hagain : names? next.files [] (opening.path.splitOn "/") with
      | some found =>
          cases names?_unique hnames hagain
          exact .inl (open?_of_names? h htransient hnames hagain)
      | none =>
          right
          simp only [open?, htransient, hagain, bind, Option.bind_none, Bool.false_eq_true,
            if_false]

/-- A second opening is not refused unless the file that the first one made stands in its way. -/
theorem open?_again_of_not_obstructs (hclear : ¬ host.Obstructs opening) :
    next.open? opening = some (connection, next) := by
  rcases open?_cases h with ⟨-, rfl⟩ | ⟨htransient, names, hnames, hmade, -⟩
  · exact h
  · refine open?_of_names? h htransient hnames ?_
    rcases withFile?_cases hmade with ⟨rfl, -⟩ | ⟨hnode, rfl⟩
    · exact hnames
    · rw [← hnames]
      have hroot : FileSystem.Descends [] := fun _ hname => absurd hname List.not_mem_nil
      have hbeside : FileSystem.Alike (fun path => path ≠ FileSystem.pathOf names) host.files
          (NameMap.insert host.files (FileSystem.pathOf names) (.file [])) :=
        FileSystem.alike_insert (not_not.mpr rfl) _ _
      refine (names?_alike hbeside hroot _ ?_).symm
      rintro path hbelow rfl
      exact hclear ⟨htransient, names, hnames, hnode, hbelow⟩

end Again

end Host

/-! ## Transactions -/

namespace Database

/-- Carries out commands in a transaction: each one changes the working copy, and what is kept
is the database from before until all of them are accepted and the references hold. The answer
is what is kept in the end, and whether the transaction was committed. -/
def transaction (kept : Database) : Database → List Command → Database × Bool
  | working, [] => if working.deferredHold then (working, true) else (kept, false)
  | working, command :: rest =>
    match working.execute? command with
    | some next => transaction kept next rest
    | none => (kept, false)

/-- All commands of a list or none are carried out just as a transaction does that. -/
theorem transaction_eq (kept working : Database) (commands : List Command) :
    kept.transaction working commands =
      ((working.transact? commands).map fun next => (next, true)).getD (kept, false) := by
  induction commands generalizing working with
  | nil =>
      by_cases hhold : working.deferredHold = true <;>
        simp [transaction, transact?, hhold]
  | cons command rest ih =>
      cases hnext : working.execute? command with
      | none => simp [transaction, transact?, hnext]
      | some next => simpa [transaction, transact?, hnext] using ih next

/-- A command that is refused, wherever it stands, rolls back those before it. -/
theorem transaction_of_refused {kept working middle : Database} {front rest : List Command}
    {command : Command} (hfront : front.foldlM execute? working = some middle)
    (hrefused : middle.execute? command = none) :
    kept.transaction working (front ++ command :: rest) = (kept, false) := by
  induction front generalizing working with
  | nil =>
      cases hfront
      simp only [List.nil_append, transaction, hrefused]
  | cons first front ih =>
      obtain ⟨next, hnext, hlater⟩ := Option.bind_eq_some_iff.mp hfront
      simp only [List.cons_append, transaction, hnext]
      exact ih hlater

/-- The database that statements lead to is what a transaction of their commands keeps. -/
theorem transaction_eq_run? (db : Database) {statements : List Sql.Statement}
    {commands : List (List Command)} (h : statements.mapM Command.ofStatement? = some commands) :
    db.transaction db commands.flatten =
      ((db.run? statements).map fun next => (next, true)).getD (db, false) := by
  rw [transaction_eq, run?, h]
  rfl

/-- Statements are refused as a whole when one of them is refused where it stands. -/
theorem run?_of_refused {db middle : Database} {front rest : List Sql.Statement}
    {statement : Sql.Statement} {commands : List (List Command)}
    (hfront : front.mapM Command.ofStatement? = some commands)
    (hmiddle : commands.flatten.foldlM execute? db = some middle)
    (hrefused : ∀ command ∈ (Command.ofStatement? statement), command.foldlM execute? middle = none) :
    db.run? (front ++ statement :: rest) = none := by
  simp only [run?, transact?, List.mapM_append, List.mapM_cons, hfront, bind, pure,
    Option.bind_some]
  cases hstatement : Command.ofStatement? statement with
  | none => rfl
  | some those =>
      cases rest.mapM Command.ofStatement? with
      | none => rfl
      | some others =>
          simp only [Option.bind_some, List.flatten_append, List.flatten_cons, List.foldlM_append,
            hmiddle, hrefused those hstatement, bind, Option.bind_none]

end Database

/-- A connection changes nothing when a statement is refused, wherever it stands in the list. -/
theorem Connection.run?_of_refused {c : Connection} {host : Host} {db middle : Database}
    (hdb : host.database? c.place = some db) {front rest : List Sql.Statement}
    {statement : Sql.Statement} {commands : List (List Command)}
    (hfront : front.mapM Command.ofStatement? = some commands)
    (hmiddle : commands.flatten.foldlM Database.execute? db = some middle)
    (hrefused : ∀ command ∈ Command.ofStatement? statement,
      command.foldlM Database.execute? middle = none) :
    c.run? (front ++ statement :: rest) host = none := by
  have hrun : db.run? (front ++ statement :: rest) = none :=
    Database.run?_of_refused hfront hmiddle hrefused
  simp only [run?, hdb, hrun, bind, Option.bind_some, Option.bind_none]
  split <;> rfl

end Sqlite

end ProjectHub
