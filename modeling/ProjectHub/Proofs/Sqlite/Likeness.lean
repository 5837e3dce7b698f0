import ProjectHub.Proofs.Sqlite.Connecting

/-!
# Hosts that look alike

The path of a database is looked up name by name, and the database is kept under the
path that this leads to. Hosts that are alike on these paths open a database alike,
read it alike and change it alike. Whether a file that is no database has one content
or another makes no difference to any of this.
-/

namespace ProjectHub

namespace Sqlite

/-! ## The file that a path leads to -/

namespace Host

/-- A walk comes down to its end in single steps, so what it leads over there it looks up a name
below, but for the end itself. -/
theorem looksBelow_of_leadsOver_endOf {path : String} {above parts : List String}
    (h : FileSystem.LeadsOver path (FileSystem.endOf above parts)) :
    path = FileSystem.pathOf (FileSystem.endOf above parts) ∨ LooksBelow path above parts ∨
      FileSystem.LeadsOver path above.dropLast := by
  induction parts generalizing above with
  | nil =>
      obtain ⟨front, hnonempty, ⟨rest, rfl⟩, rfl⟩ := h
      cases rest with
      | nil => exact .inl (by rw [FileSystem.endOf, List.append_nil])
      | cons name rest =>
          refine .inr (.inr ⟨front, hnonempty, ?_, rfl⟩)
          rw [List.dropLast_append_of_ne_nil (List.cons_ne_nil _ _)]
          exact List.prefix_append _ _
  | cons name parts ih =>
      simp only [FileSystem.endOf] at h ⊢
      simp only [LooksBelow]
      split
      · rename_i hskip
        rw [if_pos hskip] at h
        exact ih h
      · rename_i hskip
        rw [if_neg hskip] at h
        split
        · rename_i hback
          rw [if_pos hback] at h
          rcases ih h with hend | hbelow | ⟨front, hnonempty, hfront, hpath⟩
          · exact .inl hend
          · exact .inr (.inl hbelow)
          · exact .inr (.inr ⟨front, hnonempty, hfront.trans (List.dropLast_prefix _), hpath⟩)
        · rename_i hdown
          rw [if_neg hdown] at h
          rcases ih h with hend | hbelow | hover
          · exact .inl hend
          · exact .inr (.inl (.inr hbelow))
          · rw [List.dropLast_concat] at hover
            exact .inr (.inl (.inl hover))

end Host

namespace Opening

/-- How the database of a URL is opened, if the URL names one. -/
def ofUrl? (url : String) : Option Opening :=
  (Location.ofUrl url).toOption.bind fun location => (ofLocation location).toOption

/-- The path from the root down of the file that is opened. -/
def file (opening : Opening) : String :=
  FileSystem.pathOf (FileSystem.endOf [] (opening.path.splitOn "/"))

/-- Whether opening a database looks up a name below a path. -/
def LooksBelow (opening : Opening) (path : String) : Prop :=
  opening.isTransient = false ∧ Host.LooksBelow path [] (opening.path.splitOn "/")

/-- Whether opening a database looks at what stands under a path. -/
def LooksAt (opening : Opening) (path : String) : Prop :=
  opening.LooksBelow path ∨ opening.isTransient = false ∧ path = opening.file

theorem looksAt_of_leadsOver {opening : Opening} (htransient : opening.isTransient = false)
    {path : String}
    (h : FileSystem.LeadsOver path (FileSystem.endOf [] (opening.path.splitOn "/"))) :
    opening.LooksAt path := by
  rcases Host.looksBelow_of_leadsOver_endOf h with hend | hbelow | ⟨front, hnonempty, hfront, -⟩
  · exact .inr ⟨htransient, hend⟩
  · exact .inl ⟨htransient, hbelow⟩
  · exact absurd (List.prefix_nil.mp hfront) hnonempty

end Opening

/-! ## Hosts -/

/-- What is seen of a host: the paths whose nodes are looked at, and those whose databases are
read. -/
structure View where
  nodes : String → Prop
  databases : String → Prop

namespace View

/-- Everything is seen. -/
def whole : View := ⟨fun _ => True, fun _ => True⟩

/-- Whether the database at a place is seen. -/
def Shows (view : View) : Place → Prop
  | .memory => True
  | .file path => view.nodes path ∧ view.databases path

/-- Whether all that opening a database depends on is seen, and the database. -/
def Covers (view : View) (opening : Opening) : Prop :=
  (∀ path, opening.LooksAt path → view.nodes path) ∧
    (opening.isTransient = false → view.databases opening.file)

end View

/-- Hosts that are alike in what is seen of them. -/
structure Host.Alike (view : View) (a b : Host) : Prop where
  files : FileSystem.Alike view.nodes a.files b.files
  databases : ∀ path, view.databases path → a.databases.get? path = b.databases.get? path

namespace Host

section Alike

variable {view : View} {a b c : Host}

theorem Alike.refl (view : View) (a : Host) : a.Alike view a :=
  ⟨.refl _ _, fun _ _ => rfl⟩

theorem Alike.symm (h : a.Alike view b) : b.Alike view a :=
  ⟨h.files.symm, fun path hpath => (h.databases path hpath).symm⟩

theorem Alike.trans (h : a.Alike view b) (h' : b.Alike view c) : a.Alike view c :=
  ⟨h.files.trans h'.files, fun path hpath =>
    (h.databases path hpath).trans (h'.databases path hpath)⟩

variable (h : a.Alike view b)
include h

/-- A database is read alike. -/
theorem Alike.database? {place : Place} (hplace : view.Shows place) :
    a.database? place = b.database? place := by
  cases place with
  | memory => rfl
  | file path =>
      obtain ⟨hnode, hdatabase⟩ := hplace
      have hrel := h.files path hnode
      simp only [Host.database?, h.databases path hdatabase]
      generalize NameMap.get? a.files path = node at hrel
      generalize NameMap.get? b.files path = node' at hrel
      cases hrel with
      | none => rfl
      | some hnode =>
          cases hnode with
          | directory => rfl
          | @file content content' hcontent =>
              cases content with
              | nil => rw [hcontent.mp rfl]
              | cons byte rest =>
                  cases content' with
                  | nil => cases hcontent.mpr rfl
                  | cons byte' rest' => rfl

/-- A database is kept alike. -/
theorem Alike.setDatabase (place : Place) (db : Database) :
    (a.setDatabase place db).Alike view (b.setDatabase place db) := by
  cases place with
  | memory => exact h
  | file path =>
      refine ⟨h.files, fun other hother => ?_⟩
      simp only [Host.setDatabase, NameMap.get?_insert, h.databases other hother]

/-- A file is found or made alike. -/
theorem Alike.withFile? {names : List String} (hdescends : FileSystem.Descends names)
    (hover : ∀ path, FileSystem.LeadsOver path names → view.nodes path) (creates : Bool) :
    Option.Rel (Host.Alike view) (a.withFile? names creates) (b.withFile? names creates) := by
  have hnode := h.files.nodeAt? names fun hne => hover _ ⟨names, hne, List.prefix_rfl, rfl⟩
  have hparents (path : String) (hpath : FileSystem.Passes path [] names.dropLast) :
      FileSystem.LeadsOver path names := by
    obtain ⟨front, hnonempty, hfront, rfl⟩ :=
      FileSystem.leadsOver_of_passes hdescends.dropLast hpath
    exact ⟨front, hnonempty, hfront.trans (List.dropLast_prefix _), rfl⟩
  have hparent : FileSystem.isDirectory names.dropLast a.files =
      FileSystem.isDirectory names.dropLast b.files := by
    rw [FileSystem.isDirectory, FileSystem.isDirectory,
      h.files.directoryAt fun path hpath => hover path (hparents path hpath)]
  simp only [Host.withFile?, hparent]
  generalize FileSystem.nodeAt? names a.files = node at hnode
  generalize FileSystem.nodeAt? names b.files = node' at hnode
  cases hnode with
  | none =>
      simp only
      split
      · exact .some ⟨h.files.insert _ (.refl _), h.databases⟩
      · exact .none
  | some hnode =>
      cases hnode with
      | directory => exact .none
      | file _ => exact .some h

/-- A database is opened alike where all that this depends on is seen. -/
theorem Alike.open? {opening : Opening} (hcovers : view.Covers opening) :
    Option.Rel (fun opened opened' => opened.1 = opened'.1 ∧ opened.2.Alike view opened'.2 ∧
      view.Shows opened.1.place) (a.open? opening) (b.open? opening) := by
  obtain ⟨hnodes, hdatabase⟩ := hcovers
  cases htransient : opening.isTransient with
  | true =>
      simp only [Host.open?, htransient, if_true, pure]
      exact .some ⟨rfl, h, trivial⟩
  | false =>
      have hroot : FileSystem.Descends [] := fun _ hname => absurd hname List.not_mem_nil
      have hnames := names?_alike h.files hroot (opening.path.splitOn "/")
        fun path hpath => hnodes path (.inl ⟨htransient, hpath⟩)
      simp only [Host.open?, htransient, Bool.false_eq_true, if_false, hnames, bind, pure]
      cases hfound : Host.names? b.files [] (opening.path.splitOn "/") with
      | none => exact .none
      | some names =>
          obtain ⟨rfl, -⟩ := eq_endOf_of_names? hfound
          have hdescends := FileSystem.descends_endOf hroot (opening.path.splitOn "/")
          have hover (path : String) (hpath : FileSystem.LeadsOver path
              (FileSystem.endOf [] (opening.path.splitOn "/"))) : view.nodes path :=
            hnodes path (Opening.looksAt_of_leadsOver htransient hpath)
          have hmade := h.withFile? hdescends hover opening.creates
          simp only [Option.bind_some]
          have hfile : opening.file =
            FileSystem.pathOf (FileSystem.endOf [] (opening.path.splitOn "/")) := rfl
          generalize FileSystem.endOf [] (opening.path.splitOn "/") = names at hmade hfile
          generalize a.withFile? names opening.creates = made at hmade
          generalize b.withFile? names opening.creates = made' at hmade
          cases hmade with
          | none => exact .none
          | some halike =>
              exact .some ⟨rfl, halike, hnodes _ (.inr ⟨htransient, hfile.symm⟩),
                hfile ▸ hdatabase htransient⟩

end Alike

end Host

namespace Connection

variable {view : View} {a b : Host} {connection : Connection}
  (hplace : view.Shows connection.place) (h : a.Alike view b)
include hplace h

theorem inspect?_alike : connection.inspect? a = connection.inspect? b := by
  rw [inspect?, inspect?, h.database? hplace]

/-- Statements are carried out alike on a database that is seen. -/
theorem run?_alike (statements : List Sql.Statement) :
    Option.Rel (Host.Alike view) (connection.run? statements a)
      (connection.run? statements b) := by
  simp only [run?, h.database? hplace, bind, pure]
  split
  · exact .none
  · cases b.database? connection.place with
    | none => exact .none
    | some db =>
        cases hrun : db.run? statements with
        | none =>
            simp only [Option.bind_some, hrun, Option.bind_none]
            exact .none
        | some next =>
            simp only [Option.bind_some, hrun]
            exact .some (h.setDatabase _ _)

end Connection

/-! ## What is left alone -/

/-- What was seen of a host is still seen, and nothing was taken away. -/
structure Host.Leaves (view : View) (before after : Host) : Prop where
  alike : before.Alike view after
  grows : FileSystem.Grows before.files after.files

namespace Host

theorem Leaves.refl (view : View) (host : Host) : host.Leaves view host :=
  ⟨.refl _ _, .refl _⟩

theorem Leaves.trans {view : View} {a b c : Host} (h : a.Leaves view b) (h' : b.Leaves view c) :
    a.Leaves view c :=
  ⟨h.alike.trans h'.alike, h.grows.trans h'.grows⟩

/-- Opening a database leaves alone what is seen, unless it makes a file there. The connection
is to that file or to memory. -/
theorem leaves_open? {view : View} {host next : Host} {opening : Opening} {connection : Connection}
    (h : host.open? opening = some (connection, next))
    (hclear : opening.isTransient = false → opening.creates = true →
      NameMap.get? host.files opening.file = none → ¬ view.nodes opening.file) :
    host.Leaves view next ∧ ∀ path, connection.place = .file path →
      opening.isTransient = false ∧ path = opening.file := by
  obtain ⟨htransient, rfl⟩ | ⟨htransient, names, hnames, hmade, rfl⟩ := open?_cases h
  · refine ⟨.refl _ _, fun path hpath => ?_⟩
    simp only [open?, htransient, if_true, pure, Option.some.injEq, Prod.mk.injEq] at h
    rw [← h.1] at hpath
    cases hpath
  · obtain ⟨rfl, -⟩ := eq_endOf_of_names? hnames
    refine ⟨?_, fun path hpath => ?_⟩
    · rcases withFile?_cases hmade with ⟨rfl, -⟩ | ⟨hnode, rfl⟩
      · exact .refl _ _
      · have hcreates : opening.creates = true := by
          simp only [withFile?, hnode, Option.ite_none_right_eq_some, Bool.and_eq_true] at hmade
          exact hmade.1.1
        obtain ⟨-, hmissing⟩ := get?_of_nodeAt?_eq_none hnode
        exact ⟨⟨FileSystem.alike_insert (hclear htransient hcreates hmissing) _ _,
          fun _ _ => rfl⟩, FileSystem.grows_insert _ _ _⟩
    · cases hpath
      exact ⟨htransient, rfl⟩

end Host

/-- Statements on a database leave alone what is seen, unless that database is. -/
theorem Connection.leaves_run? {view : View} {host next : Host} {connection : Connection}
    {statements : List Sql.Statement} (h : connection.run? statements host = some next)
    (hplace : ∀ path, connection.place = .file path → ¬ view.databases path) :
    host.Leaves view next := by
  have hfound : ∃ db, next = host.setDatabase connection.place db := by
    simp only [run?, bind, pure] at h
    split at h
    · cases h
    · obtain ⟨db, -, h⟩ := Option.bind_eq_some_iff.mp h
      obtain ⟨after, -, h⟩ := Option.bind_eq_some_iff.mp h
      exact ⟨after, (Option.some.inj h).symm⟩
  obtain ⟨db, rfl⟩ := hfound
  cases hfile : connection.place with
  | memory => exact .refl _ _
  | file path =>
      refine ⟨⟨.refl _ _, fun other hother => ?_⟩, .refl _⟩
      have hne : path ≠ other := fun heq => hplace path hfile (heq ▸ hother)
      simp only [Host.setDatabase, NameMap.get?_insert_of_ne _ _ hne]

end Sqlite

end ProjectHub
