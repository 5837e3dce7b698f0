import ProjectHub.Edge.Folder
import ProjectHub.Proofs.Files

/-!
# Records beside databases

To put a record into a folder makes the directories that are missing on the way to the
folder, and writes one file in it if a file may have its name; nothing else changes. File
systems that are alike stay alike when records of one key are put into both, whatever
content they have.
-/

namespace ProjectHub

namespace FileSystem

/-! ## What is made on the way to a folder -/

/-- Whether a path is on the way to a folder, or that of the folder itself. -/
def IsOnWay (directory path : String) : Prop :=
  ∃ names front, folderNames directory = .ok names ∧
    front <+: names.filter (fun name => name ≠ "" && name ≠ ".") ∧ pathOf (endOf [] front) = path

/-- Whether a path is that of a file right in a folder. -/
def IsIn (directory path : String) : Prop :=
  ∃ names name, folderNames directory = .ok names ∧ pathOf (endOf [] names ++ [name]) = path

theorem folderNames_kv : folderNames "kv" = .ok ["kv"] := rfl

theorem endOf_append (above front rest : List String) :
    endOf above (front ++ rest) = endOf (endOf above front) rest := by
  induction front generalizing above with
  | nil => rfl
  | cons name front ih =>
      simp only [List.cons_append, endOf, ih]
      split
      · rfl
      · split <;> rfl

/-- Names that stay where they are count for nothing. -/
theorem endOf_filter {keeps : String → Bool}
    (h : ∀ name, keeps name = false → name = "" ∨ name = ".")
    (above names : List String) : endOf above (names.filter keeps) = endOf above names := by
  induction names generalizing above with
  | nil => rfl
  | cons name names ih =>
      cases hkeeps : keeps name with
      | true =>
          rw [List.filter_cons_of_pos hkeeps]
          simp only [endOf, ih]
      | false =>
          rw [List.filter_cons_of_neg (by simp [hkeeps]), ih]
          simp only [endOf, if_pos (h name hkeeps)]

/-- The directory that names lead to is where they end. -/
theorem eq_endOf_of_directoryAt {names above : List String} {fs : FileSystem}
    (h : directoryAt names fs = .ok above) : above = endOf [] names :=
  (directoryAt_eq_ok_iff.mp h).eq_endOf

/-- Whether a path stands for what it stood for, or for a directory that was made where nothing
stood. -/
def OnlyMadeAt (paths : String → Prop) (before after : FileSystem) (path : String) : Prop :=
  (NameMap.get? before path = none ∧ paths path ∧ NameMap.get? after path = some .directory) ∨
    NameMap.get? after path = NameMap.get? before path

/-- Where file systems differ, the one has nothing and the other a directory that was made. -/
def OnlyMakes (paths : String → Prop) (before after : FileSystem) : Prop :=
  ∀ path, OnlyMadeAt paths before after path

section Making

variable {paths : String → Prop}

theorem OnlyMadeAt.trans {a b c : FileSystem} {path : String} (h : OnlyMadeAt paths a b path)
    (h' : OnlyMadeAt paths b c path) : OnlyMadeAt paths a c path := by
  rcases h with ⟨hnone, hpath, hmade⟩ | hsame
  · rcases h' with ⟨hnone', -, -⟩ | hsame'
    · rw [hmade] at hnone'
      cases hnone'
    · exact .inl ⟨hnone, hpath, hsame'.trans hmade⟩
  · rcases h' with ⟨hnone, hpath, hmade⟩ | hsame'
    · exact .inl ⟨hsame ▸ hnone, hpath, hmade⟩
    · exact .inr (hsame'.trans hsame)

theorem OnlyMakes.refl (fs : FileSystem) : OnlyMakes paths fs fs := fun _ => .inr rfl

theorem OnlyMakes.trans {a b c : FileSystem} (h : OnlyMakes paths a b)
    (h' : OnlyMakes paths b c) : OnlyMakes paths a c :=
  fun path => (h path).trans (h' path)

/-- A directory is made in one that is there, under a name that stands for nothing yet. -/
theorem exists_of_makeDirectory {names : List String} {fs made : FileSystem}
    (h : makeDirectory names fs = .ok made) :
    ∃ front name above, (names.filter fun name => name ≠ "") = front ++ [name] ∧
      directoryAt front fs = .ok above ∧ (name ≠ "" ∧ name ≠ "." ∧ name ≠ "..") ∧
      name.utf8ByteSize ≤ maxName ∧ NameMap.get? fs (pathOf (above ++ [name])) = none ∧
      made = NameMap.insert fs (pathOf (above ++ [name])) .directory := by
  simp only [makeDirectory] at h
  cases hlast : (names.filter fun name => name ≠ "").getLast? with
  | none =>
      simp only [hlast] at h
      cases h
  | some name =>
      simp only [hlast] at h
      obtain ⟨above, habove, h⟩ := exists_of_bind_ok h
      obtain ⟨front, hfront⟩ := List.getLast?_eq_some_iff.mp hlast
      have hname : name ≠ "" := by
        have hmem : name ∈ names.filter fun name => name ≠ "" := by
          rw [hfront]
          exact List.mem_append_right _ (List.mem_singleton.mpr rfl)
        simpa using (List.mem_filter.mp hmem).2
      split at h
      · cases h
      · rename_i hdots
        rw [not_or] at hdots
        split at h
        · cases h
        · rename_i hsize
          split at h
          · cases h
          · rename_i hfree
            rw [hfront, List.dropLast_concat] at habove
            have hnone : nodeAt? (above ++ [name]) fs = none := by
              simpa using hfree
            unfold nodeAt? at hnone
            rw [if_neg (by simp)] at hnone
            cases h
            exact ⟨front, name, above, hfront, habove, ⟨hname, hdots.1, hdots.2⟩,
              Nat.le_of_not_lt hsize, hnone, rfl⟩

/-- A directory is made where its names end, if nothing stands there. -/
theorem makeDirectory_eq_ok {names : List String} {fs made : FileSystem}
    (h : makeDirectory names fs = .ok made) :
    NameMap.get? fs (pathOf (endOf [] names)) = none ∧
      made = NameMap.insert fs (pathOf (endOf [] names)) .directory := by
  have hkeeps (name : String) (hname : decide (name ≠ "") = false) : name = "" ∨ name = "." :=
    .inl (by simpa using hname)
  obtain ⟨front, name, above, hfront, habove, ⟨hempty, hdot, hback⟩, -, hnone, hmade⟩ :=
    exists_of_makeDirectory h
  have hplain : ¬(name = "" ∨ name = ".") := not_or.mpr ⟨hempty, hdot⟩
  have hend : endOf [] names = above ++ [name] := by
    rw [← endOf_filter hkeeps, hfront, endOf_append, ← eq_endOf_of_directoryAt habove]
    simp only [endOf, if_neg hplain, if_neg hback]
  rw [hend]
  exact ⟨hnone, hmade⟩

theorem onlyMakes_settle {names : List String} (hnames : paths (pathOf (endOf [] names)))
    (fs : FileSystem) : OnlyMakes paths fs (settle names fs).1 := by
  unfold settle
  cases hmade : makeDirectory names fs with
  | error fault => exact .refl _
  | ok made =>
      obtain ⟨hnone, rfl⟩ := makeDirectory_eq_ok hmade
      intro path
      by_cases hpath : pathOf (endOf [] names) = path
      · subst hpath
        exact .inl ⟨hnone, hnames, NameMap.get?_insert_self _ _ _⟩
      · exact .inr (NameMap.get?_insert_of_ne _ _ hpath)

theorem onlyMakes_makeDirectories {names above : List String}
    (hnames : paths (pathOf (endOf [] names)))
    (habove : ∀ front, front <+: above.reverse → paths (pathOf (endOf [] front)))
    (fs : FileSystem) : OnlyMakes paths fs (makeDirectories names above fs).1 := by
  induction above generalizing names with
  | nil =>
      rw [makeDirectories]
      split <;> exact onlyMakes_settle hnames fs
  | cons last rest ih =>
      rw [makeDirectories]
      split
      · have hfirst := ih (habove _ List.prefix_rfl) fun front hfront =>
          habove front (hfront.trans (by simp))
        split
        · rename_i made hmade
          rw [hmade] at hfirst
          exact hfirst.trans (onlyMakes_settle hnames _)
        · rename_i made fault hmade
          rw [hmade] at hfirst
          exact hfirst
      · exact onlyMakes_settle hnames fs

/-- Making a folder makes nothing but what is missing on the way to it. -/
theorem onlyMakes_createDirectories (directory : String) (fs : FileSystem) :
    OnlyMakes (IsOnWay directory) fs (createDirectories directory fs).1 := by
  unfold createDirectories
  cases hnames : folderNames directory with
  | error fault => exact .refl _
  | ok names =>
      have hend : endOf [] (names.filter fun name => name ≠ "" && name ≠ ".") = endOf [] names := by
        refine endOf_filter (fun name hname => ?_) [] names
        rcases Bool.and_eq_false_iff.mp hname with hempty | hdot
        · exact .inl (by simpa using hempty)
        · exact .inr (by simpa using hdot)
      refine onlyMakes_makeDirectories ⟨names, _, hnames, List.prefix_rfl, congrArg pathOf hend⟩
        (fun front hfront => ?_) fs
      rw [List.reverse_reverse] at hfront
      exact ⟨names, front, hnames, hfront.trans (List.dropLast_prefix _), rfl⟩

theorem OnlyMakes.leaves {before after : FileSystem} {on : String → Prop}
    (h : OnlyMakes on before after)
    (hclear : ∀ path, on path → NameMap.get? before path = none → ¬ paths path) :
    Alike paths before after ∧ Grows before after := by
  constructor
  · intro path hpath
    rcases h path with ⟨hnone, hon, -⟩ | hsame
    · exact absurd hpath (hclear path hon hnone)
    · rw [hsame]
      exact Alike.refl paths before path hpath
  · intro path hsome
    rcases h path with ⟨hnone, -, -⟩ | hsame
    · rw [hnone] at hsome
      cases hsome
    · rwa [hsame]

end Making

/-! ## The folder is there -/

theorem leads_makeDirectory {names : List String} {fs made : FileSystem}
    (h : makeDirectory names fs = .ok made) : ∃ place, Leads made [] names place := by
  obtain ⟨front, name, above, hfront, habove, ⟨hempty, hdot, hback⟩, hsize, hnone, rfl⟩ :=
    exists_of_makeDirectory h
  refine ⟨above ++ [name], leads_filter_iff.mp ?_⟩
  rw [hfront]
  refine (Leads.mono (fun path hpath => ?_) (directoryAt_eq_ok_iff.mp habove)).append
    (.down (not_or.mpr ⟨hempty, hdot⟩) hback hsize ?_ (.here _))
  · rw [NameMap.get?_insert]
    split
    · rfl
    · exact hpath
  · simp [nodeAt?]

theorem leads_settle {names : List String} {fs : FileSystem} (h : (settle names fs).2 = .ok ()) :
    ∃ place, Leads (settle names fs).1 [] names place := by
  unfold settle at h ⊢
  cases hmade : makeDirectory names fs with
  | ok made => exact leads_makeDirectory hmade
  | error fault =>
      simp only [hmade] at h
      split at h
      · rename_i hthere
        unfold isDirectory at hthere
        cases hplace : directoryAt names fs with
        | ok place => exact ⟨place, directoryAt_eq_ok_iff.mp hplace⟩
        | error fault =>
            rw [hplace] at hthere
            cases hthere
      · cases h

theorem leads_makeDirectories {names above : List String} {fs : FileSystem}
    (h : (makeDirectories names above fs).2 = .ok ()) :
    ∃ place, Leads (makeDirectories names above fs).1 [] names place := by
  cases above with
  | nil =>
      rw [makeDirectories] at h ⊢
      split at h <;> exact leads_settle h
  | cons last rest =>
      rw [makeDirectories] at h ⊢
      split at h
      · split at h
        · exact leads_settle h
        · cases h
      · exact leads_settle h

/-- A folder that could be made is there, where its names end. -/
theorem leads_createDirectories {directory : String} {fs : FileSystem}
    (h : (createDirectories directory fs).2 = .ok ()) : ∃ names,
      folderNames directory = .ok names ∧
        Leads (createDirectories directory fs).1 [] names (endOf [] names) := by
  unfold createDirectories at h ⊢
  cases hnames : folderNames directory with
  | error fault =>
      rw [hnames] at h
      cases h
  | ok names =>
      simp only [hnames] at h ⊢
      obtain ⟨place, hplace⟩ := leads_makeDirectories h
      refine ⟨names, rfl, ?_⟩
      rwa [← hplace.eq_endOf]

/-! ## What is written in a folder -/

/-- Whether a path is that of the file of a name, which is right in the folder. -/
def IsFileOf (directory name path : String) : Prop :=
  ∃ names, folderNames directory = .ok names ∧ pathOf (endOf [] names ++ [name]) = path

/-- Whether a file may have a name: it is within the limits for names and paths, and not that of a
directory. -/
structure Fits (directory name : String) (fs : FileSystem) : Prop where
  unmarked : '\x00' ∉ name.toList
  pathSize : (joined directory name).utf8ByteSize ≤ maxPath
  nameSize : name.utf8ByteSize ≤ maxName
  free : ∀ path, IsFileOf directory name path → NameMap.get? fs path ≠ some .directory

section Writing

variable {paths : String → Prop} {directory name other path : String} {names : List String}
  {fs : FileSystem}

theorem isFileOf_iff (hnames : folderNames directory = .ok names) :
    IsFileOf directory name path ↔ pathOf (endOf [] names ++ [name]) = path := by
  constructor
  · rintro ⟨names', hnames', hpath⟩
    rw [hnames] at hnames'
    cases hnames'
    exact hpath
  · exact fun hpath => ⟨names, hnames, hpath⟩

/-- Each file is that of one name. -/
theorem IsFileOf.name_eq (h : IsFileOf directory name path) (h' : IsFileOf directory other path) :
    name = other := by
  obtain ⟨names, hnames, rfl⟩ := h
  exact (pathOf_concat_inj.mp ((isFileOf_iff hnames).mp h')).symm

/-- A name without slashes, written after that of a folder, is the name of a file in the folder. -/
theorem writeFile_joined (hslash : '/' ∉ name.toList)
    (hname : name ≠ "" ∧ name ≠ "." ∧ name ≠ "..") (hnames : folderNames directory = .ok names)
    (content : List UInt8) :
    writeFile (joined directory name) content fs =
      if name.toList.contains '\x00' then (fs, .error .nulInName)
      else if maxPath < (joined directory name).utf8ByteSize then (fs, .error .nameTooLong)
      else
        match directoryAt (names.filter fun name => name ≠ "") fs with
        | .error fault => (fs, .error fault)
        | .ok above => writeIn above name content fs := by
  obtain ⟨parts, hparts, hall⟩ := namesOf_joined hslash hname.1 hnames
  have hfilter : ((parts ++ [name]).filter fun name => name ≠ "") =
      (names.filter fun name => name ≠ "") ++ [name] := by
    rw [List.filter_append, hparts, List.filter_cons_of_pos (by simpa using hname.1)]
    rfl
  have hfile : ¬(some name = some "" ∨ name = "." ∨ name = "..") := by
    simpa using hname
  by_cases hnul : name.toList.contains '\x00' = true
  · simp only [writeFile, hall, if_pos hnul]
  · by_cases hsize : maxPath < (joined directory name).utf8ByteSize
    · simp only [writeFile, hall, if_neg hnul, if_pos hsize]
    · simp only [writeFile, hall, if_neg hnul, if_neg hsize, hfilter, List.getLast?_concat,
        List.dropLast_concat]
      cases directoryAt (names.filter fun name => name ≠ "") fs with
      | error fault => simp only
      | ok above => simp only [if_neg hfile]

/-- A file is written where its name may stand. -/
theorem writeFile_cases (hslash : '/' ∉ name.toList)
    (hname : name ≠ "" ∧ name ≠ "." ∧ name ≠ "..") (hnames : folderNames directory = .ok names)
    (hleads : Leads fs [] names (endOf [] names)) (content : List UInt8) :
    (Fits directory name fs ∧ writeFile (joined directory name) content fs =
      (NameMap.insert fs (pathOf (endOf [] names ++ [name])) (.file content), .ok ())) ∨
    (¬Fits directory name fs ∧
      ∃ fault, writeFile (joined directory name) content fs = (fs, .error fault)) := by
  have hnode : nodeAt? (endOf [] names ++ [name]) fs =
      NameMap.get? fs (pathOf (endOf [] names ++ [name])) := by
    simp [nodeAt?]
  have hplace := directoryAt_eq_ok_iff.mpr (leads_filter_iff.mpr hleads)
  rw [writeFile_joined hslash hname hnames]
  simp only [hplace, writeIn, hnode]
  split
  · rename_i hnul
    exact .inr ⟨fun h => h.unmarked (by simpa using hnul), _, rfl⟩
  · rename_i hnul
    split
    · rename_i hpath
      exact .inr ⟨fun h => absurd h.pathSize (Nat.not_le.mpr hpath), _, rfl⟩
    · rename_i hpath
      split
      · rename_i hsize
        exact .inr ⟨fun h => absurd h.nameSize (Nat.not_le.mpr hsize), _, rfl⟩
      · rename_i hsize
        split
        · rename_i hdirectory
          exact .inr ⟨fun h => h.free _ ⟨names, hnames, rfl⟩ hdirectory, _, rfl⟩
        · rename_i hfree
          refine .inl ⟨⟨by simpa using hnul, Nat.le_of_not_lt hpath, Nat.le_of_not_lt hsize, ?_⟩,
            rfl⟩
          intro path hfile
          rw [isFileOf_iff hnames] at hfile
          exact hfile ▸ hfree

theorem writeFile_leaves (hslash : '/' ∉ name.toList)
    (hname : name ≠ "" ∧ name ≠ "." ∧ name ≠ "..") (hnames : folderNames directory = .ok names)
    (hleads : Leads fs [] names (endOf [] names))
    (hin : ∀ path, IsIn directory path → ¬ paths path) (content : List UInt8) :
    Alike paths fs (writeFile (joined directory name) content fs).1 ∧
      Grows fs (writeFile (joined directory name) content fs).1 := by
  rcases writeFile_cases hslash hname hnames hleads content with
    ⟨-, hwritten⟩ | ⟨-, fault, hfault⟩
  · rw [hwritten]
    exact ⟨alike_insert (hin _ ⟨names, name, hnames, rfl⟩) _ _, grows_insert _ _ _⟩
  · rw [hfault]
    exact ⟨.refl _ _, .refl _⟩

end Writing

/-! ## Puts into both of two file systems -/

section Whole

variable {fs fs' : FileSystem} (h : Alike (fun _ => True) fs fs')
include h

theorem Alike.directoryAt_whole (names : List String) :
    FileSystem.directoryAt names fs = FileSystem.directoryAt names fs' :=
  h.directoryAt fun _ _ => trivial

theorem Alike.makeDirectory (names : List String) :
    Matches (Alike fun _ => True) (FileSystem.makeDirectory names fs)
      (FileSystem.makeDirectory names fs') := by
  simp only [FileSystem.makeDirectory]
  cases (names.filter fun name => name ≠ "").getLast? with
  | none => exact .error _
  | some name =>
      simp only [h.directoryAt_whole, bind, Except.bind]
      cases FileSystem.directoryAt (names.filter fun name => name ≠ "").dropLast fs' with
      | error fault => exact .error fault
      | ok above =>
          have hnode : (FileSystem.nodeAt? (above ++ [name]) fs).isSome =
              (FileSystem.nodeAt? (above ++ [name]) fs').isSome := by
            have hrel := h.nodeAt? (above ++ [name]) fun _ => trivial
            generalize FileSystem.nodeAt? (above ++ [name]) fs = node at hrel
            generalize FileSystem.nodeAt? (above ++ [name]) fs' = node' at hrel
            cases hrel <;> rfl
          simp only [hnode]
          split
          · exact .error _
          · split
            · exact .error _
            · split
              · exact .error _
              · exact .ok (h.insert _ .directory)

theorem Alike.settle (names : List String) :
    (FileSystem.settle names fs).2 = (FileSystem.settle names fs').2 ∧
      Alike (fun _ => True) (FileSystem.settle names fs).1 (FileSystem.settle names fs').1 := by
  have hmade := h.makeDirectory names
  simp only [FileSystem.settle, isDirectory, h.directoryAt_whole]
  generalize FileSystem.makeDirectory names fs = made at hmade
  generalize FileSystem.makeDirectory names fs' = made' at hmade
  cases hmade with
  | error fault => exact ⟨rfl, h⟩
  | ok hmade => exact ⟨rfl, hmade⟩

theorem Alike.makeDirectories (names above : List String) :
    (FileSystem.makeDirectories names above fs).2 = (FileSystem.makeDirectories names above fs').2 ∧
      Alike (fun _ => True) (FileSystem.makeDirectories names above fs).1
        (FileSystem.makeDirectories names above fs').1 := by
  induction above generalizing names with
  | nil =>
      have hsettled := h.settle names
      rw [FileSystem.makeDirectories, FileSystem.makeDirectories]
      split <;> split <;> exact hsettled
  | cons last rest ih =>
      have hmade := h.makeDirectory names
      have hsettled := h.settle names
      obtain ⟨hanswer, hbelow⟩ := ih (last :: rest).reverse
      rw [FileSystem.makeDirectories, FileSystem.makeDirectories]
      generalize FileSystem.makeDirectory names fs = made at hmade
      generalize FileSystem.makeDirectory names fs' = made' at hmade
      generalize FileSystem.makeDirectories (last :: rest).reverse rest fs = below at *
      generalize FileSystem.makeDirectories (last :: rest).reverse rest fs' = below' at *
      obtain ⟨below, answer⟩ := below
      obtain ⟨below', answer'⟩ := below'
      obtain rfl : answer = answer' := hanswer
      cases hmade with
      | ok hmade => exact hsettled
      | error fault =>
          cases fault with
          | notFound =>
              cases answer with
              | ok u => exact hbelow.settle names
              | error fault => exact ⟨rfl, hbelow⟩
          | _ => exact hsettled

theorem Alike.createDirectories (directory : String) :
    (FileSystem.createDirectories directory fs).2 = (FileSystem.createDirectories directory fs').2 ∧
      Alike (fun _ => True) (FileSystem.createDirectories directory fs).1
        (FileSystem.createDirectories directory fs').1 := by
  simp only [FileSystem.createDirectories]
  cases folderNames directory with
  | error fault => exact ⟨rfl, h⟩
  | ok names => exact h.makeDirectories _ _

theorem Alike.writeFile (path : String) {content content' : List UInt8}
    (hcontent : content = [] ↔ content' = []) :
    (FileSystem.writeFile path content fs).2 = (FileSystem.writeFile path content' fs').2 ∧
      Alike (fun _ => True) (FileSystem.writeFile path content fs).1
        (FileSystem.writeFile path content' fs').1 := by
  simp only [FileSystem.writeFile, h.directoryAt_whole]
  cases namesOf path with
  | error fault => exact ⟨rfl, h⟩
  | ok all =>
      simp only
      cases (all.filter fun name => name ≠ "").getLast? with
      | none => exact ⟨rfl, h⟩
      | some name =>
          simp only
          cases FileSystem.directoryAt (all.filter fun name => name ≠ "").dropLast fs' with
          | error fault => exact ⟨rfl, h⟩
          | ok above =>
              simp only [writeIn]
              split
              · exact ⟨rfl, h⟩
              · split
                · exact ⟨rfl, h⟩
                · have hrel := h.nodeAt? (above ++ [name]) fun _ => trivial
                  have hnext := h.insert (pathOf (above ++ [name])) (.file hcontent)
                  generalize FileSystem.nodeAt? (above ++ [name]) fs = node at hrel
                  generalize FileSystem.nodeAt? (above ++ [name]) fs' = node' at hrel
                  cases hrel with
                  | none => exact ⟨rfl, hnext⟩
                  | some hnode =>
                      cases hnode with
                      | directory => exact ⟨rfl, h⟩
                      | file _ => exact ⟨rfl, hnext⟩

end Whole

end FileSystem

namespace Edge

open FileSystem (Alike Grows IsOnWay IsIn)

variable {paths : String → Prop} {directory : String}

/-- A key that may name a file leads nowhere else. -/
theorem plain_of_isFileKey {key : String} (h : isFileKey key = true) :
    '/' ∉ key.toList ∧ key ≠ "" ∧ key ≠ "." ∧ key ≠ ".." := by
  refine ⟨fun hslash => ?_, ?_, ?_, ?_⟩
  · simp [isFileKey, hslash] at h
  all_goals
    rintro rfl
    revert h
    decide

/-- A record that is put into a folder leaves alone what is neither in the folder nor missing on
the way to it. -/
theorem folderSink_leaves {fs : FileSystem}
    (hway : ∀ path, IsOnWay directory path → NameMap.get? fs path = none → ¬ paths path)
    (hin : ∀ path, IsIn directory path → ¬ paths path) (key : String) (value : List UInt8) :
    Alike paths fs ((folderSink directory).put key value fs).1 ∧
      Grows fs ((folderSink directory).put key value fs).1 := by
  simp only [folderSink]
  split
  · exact ⟨.refl _ _, .refl _⟩
  · rename_i hkey
    obtain ⟨hslash, hplain⟩ := plain_of_isFileKey (by simpa using hkey)
    obtain ⟨hmade, hgrows⟩ :=
      (FileSystem.onlyMakes_createDirectories directory fs).leaves hway
    have hthere := @FileSystem.leads_createDirectories directory fs
    generalize FileSystem.createDirectories directory fs = made at *
    obtain ⟨made, answer⟩ := made
    cases answer with
    | error fault => exact ⟨hmade, hgrows⟩
    | ok u =>
        obtain ⟨names, hnames, hleads⟩ := hthere rfl
        obtain ⟨hwritten, hgrows'⟩ :=
          FileSystem.writeFile_leaves hslash hplain hnames hleads hin value
        simp only at hmade hgrows hwritten hgrows' ⊢
        generalize FileSystem.writeFile (FileSystem.joined directory key) value made = written at *
        obtain ⟨written, answer⟩ := written
        cases answer <;> exact ⟨hmade.trans hwritten, hgrows.trans hgrows'⟩

theorem folderSink_alike {fs fs' : FileSystem} (h : Alike (fun _ => True) fs fs') (key : String)
    {value value' : List UInt8} (hvalue : value = [] ↔ value' = []) :
    Alike (fun _ => True) ((folderSink directory).put key value fs).1
      ((folderSink directory).put key value' fs').1 := by
  simp only [folderSink]
  split
  · exact h
  · obtain ⟨hanswer, hmade⟩ := h.createDirectories directory
    generalize FileSystem.createDirectories directory fs = made at *
    generalize FileSystem.createDirectories directory fs' = made' at *
    obtain ⟨made, answer⟩ := made
    obtain ⟨made', answer'⟩ := made'
    obtain rfl : answer = answer' := hanswer
    cases answer with
    | error fault => exact hmade
    | ok u =>
        obtain ⟨hanswer, hwritten⟩ := hmade.writeFile (FileSystem.joined directory key) hvalue
        simp only at hanswer hwritten ⊢
        generalize FileSystem.writeFile (FileSystem.joined directory key) value made = written at *
        generalize FileSystem.writeFile (FileSystem.joined directory key) value' made' = written' at *
        obtain ⟨written, answer⟩ := written
        obtain ⟨written', answer'⟩ := written'
        obtain rfl : answer = answer' := hanswer
        cases answer <;> exact hwritten

end Edge

end ProjectHub
