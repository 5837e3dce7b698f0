import ProjectHub.Files
import ProjectHub.Proofs.NameMap
import ProjectHub.Proofs.Run

/-!
# File systems that look alike

A walk from the root looks at the paths that it comes to and at no others. File systems
that are alike on these lead it to the same end. Whether a file has one content or
another makes no difference, but a file without content is like no other. A walk to a
directory has come over directories only, so it is possible wherever these are.
-/

namespace ProjectHub

/-! ## Nodes -/

/-- Nodes that no database tells apart: two directories, two files without content, or two files
with content of their own. -/
inductive FileNode.Alike : FileNode → FileNode → Prop where
  | directory : Alike .directory .directory
  | file {a b : List UInt8} (h : a = [] ↔ b = []) : Alike (.file a) (.file b)

namespace FileNode.Alike

theorem refl : (node : FileNode) → node.Alike node
  | .directory => .directory
  | .file _ => .file Iff.rfl

theorem symm {a b : FileNode} (h : a.Alike b) : b.Alike a := by
  cases h with
  | directory => exact .directory
  | file h => exact .file h.symm

theorem trans {a b c : FileNode} (hab : a.Alike b) (hbc : b.Alike c) : a.Alike c := by
  cases hab with
  | directory => exact hbc
  | file hab =>
      cases hbc with
      | file hbc => exact .file (hab.trans hbc)

end FileNode.Alike

namespace FileSystem

/-- File systems that are alike on paths. -/
def Alike (paths : String → Prop) (fs fs' : FileSystem) : Prop :=
  ∀ path, paths path → Option.Rel FileNode.Alike (NameMap.get? fs path) (NameMap.get? fs' path)

theorem Alike.refl (paths : String → Prop) (fs : FileSystem) : Alike paths fs fs := by
  intro path _
  cases NameMap.get? fs path with
  | none => exact .none
  | some node => exact .some (.refl node)

theorem Alike.symm {paths : String → Prop} {fs fs' : FileSystem} (h : Alike paths fs fs') :
    Alike paths fs' fs := by
  intro path hpath
  have hrel := h path hpath
  generalize NameMap.get? fs path = node at hrel
  generalize NameMap.get? fs' path = node' at hrel
  cases hrel with
  | none => exact .none
  | some hnode => exact .some hnode.symm

theorem Alike.trans {paths : String → Prop} {fs fs' fs'' : FileSystem}
    (h : Alike paths fs fs') (h' : Alike paths fs' fs'') : Alike paths fs fs'' := by
  intro path hpath
  have hrel := h path hpath
  have hrel' := h' path hpath
  generalize NameMap.get? fs path = node at hrel
  generalize NameMap.get? fs' path = node' at hrel hrel'
  generalize NameMap.get? fs'' path = node'' at hrel'
  cases hrel with
  | none => exact hrel'
  | some hnode =>
      cases hrel' with
      | some hnode' => exact .some (hnode.trans hnode')

/-- A node put under one path into both leaves file systems alike. -/
theorem Alike.insert {paths : String → Prop} {fs fs' : FileSystem} (h : Alike paths fs fs')
    (path : String) {node node' : FileNode} (hnode : node.Alike node') :
    Alike paths (NameMap.insert fs path node) (NameMap.insert fs' path node') := by
  intro other hother
  rw [NameMap.get?_insert, NameMap.get?_insert]
  split
  · exact .some hnode
  · exact h other hother

/-- A node put under another path is not seen. -/
theorem alike_insert {paths : String → Prop} {path : String} (h : ¬ paths path)
    (fs : FileSystem) (node : FileNode) : Alike paths fs (NameMap.insert fs path node) := by
  intro other hother
  have hne : path ≠ other := fun heq => h (heq ▸ hother)
  rw [NameMap.get?_insert_of_ne _ _ hne]
  exact Alike.refl paths fs other hother

/-! ## Walks -/

/-- Names that lead down from the root without detours. -/
def Descends (names : List String) : Prop :=
  ∀ name ∈ names, name ≠ "" ∧ name ≠ "." ∧ name ≠ ".."

theorem Descends.dropLast {names : List String} (h : Descends names) : Descends names.dropLast :=
  fun name hname => h name (List.dropLast_subset _ hname)

theorem Descends.append {names : List String} (h : Descends names) {name : String}
    (hname : name ≠ "" ∧ name ≠ "." ∧ name ≠ "..") : Descends (names ++ [name]) := by
  intro other hother
  rcases List.mem_append.mp hother with hother | hother
  · exact h other hother
  · rw [List.mem_singleton.mp hother]
    exact hname

/-- Whether names lead over a path that is not the root. -/
def LeadsOver (path : String) (names : List String) : Prop :=
  ∃ front, front ≠ [] ∧ front <+: names ∧ pathOf front = path

/-- The names from the root down that a path leads to after the names `above`. -/
def endOf : List String → List String → List String
  | above, [] => above
  | above, name :: rest =>
    if name = "" ∨ name = "." then endOf above rest
    else if name = ".." then endOf above.dropLast rest
    else endOf (above ++ [name]) rest

theorem descends_endOf {above : List String} (h : Descends above)
    (parts : List String) : Descends (endOf above parts) := by
  induction parts generalizing above with
  | nil => exact h
  | cons name parts ih =>
      simp only [endOf]
      split
      · exact ih h
      · rename_i hskip
        split
        · exact ih h.dropLast
        · rename_i hback
          exact ih (h.append ⟨fun hempty => hskip (.inl hempty), fun hdot => hskip (.inr hdot),
            hback⟩)

/-- Whether a walk comes to a path. -/
def Passes (path : String) : List String → List String → Prop
  | _, [] => False
  | above, name :: rest =>
    if name = "" ∨ name = "." then Passes path above rest
    else if name = ".." then Passes path above.dropLast rest
    else pathOf (above ++ [name]) = path ∨ Passes path (above ++ [name]) rest

theorem leadsOver_of_passes {path : String} {above names : List String} (hdescends : Descends names)
    (h : Passes path above names) : LeadsOver path (above ++ names) := by
  induction names generalizing above with
  | nil => exact h.elim
  | cons name names ih =>
      obtain ⟨hempty, hdot, hback⟩ := hdescends name List.mem_cons_self
      have hplain : ¬ (name = "" ∨ name = ".") := by
        rintro (hname | hname)
        · exact hempty hname
        · exact hdot hname
      simp only [Passes, if_neg hplain, if_neg hback] at h
      rcases h with hpath | hrest
      · exact ⟨above ++ [name], by simp, ⟨names, by simp⟩, hpath⟩
      · have hover := ih (fun other hother => hdescends other (List.mem_cons_of_mem _ hother)) hrest
        rwa [List.append_assoc, List.singleton_append] at hover

/-- A walk ends where its names say. -/
theorem eq_endOf_of_follow {fs : FileSystem} {above names place : List String} {node : FileNode}
    (h : follow above names fs = .ok (place, node)) : place = endOf above names := by
  induction names generalizing above with
  | nil =>
      cases h
      rfl
  | cons name names ih =>
      simp only [follow] at h
      simp only [endOf]
      split at h
      · rename_i hskip
        rw [if_pos hskip]
        exact ih h
      · rename_i hskip
        rw [if_neg hskip]
        split at h
        · rename_i hback
          rw [if_pos hback]
          exact ih h
        · rename_i hback
          rw [if_neg hback]
          split at h
          · cases h
          · split at h
            · cases h
            · exact ih h
            · rename_i content hnode
              split at h
              · rename_i hrest
                cases h
                rw [List.isEmpty_iff.mp hrest, endOf]
              · cases h

section Walks

variable {paths : String → Prop} {fs fs' : FileSystem} (h : Alike paths fs fs')
include h

theorem Alike.nodeAt? (names : List String) (hpath : names ≠ [] → paths (pathOf names)) :
    Option.Rel FileNode.Alike (nodeAt? names fs) (nodeAt? names fs') := by
  unfold FileSystem.nodeAt?
  cases names with
  | nil => exact .some .directory
  | cons name names => exact h _ (hpath (List.cons_ne_nil _ _))

/-- A walk ends alike where everything that it comes to is alike. -/
theorem Alike.follow (above names : List String)
    (hpasses : ∀ path, Passes path above names → paths path) :
    Matches (fun found found' => found.1 = found'.1 ∧ found.2.Alike found'.2)
      (follow above names fs) (follow above names fs') := by
  induction names generalizing above with
  | nil => exact .ok ⟨rfl, .directory⟩
  | cons name names ih =>
      simp only [Passes] at hpasses
      simp only [FileSystem.follow]
      by_cases hskip : name = "" ∨ name = "."
      · simp only [if_pos hskip] at hpasses ⊢
        exact ih above hpasses
      · simp only [if_neg hskip] at hpasses ⊢
        by_cases hback : name = ".."
        · simp only [if_pos hback] at hpasses ⊢
          exact ih above.dropLast hpasses
        · simp only [if_neg hback] at hpasses ⊢
          split
          · exact .error _
          · have hnode := h.nodeAt? (above ++ [name]) fun _ => hpasses _ (.inl rfl)
            generalize FileSystem.nodeAt? (above ++ [name]) fs = node at hnode
            generalize FileSystem.nodeAt? (above ++ [name]) fs' = node' at hnode
            cases hnode with
            | none => exact .error _
            | some hnode =>
                cases hnode with
                | directory => exact ih _ fun path hpath => hpasses path (.inr hpath)
                | file hcontent =>
                    simp only
                    split
                    · exact .ok ⟨rfl, .file hcontent⟩
                    · exact .error _

theorem Alike.directoryAt {names : List String}
    (hpasses : ∀ path, Passes path [] names → paths path) :
    directoryAt names fs = directoryAt names fs' := by
  have hfound := h.follow [] names hpasses
  simp only [FileSystem.directoryAt, bind, Except.bind]
  generalize FileSystem.follow [] names fs = found at hfound
  generalize FileSystem.follow [] names fs' = found' at hfound
  cases hfound with
  | error fault => rfl
  | @ok found found' hfound =>
      obtain ⟨place, node⟩ := found
      obtain ⟨place', node'⟩ := found'
      obtain ⟨rfl, hnode⟩ := hfound
      cases hnode <;> rfl

end Walks

/-! ## What is left alone -/

/-- Whether nothing is taken away: under each path where something stood something stands. -/
def Grows (before after : FileSystem) : Prop :=
  ∀ path, (NameMap.get? before path).isSome = true → (NameMap.get? after path).isSome = true

theorem Grows.refl (fs : FileSystem) : Grows fs fs := fun _ => id

theorem Grows.trans {a b c : FileSystem} (h : Grows a b) (h' : Grows b c) : Grows a c :=
  fun path hpath => h' path (h path hpath)

/-- Where nothing stands, nothing stood. -/
theorem Grows.get?_eq_none {before after : FileSystem} (h : Grows before after) {path : String}
    (hnone : NameMap.get? after path = none) : NameMap.get? before path = none := by
  by_contra hstood
  have hstands := h path (Option.isSome_iff_ne_none.mpr hstood)
  rw [hnone] at hstands
  cases hstands

theorem grows_insert (fs : FileSystem) (path : String) (node : FileNode) :
    Grows fs (NameMap.insert fs path node) := by
  intro other hother
  rw [NameMap.get?_insert]
  split
  · rfl
  · exact hother

/-! ## Paths that go on from a folder -/

/-- In one directory a path has one name at its end. -/
theorem pathOf_concat_inj {above : List String} {name other : String} :
    pathOf (above ++ [name]) = pathOf (above ++ [other]) ↔ name = other := by
  induction above with
  | nil => simp [pathOf]
  | cons first above ih =>
      rw [← ih]
      cases above <;>
        simp [pathOf, String.intercalate_cons_cons, ← String.toList_inj]

theorem splitOn_append_slash (cs rest : List Char) :
    (cs ++ '/' :: rest).splitOn '/' = cs.splitOn '/' ++ rest.splitOn '/' :=
  List.splitOnP_append_cons cs rest (beq_self_eq_true '/')

theorem splitOn_of_not_mem {cs : List Char} (h : '/' ∉ cs) : cs.splitOn '/' = [cs] :=
  List.splitOnP_eq_singleton fun _ hc => beq_false_of_ne fun heq => h (heq ▸ hc)

section

variable {folder name : String} {names : List String}

theorem folderNames_eq_ok (h : folderNames folder = .ok names) :
    (folder = "" ∧ names = []) ∨
      (folder ≠ "" ∧ '\x00' ∉ folder.toList ∧
        names = (folder.toList.splitOn '/').map String.ofList) := by
  unfold folderNames at h
  split at h
  · rename_i hempty
    cases h
    exact .inl ⟨String.isEmpty_iff.mp hempty, rfl⟩
  · rename_i hempty
    unfold namesOf at h
    rw [if_neg hempty] at h
    split at h
    · cases h
    · rename_i hnul
      split at h
      · cases h
      · cases h
        exact .inr ⟨fun hfolder => hempty (String.isEmpty_iff.mpr hfolder), by simpa using hnul, rfl⟩

/-- A path that goes on from a folder by one name. -/
theorem toList_joined (hslash : '/' ∉ name.toList) (h : folderNames folder = .ok names) :
    ∃ front : List Char, (joined folder name).toList = front ++ name.toList ∧ '\x00' ∉ front ∧
      ∃ parts : List String,
        ((joined folder name).toList.splitOn '/').map String.ofList = parts ++ [name] ∧
        (parts.filter fun part => part ≠ "") = names.filter fun part => part ≠ "" := by
  have hhead : name.toList.head? ≠ some '/' := fun hhead => hslash (List.mem_of_head? hhead)
  have hname : (name.toList.splitOn '/').map String.ofList = [name] := by
    rw [splitOn_of_not_mem hslash, List.map_singleton, String.ofList_toList]
  have hsplit (cs : List Char) : ((cs ++ '/' :: name.toList).splitOn '/').map String.ofList =
      (cs.splitOn '/').map String.ofList ++ [name] := by
    rw [splitOn_append_slash, List.map_append, hname]
  rw [joined, if_neg hhead]
  rcases folderNames_eq_ok h with ⟨rfl, rfl⟩ | ⟨hfolder, hnul, rfl⟩
  · exact ⟨[], rfl, List.not_mem_nil, [], hname, rfl⟩
  · split
    · rename_i hnone
      exact absurd (String.toList_eq_nil_iff.mp (List.getLast?_eq_none_iff.mp hnone)) hfolder
    · rename_i hlast
      obtain ⟨cs, hcs⟩ := List.getLast?_eq_some_iff.mp hlast
      rw [hcs] at hnul
      refine ⟨cs ++ ['/'], by simp [hcs], hnul, (cs.splitOn '/').map String.ofList, ?_, ?_⟩
      · rw [String.toList_append, hcs, List.append_assoc, List.singleton_append, hsplit]
      · rw [hcs, splitOn_append_slash, List.map_append, List.filter_append]
        simp
    · refine ⟨folder.toList ++ ['/'], by simp, by simpa using hnul,
        (folder.toList.splitOn '/').map String.ofList, ?_, rfl⟩
      rw [String.toList_append, String.toList_append, List.append_assoc]
      exact hsplit _

/-- The names of such a path are those of the folder and the one by which it goes on. -/
theorem namesOf_joined (hslash : '/' ∉ name.toList) (hname : name ≠ "")
    (h : folderNames folder = .ok names) :
    ∃ parts : List String,
      (parts.filter fun part => part ≠ "") = (names.filter fun part => part ≠ "") ∧
      namesOf (joined folder name) =
        if name.toList.contains '\x00' then .error .nulInName
        else if maxPath < (joined folder name).utf8ByteSize then .error .nameTooLong
        else .ok (parts ++ [name]) := by
  obtain ⟨front, htext, hnul, parts, hsplit, hparts⟩ := toList_joined hslash h
  refine ⟨parts, hparts, ?_⟩
  have hempty : ¬(joined folder name).isEmpty = true := by
    rw [String.isEmpty_iff, ← String.toList_eq_nil_iff, htext, List.append_eq_nil_iff]
    exact fun hnil => hname (String.toList_eq_nil_iff.mp hnil.2)
  have hcontains : (joined folder name).toList.contains '\x00' = name.toList.contains '\x00' := by
    simp [htext, hnul]
  rw [namesOf, if_neg hempty, hcontains, hsplit]

end

/-! ## Walks to directories -/

/-- From the place `above`, names lead over directories to the last of the places. -/
inductive Leads (fs : FileSystem) : List String → List String → List String → Prop where
  | here (above : List String) : Leads fs above [] above
  | stay {above place rest : List String} {name : String} (hskip : name = "" ∨ name = ".")
      (h : Leads fs above rest place) : Leads fs above (name :: rest) place
  | back {above place rest : List String} (h : Leads fs above.dropLast rest place) :
      Leads fs above (".." :: rest) place
  | down {above place rest : List String} {name : String} (hskip : ¬(name = "" ∨ name = "."))
      (hback : name ≠ "..") (hsize : name.utf8ByteSize ≤ maxName)
      (hnode : nodeAt? (above ++ [name]) fs = some .directory)
      (h : Leads fs (above ++ [name]) rest place) : Leads fs above (name :: rest) place

section Walks

variable {fs fs' : FileSystem} {above front names place rest : List String}

theorem Leads.follow_append (h : Leads fs above front place) (rest : List String) :
    follow above (front ++ rest) fs = follow place rest fs := by
  induction h with
  | here above => rfl
  | stay hskip h ih => rw [List.cons_append, follow, if_pos hskip, ih]
  | back h ih => rw [List.cons_append, follow, if_neg (by decide), if_pos rfl, ih]
  | down hskip hback hsize hnode h ih =>
      rw [List.cons_append, follow, if_neg hskip, if_neg hback, if_neg (Nat.not_lt.mpr hsize)]
      simp only [hnode, ih]

theorem follow_eq_directory_iff :
    follow above names fs = .ok (place, .directory) ↔ Leads fs above names place := by
  constructor
  · intro h
    fun_induction follow above names fs with
    | case1 above fs =>
        cases h
        exact .here _
    | case2 above name rest fs hskip ih => exact .stay hskip (ih h)
    | case3 above rest fs hskip ih => exact .back (ih h)
    | case6 above name rest fs hskip hback hsize hnode ih =>
        exact .down hskip hback (Nat.le_of_not_lt hsize) hnode (ih h)
    | _ => cases h
  · intro h
    simpa [follow] using h.follow_append []

theorem directoryAt_eq_ok_iff : directoryAt names fs = .ok place ↔ Leads fs [] names place := by
  rw [← follow_eq_directory_iff]
  simp only [directoryAt, bind, Except.bind]
  cases follow [] names fs with
  | error fault => simp
  | ok found =>
      obtain ⟨place, node⟩ := found
      cases node with
      | directory => simp [pure, Except.pure]
      | file content => simp [throw, throwThe, MonadExceptOf.throw]

/-- A walk to a directory ends where its names do. -/
theorem Leads.eq_endOf (h : Leads fs above names place) : place = endOf above names :=
  eq_endOf_of_follow (follow_eq_directory_iff.mpr h)

/-- A walk to a directory is possible wherever the directories are. -/
theorem Leads.mono (hkept : ∀ path, NameMap.get? fs path = some .directory →
      NameMap.get? fs' path = some .directory) (h : Leads fs above names place) :
    Leads fs' above names place := by
  induction h with
  | here above => exact .here above
  | stay hskip h ih => exact .stay hskip ih
  | back h ih => exact .back ih
  | @down above place rest name hskip hback hsize hnode h ih =>
      refine .down hskip hback hsize ?_ ih
      have hnonempty : (above ++ [name]).isEmpty = false := by simp
      simp only [nodeAt?, hnonempty] at hnode ⊢
      exact hkept _ hnode

theorem Leads.append (h : Leads fs above front place) {last : List String}
    (h' : Leads fs place rest last) : Leads fs above (front ++ rest) last := by
  rw [← follow_eq_directory_iff, h.follow_append, follow_eq_directory_iff]
  exact h'

/-- Empty names do not count. -/
theorem leads_filter_iff :
    Leads fs above (names.filter fun name => name ≠ "") place ↔ Leads fs above names place := by
  constructor
  · intro h
    induction names generalizing above with
    | nil => exact h
    | cons name names ih =>
        by_cases hname : name = ""
        · subst hname
          exact .stay (.inl rfl) (ih h)
        · rw [List.filter_cons_of_pos (by simpa using hname)] at h
          cases h with
          | stay hskip h => exact .stay hskip (ih h)
          | back h => exact .back (ih h)
          | down hskip hback hsize hnode h => exact .down hskip hback hsize hnode (ih h)
  · intro h
    induction h with
    | here above => exact .here above
    | @stay above place rest name hskip h ih =>
        by_cases hname : name = ""
        · subst hname
          exact ih
        · rw [List.filter_cons_of_pos (by simpa using hname)]
          exact .stay hskip ih
    | back h ih => exact .back ih
    | @down above place rest name hskip hback hsize hnode h ih =>
        have hname : name ≠ "" := fun hname => hskip (.inl hname)
        rw [List.filter_cons_of_pos (by simpa using hname)]
        exact .down hskip hback hsize hnode ih

end Walks

end FileSystem

end ProjectHub
