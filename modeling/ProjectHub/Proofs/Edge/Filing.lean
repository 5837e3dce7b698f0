import ProjectHub.Proofs.Edge.Folder
import ProjectHub.Proofs.Edge.Reporting

/-!
# Files of records

A folder keeps the record of each key in a file of its own, right in it. Main statement:
whatever puts are made, each file holds what was last accepted under its key, and nothing
else has changed but for directories that were missing on the way to the folder.
-/

namespace ProjectHub

namespace Edge

open FileSystem (Fits IsFileOf IsOnWay Leads OnlyMadeAt createDirectories endOf folderNames follow
  pathOf)

/-! ## One put -/

/-- Whether a key may name no file: it is empty, has a slash of either kind, or is hidden. -/
def Barred (key : String) : Prop :=
  key = "" ∨ '/' ∈ key.toList ∨ '\\' ∈ key.toList ∨ ∃ rest, key.toList = '.' :: rest

/-- Whether a folder takes the record of a key: the folder is there or can be made, and a file in it
may have the key as its name. -/
def Takes (directory key : String) (fs : FileSystem) : Prop :=
  (createDirectories directory fs).2 = .ok () ∧
    Fits directory key (createDirectories directory fs).1

section

variable {directory key : String} {value : List UInt8} {fs : FileSystem}

theorem isFileKey_iff : isFileKey key = true ↔ ¬Barred key := by
  rw [Barred, ← String.toList_inj]
  simp only [isFileKey]
  cases key.toList <;> simp [and_assoc]

theorem put_of_barred (h : Barred key) : (folderSink directory).put key value fs =
    (fs, .refused (.permanent ("key '" ++ key ++ "' is not a valid file name"))) := by
  have hkey : isFileKey key = false :=
    Bool.eq_false_iff.mpr fun hfile => isFileKey_iff.mp hfile h
  simp only [folderSink, hkey]
  rfl

/-- What becomes of a put under a key that may name a file: with the folder made, the file is written
if the folder takes it. -/
theorem put_cases (hkey : ¬Barred key) :
    (Takes directory key fs ∧ ∃ names, folderNames directory = .ok names ∧
      Leads (createDirectories directory fs).1 [] names (endOf [] names) ∧
      (folderSink directory).put key value fs =
        (NameMap.insert (createDirectories directory fs).1 (pathOf (endOf [] names ++ [key]))
          (.file value), .accepted)) ∨
    (¬Takes directory key fs ∧ ∃ reason, (folderSink directory).put key value fs =
      ((createDirectories directory fs).1, .refused (.transient reason))) := by
  have hfile := isFileKey_iff.mpr hkey
  have hthere := @FileSystem.leads_createDirectories directory fs
  simp only [folderSink, hfile, Takes]
  generalize createDirectories directory fs = made at *
  obtain ⟨made, answer⟩ := made
  cases answer with
  | error fault =>
      refine .inr ⟨?_, _, rfl⟩
      rintro ⟨hmade, -⟩
      cases hmade
  | ok u =>
      obtain ⟨names, hnames, hleads⟩ := hthere rfl
      obtain ⟨hslash, hplain⟩ := plain_of_isFileKey hfile
      rcases FileSystem.writeFile_cases hslash hplain hnames hleads value with
        ⟨hfits, hwritten⟩ | ⟨hfits, fault, hwritten⟩
      · exact .inl ⟨⟨rfl, hfits⟩, names, hnames, hleads, by simp [hwritten]⟩
      · refine .inr ⟨fun h => hfits h.2, ?_⟩
        simp only [hwritten]
        exact ⟨_, rfl⟩

/-- A file that was written is found on the way over the names of the folder. -/
theorem follow_written {names : List String} (hkey : ¬Barred key) (hfits : Fits directory key fs)
    (hnames : folderNames directory = .ok names)
    (hleads : Leads fs [] names (endOf [] names)) :
    follow [] (names ++ [key])
        (NameMap.insert fs (pathOf (endOf [] names ++ [key])) (.file value)) =
      .ok (endOf [] names ++ [key], .file value) := by
  obtain ⟨-, hempty, hdot, hback⟩ := plain_of_isFileKey (isFileKey_iff.mpr hkey)
  have hstays : Leads (NameMap.insert fs (pathOf (endOf [] names ++ [key])) (.file value)) []
      names (endOf [] names) := by
    refine hleads.mono fun path hdirectory => ?_
    rw [NameMap.get?_insert_of_ne]
    · exact hdirectory
    · rintro rfl
      exact hfits.free _ ⟨names, hnames, rfl⟩ hdirectory
  rw [hstays.follow_append, follow, if_neg (not_or.mpr ⟨hempty, hdot⟩), if_neg hback,
    if_neg (Nat.not_lt.mpr hfits.nameSize)]
  simp [FileSystem.nodeAt?]

/-- What a put was accepted with is found. -/
theorem follow_of_accepted {after : FileSystem}
    (h : (folderSink directory).put key value fs = (after, .accepted)) :
    ∃ names, folderNames directory = .ok names ∧
      follow [] (names ++ [key]) after = .ok (endOf [] names ++ [key], .file value) := by
  by_cases hkey : Barred key
  · rw [put_of_barred hkey] at h
    cases h
  · rcases @put_cases directory key value fs hkey with
      ⟨htakes, names, hnames, hleads, hput⟩ | ⟨-, reason, hput⟩
    · rw [hput] at h
      cases h
      exact ⟨names, hnames, follow_written hkey htakes.2 hnames hleads⟩
    · rw [hput] at h
      cases h

/-- A put writes the file of its key if it is accepted, and does nothing else but make the folder. -/
theorem put_spec {after : FileSystem} {outcome : Outcome}
    (h : (folderSink directory).put key value fs = (after, outcome)) :
    (outcome = .accepted →
      ∀ path, IsFileOf directory key path → NameMap.get? after path = some (.file value)) ∧
    ∀ path, (outcome = .accepted → ¬IsFileOf directory key path) →
      OnlyMadeAt (IsOnWay directory) fs after path := by
  have hmakes := FileSystem.onlyMakes_createDirectories directory fs
  by_cases hkey : Barred key
  · rw [put_of_barred hkey] at h
    cases h
    exact ⟨nofun, fun path _ => .inr rfl⟩
  · rcases @put_cases directory key value fs hkey with
      ⟨-, names, hnames, -, hput⟩ | ⟨-, reason, hput⟩
    · rw [hput] at h
      cases h
      simp only [FileSystem.isFileOf_iff hnames]
      constructor
      · rintro - path rfl
        exact NameMap.get?_insert_self _ _ _
      · intro path hother
        have hne := hother trivial
        unfold OnlyMadeAt
        rw [NameMap.get?_insert_of_ne _ _ hne]
        exact hmakes path
    · rw [hput] at h
      cases h
      exact ⟨nofun, fun path _ => hmakes path⟩

end

/-! ## Puts in their order -/

/-- The value that was last accepted under a key. -/
def lastAccepted? (key : String) (events : List ((String × List UInt8) × Outcome)) :
    Option (List UInt8) :=
  events.reverse.findSome? fun event =>
    if event.1.1 = key ∧ event.2 = .accepted then some event.1.2 else none

theorem lastAccepted?_cons (key : String) (event : (String × List UInt8) × Outcome)
    (events : List ((String × List UInt8) × Outcome)) :
    lastAccepted? key (event :: events) = (lastAccepted? key events).or
      (if event.1.1 = key ∧ event.2 = .accepted then some event.1.2 else none) := by
  rw [lastAccepted?, List.reverse_cons, List.findSome?_append, List.findSome?_singleton]
  rfl

/-- What puts have made of a file system: each file holds what was last accepted under its key, and
nothing else has changed but for directories that were missing on the way to the folder. -/
structure Filed (directory : String) (events : List ((String × List UInt8) × Outcome))
    (before after : FileSystem) : Prop where
  file : ∀ key path value, IsFileOf directory key path → lastAccepted? key events = some value →
    NameMap.get? after path = some (.file value)
  other : ∀ path, (∀ key, IsFileOf directory key path → lastAccepted? key events = none) →
    OnlyMadeAt (IsOnWay directory) before after path

/-- One more put in front. -/
theorem Filed.cons {directory key : String} {value : List UInt8} {fs next after : FileSystem}
    {outcome : Outcome} {events : List ((String × List UInt8) × Outcome)}
    (hput : (folderSink directory).put key value fs = (next, outcome))
    (h : Filed directory events next after) :
    Filed directory (((key, value), outcome) :: events) fs after := by
  obtain ⟨hwritten, hkept⟩ := put_spec hput
  constructor
  · intro name path content hfile hlast
    rw [lastAccepted?_cons] at hlast
    cases hlater : lastAccepted? name events with
    | some later =>
        rw [hlater] at hlast
        cases hlast
        exact h.file name path _ hfile hlater
    | none =>
        rw [hlater, Option.none_or] at hlast
        split at hlast
        · rename_i hthis
          obtain ⟨rfl, rfl⟩ := hthis
          cases hlast
          have hnext := hwritten rfl path hfile
          -- What was written stays, for no later put is to the same file.
          rcases h.other path fun other hother => hother.name_eq hfile ▸ hlater with
            ⟨hnone, -, -⟩ | hsame
          · rw [hnext] at hnone
            cases hnone
          · rw [hsame, hnext]
        · cases hlast
  · intro path hnone
    have hlater (name : String) (hfile : IsFileOf directory name path) :
        lastAccepted? name events = none ∧ ¬(key = name ∧ outcome = .accepted) := by
      have hnever := hnone name hfile
      rw [lastAccepted?_cons, Option.or_eq_none_iff] at hnever
      simpa using hnever
    refine (hkept path fun haccepted hfile => (hlater key hfile).2 ⟨rfl, haccepted⟩).trans ?_
    exact h.other path fun name hfile => (hlater name hfile).1

theorem filed_putAll (directory : String) (puts : List (String × List UInt8)) (fs : FileSystem) :
    Filed directory (puts.zip ((folderSink directory).putAll fs puts).2) fs
      ((folderSink directory).putAll fs puts).1 := by
  induction puts generalizing fs with
  | nil => exact ⟨nofun, fun path _ => .inr rfl⟩
  | cons put puts ih =>
      rcases hput : (folderSink directory).put put.1 put.2 fs with ⟨next, outcome⟩
      rw [putAll_cons hput, List.zip_cons_cons]
      exact .cons hput (ih next)

/-- A note where a folder is to be. -/
def desk : FileSystem := .ofList [("note", .file [7])]

/-- A record, a key that would lead out of the folder, and the record again. -/
def filings : List (String × List UInt8) := [("a", [1]), ("../note", [2]), ("a", [3])]

end Edge

end ProjectHub
