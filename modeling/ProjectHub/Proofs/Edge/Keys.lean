import Mathlib.Data.List.Basic
import ProjectHub.Edge.Propagation
import ProjectHub.Text.Blank
import ProjectHub.Vault.Basic

/-!
# Keys of edge records

A key joins the project, the kind and the names of a record with colons, and
each of these may hold colons itself. So two records share a key exactly when
the key can be cut in two ways: within one project between the namespace and the
name of a bundle, and between two projects where the identifier of one goes on
with a kind of records of the other.
-/

namespace ProjectHub.Edge

/-- A text with a colon in it that can be cut in two ways. -/
theorem colon_append_eq_iff {a b c d : String} :
    a ++ ":" ++ b = c ++ ":" ++ d ↔ (a = c ∧ b = d) ∨
      (∃ word, c = a ++ ":" ++ word ∧ b = word ++ ":" ++ d) ∨
      (∃ word, a = c ++ ":" ++ word ∧ d = word ++ ":" ++ b) := by
  constructor
  · intro h
    have hlists : a.toList ++ ':' :: b.toList = c.toList ++ ':' :: d.toList := by
      simpa using congrArg String.toList h
    rcases List.append_eq_append_iff.mp hlists with ⟨cut, hc, hb⟩ | ⟨cut, ha, hd⟩
    · cases cut with
      | nil =>
          rw [List.append_nil] at hc
          exact .inl ⟨String.toList_inj.mp hc.symm, String.toList_inj.mp (List.cons.inj hb).2⟩
      | cons colon word =>
          rw [List.cons_append, List.cons.injEq] at hb
          obtain ⟨rfl, hb⟩ := hb
          refine .inr (.inl ⟨String.ofList word, ?_, ?_⟩) <;>
            exact String.toList_inj.mp (by simp [hc, hb])
    · cases cut with
      | nil =>
          rw [List.append_nil] at ha
          exact .inl ⟨String.toList_inj.mp ha, String.toList_inj.mp (List.cons.inj hd).2.symm⟩
      | cons colon word =>
          rw [List.cons_append, List.cons.injEq] at hd
          obtain ⟨rfl, hd⟩ := hd
          refine .inr (.inr ⟨String.ofList word, ?_, ?_⟩) <;>
            exact String.toList_inj.mp (by simp [ha, hd])
  · rintro (⟨rfl, rfl⟩ | ⟨word, rfl, rfl⟩ | ⟨word, rfl, rfl⟩) <;> simp only [String.append_assoc]

/-- What a record at the edge is of. -/
inductive Name where
  | bundle (project space name : String)
  | secret (project key : String)
  deriving DecidableEq

namespace Name

def project : Name → String
  | bundle project _ _ | secret project _ => project

/-- What stands in a key behind the project. -/
def path : Name → String
  | bundle _ space name => "logic" ++ ":" ++ (space ++ ":" ++ name)
  | secret _ key => "secrets" ++ ":" ++ key

def key (a : Name) : String :=
  a.project ++ ":" ++ a.path

/-- Whether there can be such a record: a push needs a project that is not blank, and a namespace
and a name, a secret a project and a key. -/
def Admitted : Name → Prop
  | bundle project space name => Text.isBlankText project = false ∧ space ≠ "" ∧ name ≠ ""
  | secret project key => Vault.checkNames project key = .ok ()

end Name

theorem bundleKey_eq_key (project : String) (b : Bundle) :
    bundleKey project b = (Name.bundle project b.space b.name).key :=
  String.toList_inj.mp (by simp [bundleKey, Name.key, Name.path, Name.project])

theorem secretKey_eq_key (project key : String) :
    secretKey project key = (Name.secret project key).key :=
  String.toList_inj.mp (by simp [secretKey, Name.key, Name.path, Name.project])

namespace Name

/-- Two names of one key, of which the second is cut at a later colon. -/
inductive Shifted : Name → Name → Prop where
  | name (project space word name : String) :
    Shifted (.bundle project space (word ++ ":" ++ name))
      (.bundle project (space ++ ":" ++ word) name)
  | project {a b : Name} {word : String} (hproject : b.project = a.project ++ ":" ++ word)
    (hpath : a.path = word ++ ":" ++ b.path) : Shifted a b

private theorem append_left_cancel_iff {a b c : String} : a ++ b = a ++ c ↔ b = c := by
  simp

theorem eq_or_shifted_of_path_eq {a b : Name} (hproject : a.project = b.project)
    (hpath : a.path = b.path) : a = b ∨ Shifted a b ∨ Shifted b a := by
  cases a with
  | bundle p space name =>
      cases b with
      | bundle q space' name' =>
          cases hproject
          have hcut : space ++ ":" ++ name = space' ++ ":" ++ name' :=
            append_left_cancel_iff.mp hpath
          rcases colon_append_eq_iff.mp hcut with ⟨rfl, rfl⟩ | ⟨word, rfl, rfl⟩ | ⟨word, rfl, rfl⟩
          · exact .inl rfl
          · exact .inr (.inl (.name ..))
          · exact .inr (.inr (.name ..))
      | secret q key =>
          have hlists := congrArg String.toList hpath
          simp [path] at hlists
  | secret p key =>
      cases b with
      | bundle q space name =>
          have hlists := congrArg String.toList hpath
          simp [path] at hlists
      | secret q key' =>
          cases hproject
          exact .inl (congrArg _ (append_left_cancel_iff.mp hpath))

theorem Shifted.key_eq {a b : Name} (h : Shifted a b) : a.key = b.key := by
  cases h with
  | name project space word name => simp only [key, path, Name.project, String.append_assoc]
  | project hproject hpath => simp only [key, hproject, hpath, String.append_assoc]

/-- Two records share a key exactly if they are the same or one is cut at a later colon. -/
theorem key_eq_iff {a b : Name} : a.key = b.key ↔ a = b ∨ Shifted a b ∨ Shifted b a := by
  constructor
  · intro h
    rcases colon_append_eq_iff.mp h with ⟨hproject, hpath⟩ | ⟨word, hproject, hpath⟩ |
      ⟨word, hproject, hpath⟩
    · exact eq_or_shifted_of_path_eq hproject hpath
    · exact .inr (.inl (.project hproject hpath))
    · exact .inr (.inr (.project hproject hpath))
  · rintro (rfl | h | h)
    · rfl
    · exact h.key_eq
    · exact h.key_eq.symm

end Name

/-! ## Projects -/

/-- A project identifier that goes on with a kind of records behind another. -/
def Continues (p q : String) : Prop :=
  ∃ kind ∈ ["logic", "secrets"], q = p ++ ":" ++ kind ∨ ∃ word, q = p ++ ":" ++ kind ++ ":" ++ word

namespace Name

theorem exists_kind (a : Name) : ∃ kind ∈ ["logic", "secrets"], ∃ rest, a.path = kind ++ ":" ++ rest := by
  cases a with
  | bundle project space name => exact ⟨"logic", by simp, _, rfl⟩
  | secret project key => exact ⟨"secrets", by simp, _, rfl⟩

/-- Records of two projects share a key only if one identifier continues the other. -/
theorem continues_of_shifted {a b : Name} (h : Shifted a b) (hne : a.project ≠ b.project) :
    Continues a.project b.project := by
  cases h with
  | name project space word name => exact absurd rfl hne
  | @project _ _ word hproject hpath =>
      obtain ⟨kind, hkind, rest, hrest⟩ := a.exists_kind
      refine ⟨kind, hkind, ?_⟩
      rw [hrest] at hpath
      rcases colon_append_eq_iff.mp hpath with ⟨rfl, -⟩ | ⟨tail, rfl, -⟩ | ⟨tail, hcut, -⟩
      · exact .inl hproject
      · exact .inr ⟨tail, by rw [hproject]; simp only [String.append_assoc]⟩
      · -- a kind holds no colon
        exfalso
        have hcolon : ':' ∈ kind.toList := by simp [hcut]
        simp only [List.mem_cons, List.not_mem_nil, or_false] at hkind
        rcases hkind with rfl | rfl <;> revert hcolon <;> decide

theorem exists_admitted_of_kind {p kind : String} (hp : Text.isBlankText p = false)
    (hkind : kind ∈ ["logic", "secrets"]) (space name : String) (hspace : space ≠ "")
    (hname : name ≠ "") :
    ∃ a : Name, a.Admitted ∧ a.project = p ∧ a.path = kind ++ ":" ++ (space ++ ":" ++ name) := by
  simp only [List.mem_cons, List.not_mem_nil, or_false] at hkind
  rcases hkind with rfl | rfl
  · exact ⟨.bundle p space name, ⟨hp, hspace, hname⟩, rfl, rfl⟩
  · refine ⟨.secret p (space ++ ":" ++ name), ?_, rfl, rfl⟩
    have hproject : p ≠ "" := by
      rintro rfl
      cases hp
    have hkey : space ++ ":" ++ name ≠ "" := by simp [hname]
    simp [Admitted, Vault.checkNames, hproject, hkey]

theorem exists_shifted {p q : String} (h : Continues p q) (hp : Text.isBlankText p = false)
    (hq : Text.isBlankText q = false) :
    ∃ a b : Name, a.Admitted ∧ b.Admitted ∧ a.project = p ∧ b.project = q ∧ Shifted a b := by
  obtain ⟨kind, hkind, hq'⟩ := h
  let b : Name := .bundle q "x" "y"
  have hb : b.Admitted := ⟨hq, by decide, by decide⟩
  rcases hq' with hproject | ⟨tail, hproject⟩
  · obtain ⟨a, ha, rfl, hpath⟩ :=
      exists_admitted_of_kind hp hkind "logic" "x:y" (by decide) (by decide)
    exact ⟨a, b, ha, hb, rfl, rfl, .project hproject hpath⟩
  · obtain ⟨a, ha, rfl, hpath⟩ :=
      exists_admitted_of_kind hp hkind (tail ++ ":" ++ "logic") "x:y" (by simp) (by decide)
    have hproject : b.project = a.project ++ ":" ++ (kind ++ ":" ++ tail) := by
      rw [← String.append_assoc, ← String.append_assoc]
      exact hproject
    have hpath : a.path = kind ++ ":" ++ tail ++ ":" ++ b.path := by
      rw [hpath]
      simp only [String.append_assoc]
      rfl
    exact ⟨a, b, ha, hb, rfl, rfl, .project hproject hpath⟩

/-- Two projects can have records of one key exactly if the identifier of one continues that of
the other. -/
theorem exists_key_eq_iff {p q : String} (hne : p ≠ q) (hp : Text.isBlankText p = false)
    (hq : Text.isBlankText q = false) :
    (∃ a b : Name, a.Admitted ∧ b.Admitted ∧ a.project = p ∧ b.project = q ∧ a.key = b.key) ↔
      Continues p q ∨ Continues q p := by
  constructor
  · rintro ⟨a, b, -, -, rfl, rfl, hkey⟩
    rcases key_eq_iff.mp hkey with rfl | h | h
    · exact absurd rfl hne
    · exact .inl (continues_of_shifted h hne)
    · exact .inr (continues_of_shifted h (Ne.symm hne))
  · rintro (h | h)
    · obtain ⟨a, b, ha, hb, hpa, hqb, hshifted⟩ := exists_shifted h hp hq
      exact ⟨a, b, ha, hb, hpa, hqb, hshifted.key_eq⟩
    · obtain ⟨b, a, hb, ha, hqb, hpa, hshifted⟩ := exists_shifted h hq hp
      exact ⟨a, b, ha, hb, hpa, hqb, hshifted.key_eq.symm⟩

end Name

end ProjectHub.Edge
