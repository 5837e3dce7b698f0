import ProjectHub.Edge.Remote
import ProjectHub.Proofs.Edge.Keys
import ProjectHub.Proofs.Text.Utf8

/-!
# Addresses of records

A remote store has the record of a key under one more segment of its own address. Main
statement: this segment is all that the key has a part in, and it stands for the key
without its tabs and line ends; so two keys have one address exactly if they differ in
nothing else.
-/

namespace ProjectHub

namespace Url

/-! ## Segments -/

/-- Tabs and line ends, which no URL holds. -/
def isBreak (c : Char) : Bool :=
  c == '\t' || c == '\n' || c == '\r'

/-- The text without tabs and line ends. -/
def withoutBreaks (text : String) : String :=
  String.ofList (text.toList.filter fun c => !isBreak c)

theorem withoutBreaks_eq_iff {text : String} :
    withoutBreaks text = text ↔ ∀ c ∈ text.toList, isBreak c = false := by
  rw [withoutBreaks, ← String.toList_inj, String.toList_ofList, List.filter_eq_self]
  simp only [Bool.not_eq_true']

theorem encodeSegment_eq (special : Bool) (text : String) :
    encodeSegment special text =
      String.ofList (Text.percentEncode (keptInSegment special) (withoutBreaks text).toList) := by
  rw [encodeSegment, withoutBreaks, String.toList_ofList]
  refine congrArg (fun cs => String.ofList (Text.percentEncode _ cs)) (List.filter_congr ?_)
  intro c _
  simp [isBreak, bne, Bool.and_assoc]

/-- What is kept in a segment is plain and ends neither the segment nor the path. -/
theorem ne_of_keptInSegment {special : Bool} {c : Char} (h : keptInSegment special c = true) :
    c.toNat < 128 ∧ c ≠ '%' ∧ c ≠ '/' ∧ c ≠ '?' ∧ c ≠ '#' ∧ (special = true → c ≠ '\\') := by
  simp only [keptInSegment, keptInPath, keptInFragment, isPlain, Bool.and_eq_true,
    Bool.not_eq_true', decide_eq_true_eq, bne_iff_ne] at h
  obtain ⟨⟨⟨⟨⟨⟨-, hlt⟩, -⟩, hpath⟩, hslash⟩, hpercent⟩, hback⟩ := h
  refine ⟨by omega, hpercent, hslash, ?_, ?_, ?_⟩
  · rintro rfl
    revert hpath
    decide
  · rintro rfl
    revert hpath
    decide
  · rintro rfl rfl
    revert hback
    decide

theorem keptInSegment_hexDigitUpper (special : Bool) :
    ∀ n < 16, keptInSegment special (Text.hexDigitUpper n) = true := by
  cases special <;> decide

/-- Nothing in an encoded segment ends it, or the path. -/
theorem ne_of_mem_encodeSegment {special : Bool} {text : String} {c : Char}
    (h : c ∈ (encodeSegment special text).toList) :
    c ≠ '/' ∧ c ≠ '?' ∧ c ≠ '#' ∧ (special = true → c ≠ '\\') := by
  rw [encodeSegment_eq, String.toList_ofList] at h
  rcases Text.mem_percentEncode h with hkept | rfl | ⟨n, hn, rfl⟩
  · exact (ne_of_keptInSegment hkept).2.2
  · cases special <;> decide
  · exact (ne_of_keptInSegment (keptInSegment_hexDigitUpper special n hn)).2.2

/-- An encoded segment stands for the text without its tabs and line ends. -/
theorem percentDecode_encodeSegment (special : Bool) (text : String) :
    Text.percentDecode (Text.toUtf8 (encodeSegment special text)) =
      Text.toUtf8 (withoutBreaks text) := by
  rw [encodeSegment_eq, Text.percentDecode_percentEncode, String.ofList_toList]
  intro c hc
  obtain ⟨hlt, hpercent, -⟩ := ne_of_keptInSegment hc
  exact ⟨hlt, hpercent⟩

theorem encodeSegment_eq_iff {special : Bool} {text other : String} :
    encodeSegment special text = encodeSegment special other ↔
      withoutBreaks text = withoutBreaks other := by
  constructor
  · intro h
    apply Text.toUtf8_injective
    rw [← percentDecode_encodeSegment special, ← percentDecode_encodeSegment special, h]
  · intro h
    rw [encodeSegment_eq, encodeSegment_eq, h]

/-! ## Pushing a segment -/

/-- The segments without the one at their end, if that is empty. -/
def withoutTrailing (all : List String) : List String :=
  if all.getLast? = some "" then all.dropLast else all

/-- The segments under which one more goes: those that are there, without one that is empty at their
end. A lone empty segment that is left is the root, under which there is nothing yet. -/
def parents (all : List String) : List String :=
  if withoutTrailing all = [""] then [] else withoutTrailing all

theorem addSegment_dropTrailing (all : List String) (segment : String) :
    addSegment (dropTrailing all) segment = parents all ++ [segment] := by
  rcases List.eq_nil_or_concat all with rfl | ⟨front, last, rfl⟩
  · rfl
  by_cases hlast : last = ""
  · subst hlast
    rw [List.concat_eq_append]
    have hwithout : withoutTrailing (front ++ [""]) = front := by
      rw [withoutTrailing, List.getLast?_concat, if_pos rfl, List.dropLast_concat]
    rw [parents, hwithout]
    cases front with
    | nil => rfl
    | cons first rest =>
        have hdrop : dropTrailing (first :: rest ++ [""]) = first :: rest := by
          rw [dropTrailing, List.getLast?_concat, List.dropLast_concat]
          simp
        rw [hdrop, addSegment]
        split <;> rfl
  · have hroot : front ++ [last] ≠ [""] := by
      intro h
      cases front with
      | nil => exact hlast (List.cons.inj h).1
      | cons first rest => simp at h
    simp [dropTrailing, parents, withoutTrailing, addSegment, hlast, hroot]

/-- A text with a colon in it adds a segment. -/
theorem pushText_of_colon {special : Bool} {text : String} (h : ':' ∈ text.toList)
    (all : List String) :
    pushText special (dropTrailing all) text = parents all ++ [encodeSegment special text] := by
  have hcolon : ':' ∈ (encodeSegment special text).toList := by
    rw [encodeSegment_eq, String.toList_ofList]
    refine List.mem_flatMap.mpr ⟨':', ?_, ?_⟩
    · rw [withoutBreaks, String.toList_ofList]
      exact List.mem_filter.mpr ⟨h, by decide⟩
    · rw [if_pos (by cases special <;> decide)]
      exact List.mem_singleton_self _
  have hdots : ¬(text = "." ∨ text = "..") := by
    rintro (rfl | rfl) <;> revert h <;> decide
  rw [pushText, if_neg hdots]
  split
  · rename_i hdot
    rw [hdot] at hcolon
    exact absurd hcolon (by decide)
  · rename_i hdots
    rw [hdots] at hcolon
    exact absurd hcolon (by decide)
  · exact addSegment_dropTrailing all _

/-! ## The text around a segment -/

theorem render_concat (front : List String) (segment : String) :
    (Path.segments (front ++ [segment])).render =
      (Path.segments front).render ++ "/" ++ segment := by
  simp only [Path.render, List.map_append, String.join_append, List.map_cons, List.map_nil,
    String.join_cons, String.join_nil, String.append_empty, String.append_assoc]

/-- The text of a URL up to the last segment of its path, of which `front` stands before that. -/
def textBefore (u : Url) (front : List String) : String :=
  u.scheme ++ ":" ++
    (match u.host with
      | some host => "//" ++ u.userText ++ host ++ u.portText
      | none => if front.head? = some "" then "/." else "") ++
    (Path.segments front).render

/-- The query as it stands behind the path. -/
def queryText (u : Url) : String :=
  match u.query with
  | some query => "?" ++ query
  | none => ""

/-- The text of a URL behind its path. -/
def textAfter (u : Url) : String :=
  u.queryText ++
    match u.fragment with
    | some fragment => "#" ++ fragment
    | none => ""

theorem authorityText_concat (u : Url) (front : List String) (segment : String) :
    ({ u with path := .segments (front ++ [segment]) } : Url).authorityText =
      match u.host with
      | some host => "//" ++ u.userText ++ host ++ u.portText
      | none => if front.head? = some "" then "/." else "" := by
  cases u.host with
  | some host =>
      simp only [authorityText]
      rfl
  | none =>
      cases front with
      | nil => simp [authorityText]
      | cons first rest =>
          by_cases hfirst : first = ""
          · subst hfirst
            cases rest <;> simp [authorityText]
          · simp [authorityText, hfirst]

/-- Around the last segment of its path stands text in which that has no part. -/
theorem render_last (u : Url) (front : List String) (segment : String) :
    ({ u with path := .segments (front ++ [segment]) } : Url).render =
      u.textBefore front ++ "/" ++ segment ++ u.textAfter := by
  rw [render, authorityText_concat, target, render_concat, textBefore, textAfter, queryText]
  cases u.query <;> cases u.fragment <;> simp only [String.append_assoc]

theorem render_last_inj {u : Url} {front : List String} {segment other : String} :
    ({ u with path := .segments (front ++ [segment]) } : Url).render =
      ({ u with path := .segments (front ++ [other]) } : Url).render ↔ segment = other := by
  rw [render_last, render_last, ← String.toList_inj, ← String.toList_inj]
  simp only [String.toList_append, List.append_cancel_right_eq, List.append_cancel_left_eq]

end Url

namespace Edge

/-- Keys of records, of bundles and of secrets. -/
def IsKey (key : String) : Prop :=
  (∃ project b, bundleKey project b = key) ∨ ∃ project name, secretKey project name = key

theorem IsKey.colon {key : String} (h : IsKey key) : ':' ∈ key.toList := by
  rcases h with ⟨project, b, rfl⟩ | ⟨project, name, rfl⟩
  · simp [bundleKey]
  · simp [secretKey]

namespace Remote

section

variable {r : Remote} {all : List String} (hbase : r.base.path = .segments all)
include hbase

theorem recordUrl_of_isKey {key : String} (h : IsKey key) :
    r.recordUrl key = { r.base with
      path := .segments (Url.parents all ++ [Url.encodeSegment r.base.isSpecial key]) } := by
  rw [recordUrl, Url.push, hbase]
  simp only [Url.pushText_of_colon h.colon]

/-- The address of a record is that of the store with one more segment at the end of its path, which
no character of the key can end. The segment stands for the key without its tabs and line ends, so
it stands for the key if that has none, and the records of two keys have one address exactly if the
keys differ in tabs and line ends only. -/
theorem address_of_record :
    (∀ key, IsKey key → ∃ segment : String,
      r.recordUrl key =
        { r.base with path := .segments (Url.parents all ++ [segment]) } ∧
      (r.recordUrl key).render =
        r.base.textBefore (Url.parents all) ++ "/" ++ segment ++ r.base.textAfter ∧
      (∀ value, (r.putRequest key value).url.target =
        (Url.Path.segments (Url.parents all)).render ++ "/" ++ segment ++ r.base.queryText) ∧
      (∀ c ∈ segment.toList, c ≠ '/' ∧ c ≠ '?' ∧ c ≠ '#' ∧
        (r.base.isSpecial = true → c ≠ '\\')) ∧
      Text.percentDecode (Text.toUtf8 segment) = Text.toUtf8 (Url.withoutBreaks key) ∧
      (Text.percentDecode (Text.toUtf8 segment) = Text.toUtf8 key ↔
        ∀ c ∈ key.toList, Url.isBreak c = false)) ∧
    ∀ key other, IsKey key → IsKey other →
      (r.recordUrl key = r.recordUrl other ↔
        Url.withoutBreaks key = Url.withoutBreaks other) ∧
      ((r.recordUrl key).render = (r.recordUrl other).render ↔
        Url.withoutBreaks key = Url.withoutBreaks other) := by
  constructor
  · intro key hkey
    have hurl := recordUrl_of_isKey hbase hkey
    have hdecode := Url.percentDecode_encodeSegment r.base.isSpecial key
    refine ⟨_, hurl, ?_, fun value => ?_, fun c hc => Url.ne_of_mem_encodeSegment hc, hdecode, ?_⟩
    · rw [hurl, Url.render_last]
    · rw [putRequest, hurl, Url.target, Url.render_concat]
      rfl
    · rw [hdecode, ← Url.withoutBreaks_eq_iff]
      exact ⟨Text.toUtf8_injective, congrArg _⟩
  · intro key other hkey hother
    rw [recordUrl_of_isKey hbase hkey, recordUrl_of_isKey hbase hother, Url.render_last_inj,
      Url.encodeSegment_eq_iff]
    refine ⟨?_, Iff.rfl⟩
    rw [← Url.encodeSegment_eq_iff]
    constructor
    · intro h
      simpa using h
    · intro h
      rw [h]

end

/-- A store below a path, with a query of its own. -/
def deepStore : Remote where
  base :=
    { scheme := "http", host := some "edge.test", path := .segments ["kv", ""]
      query := some "v=1" }

theorem address_of_record_deepStore :
    (deepStore.base.path = .segments ["kv", ""] ∧ IsKey "p:secrets:a?b" ∧ IsKey "p:secrets:a\tb" ∧
      IsKey "p:secrets:ab") ∧
    (∃ segment, (deepStore.recordUrl "p:secrets:a?b").render =
        "http://edge.test/kv" ++ "/" ++ segment ++ "?v=1" ∧
      Text.percentDecode (Text.toUtf8 segment) = Text.toUtf8 "p:secrets:a?b") ∧
    deepStore.recordUrl "p:secrets:a\tb" = deepStore.recordUrl "p:secrets:ab" := by
  have hbase : deepStore.base.path = .segments ["kv", ""] := rfl
  have hmark : IsKey "p:secrets:a?b" := .inr ⟨"p", "a?b", by decide⟩
  have htab : IsKey "p:secrets:a\tb" := .inr ⟨"p", "a\tb", by decide⟩
  have hplain : IsKey "p:secrets:ab" := .inr ⟨"p", "ab", by decide⟩
  obtain ⟨haddress, hshared⟩ := address_of_record hbase
  obtain ⟨segment, -, hrender, -, -, -, hdecode⟩ := haddress _ hmark
  have hwhole := Url.withoutBreaks_eq_iff.mp (by decide : Url.withoutBreaks "p:secrets:a?b" = _)
  refine ⟨⟨hbase, hmark, htab, hplain⟩, ⟨segment, hrender, hdecode.mpr hwhole⟩, ?_⟩
  exact (hshared _ _ htab hplain).1.mpr (by decide)

end Remote

end Edge

end ProjectHub
