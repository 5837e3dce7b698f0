import ProjectHub.Edge.Propagation
import ProjectHub.Manifest.Registry
import ProjectHub.Proofs.Json.Double
import ProjectHub.Proofs.Json.Value
import ProjectHub.Proofs.Text.Utf8

/-!
# What a record keeps of a bundle

A record is read as an object, and in it each text of the bundle is found as it
was. Its content is the bundle's where that is the UTF-8 of some text; elsewhere
each piece that is not gives way to one and the same character, so contents that
differ in such pieces have one record. A configuration is kept where it has no
doubles and nests no deeper than a reader goes inside the record.
-/

namespace ProjectHub.Edge

/-! ### The parts of a record -/

/-- The configuration in the record of a bundle. -/
def configOf (b : Bundle) : Json :=
  match b.config with
  | some config => .object config
  | none => .object [("access", .text "public"), ("target", .text "main")]

/-- The names of the members of a record. -/
def memberNames : List String :=
  ["config", "content", "hash", "name", "namespace", "type"]

theorem record_eq (b : Bundle) :
    record b = .object [("config", configOf b), ("content", .text (Text.ofUtf8Lossy b.content)),
      ("hash", .text b.hash), ("name", .text b.name), ("namespace", .text b.space),
      ("type", .text b.kind.word)] := by
  obtain ⟨kind, space, name, hash, content, config⟩ := b
  cases config <;>
    simp only [record, configOf, defaultConfig, Json.ofMembers, List.foldl_cons, List.foldl_nil,
      Json.insertMember, String.reduceLT, if_true, if_false]

/-- What a reader finds in the bytes of a record: its texts, and the syntax of the
configuration, of which the reader has yet to make a value. -/
structure RecordView where
  config : Json.Source
  content : String
  hash : String
  name : String
  space : String
  kind : String

/-- The parts of a record, if each of them is there. -/
def RecordView.ofBytes? (bytes : List UInt8) : Option RecordView := do
  let source ← Json.Source.parse? (← Text.ofUtf8? bytes)
  let (depth, fields) ← Json.fieldsOf memberNames Json.maxDepth source
  match fields with
  | [config, content, hash, name, space, kind] =>
    return {
      config := ← config
      content := ← Json.required .text depth content
      hash := ← Json.required .text depth hash
      name := ← Json.required .text depth name
      space := ← Json.required .text depth space
      kind := ← Json.required .text depth kind }
  | _ => none

/-- The parts of the record of a bundle, given the syntax of its configuration. -/
def recordViewOf (b : Bundle) (config : Json.Source) : RecordView :=
  ⟨config, Text.ofUtf8Lossy b.content, b.hash, b.name, b.space, b.kind.word⟩

/-- The syntax of a record. -/
def RecordView.source (v : RecordView) : Json.Source :=
  Json.recordSource [("config", v.config), ("content", .text (v.content.toList.map Json.unitOf)),
    ("hash", .text (v.hash.toList.map Json.unitOf)), ("name", .text (v.name.toList.map Json.unitOf)),
    ("namespace", .text (v.space.toList.map Json.unitOf)),
    ("type", .text (v.kind.toList.map Json.unitOf))]

theorem readAs_record {b : Bundle} {config : Json.Source} (h : Json.ReadAs (configOf b) config) :
    Json.ReadAs (record b) (recordViewOf b config).source := by
  rw [record_eq]
  exact Json.readAs_record (.cons ⟨rfl, h⟩ (.cons ⟨rfl, Json.readAs_text _⟩
    (.cons ⟨rfl, Json.readAs_text _⟩ (.cons ⟨rfl, Json.readAs_text _⟩
      (.cons ⟨rfl, Json.readAs_text _⟩ (.cons ⟨rfl, Json.readAs_text _⟩ .nil))))))

theorem fieldsOf_source (v : RecordView) (depth : Nat) :
    Json.fieldsOf memberNames (depth + 1) v.source = some (depth, [some v.config,
      some (.text (v.content.toList.map Json.unitOf)), some (.text (v.hash.toList.map Json.unitOf)),
      some (.text (v.name.toList.map Json.unitOf)), some (.text (v.space.toList.map Json.unitOf)),
      some (.text (v.kind.toList.map Json.unitOf))]) := by
  have hnodup : memberNames.Nodup := by decide
  exact Json.fieldsOf_recordSource hnodup rfl depth

/-- The parts of a record are found in it. -/
theorem ofBytes?_recordBytes {b : Bundle} {config : Json.Source}
    (h : Json.ReadAs (configOf b) config) :
    RecordView.ofBytes? (recordBytes b) = some (recordViewOf b config) := by
  rw [RecordView.ofBytes?, recordBytes, Text.ofUtf8?_toUtf8]
  simp only [Option.bind_eq_bind, Option.bind_some, Json.parse?_render (readAs_record h),
    Json.maxDepth, fieldsOf_source, Json.required, Json.Decoder.text,
    Json.textOfUnits?_map_unitOf, Option.map_some, String.ofList_toList]
  rfl

/-! ### Whole records -/

/-- The syntax of a text is that of the value it was written from. -/
theorem value?_of_readAs {value : Json} {source : Json.Source} {depth : Nat}
    (hread : Json.ReadAs value source) (h : value.Storable depth) :
    source.value? depth = some value := by
  obtain ⟨other, hother, hvalue⟩ := h.exists_readAs
  have hsame : some source = some other :=
    (Json.parse?_render hread).symm.trans (Json.parse?_render hother)
  rwa [Option.some.inj hsame]

/-- The record of a bundle with another configuration. -/
def recordWith (b : Bundle) (config : Json) : Json :=
  .object [("config", config), ("content", .text (Text.ofUtf8Lossy b.content)),
    ("hash", .text b.hash), ("name", .text b.name), ("namespace", .text b.space),
    ("type", .text b.kind.word)]

/-- A record is read with what a reader makes of its configuration, if it makes
anything of it. -/
theorem parse?_recordBytes {b : Bundle} {config : Json.Source}
    (h : Json.ReadAs (configOf b) config) :
    (Text.ofUtf8? (recordBytes b)).bind Json.parse? =
      (config.value? (Json.maxDepth - 1)).map (recordWith b) := by
  rw [recordBytes, Text.ofUtf8?_toUtf8, Option.bind_some, Json.parse?, Json.decode?,
    Json.parse?_render (readAs_record h), Option.bind_some]
  show (recordViewOf b config).source.value? (126 + 1) = (config.value? 126).map (recordWith b)
  cases hvalue : config.value? 126 with
  | none =>
      simp [RecordView.source, recordViewOf, Json.recordSource, Json.Source.value?, Json.membersOf?,
        Json.textOfUnits?_map_unitOf, hvalue]
  | some value =>
      have htext (text : String) : Json.Source.value? 126 (.text (text.toList.map Json.unitOf)) =
          some (.text text) := by
        rw [Json.Source.value?, Json.textOfUnits?_map_unitOf, Option.map_some,
          String.ofList_toList]
      have hordered : memberNames.Pairwise (· < ·) := by decide
      exact Json.value?_recordSource hordered rfl (.cons ⟨rfl, hvalue⟩ (.cons ⟨rfl, htext _⟩
        (.cons ⟨rfl, htext _⟩ (.cons ⟨rfl, htext _⟩ (.cons ⟨rfl, htext _⟩
          (.cons ⟨rfl, htext _⟩ .nil))))))

theorem word_injective {a b : BundleKind} (h : a.word = b.word) : a = b := by
  cases a <;> cases b <;> first | rfl | exact absurd h (by decide)

/-- Bundles with one record agree in all that the record shows as text. -/
theorem eq_of_recordBytes_eq {a b : Bundle} (h : recordBytes a = recordBytes b) :
    a.kind = b.kind ∧ a.space = b.space ∧ a.name = b.name ∧ a.hash = b.hash ∧
      Text.ofUtf8Lossy a.content = Text.ofUtf8Lossy b.content := by
  obtain ⟨configA, hA⟩ := Json.exists_readAs (configOf a)
  obtain ⟨configB, hB⟩ := Json.exists_readAs (configOf b)
  have hviews : some (recordViewOf a configA) = some (recordViewOf b configB) := by
    rw [← ofBytes?_recordBytes hA, ← ofBytes?_recordBytes hB, h]
  have hview := Option.some.inj hviews
  simp only [recordViewOf, RecordView.mk.injEq] at hview
  obtain ⟨-, hcontent, hhash, hname, hspace, hkind⟩ := hview
  exact ⟨word_injective hkind, hspace, hname, hhash, hcontent⟩

/-! ### Records that arrive -/

/-- The sink with a log of the records it accepts, in order. -/
def Sink.logged {S : Type} (sink : Sink S) : Sink (S × List (String × List UInt8)) where
  name := sink.name
  put key value st :=
    let (next, outcome) := sink.put key value st.1
    ((next, if outcome = .accepted then st.2 ++ [(key, value)] else st.2), outcome)

/-- The propagator with a log of the records that arrive. -/
def Propagator.logged {S : Type} (p : Propagator S) :
    Propagator (S × List (String × List UInt8)) where
  sink := p.sink.logged
  timeoutMillis := p.timeoutMillis

section Arriving

variable {S : Type} (p : Propagator S)

/-- One attempt is logged where it succeeds. -/
theorem putRecord_logged (key : String) (value : List UInt8) (st : S)
    (log : List (String × List UInt8)) :
    p.logged.putRecord key value (st, log) =
      (((p.putRecord key value st).1,
        if (p.putRecord key value st).2.toBool then log ++ [(key, value)] else log),
        (p.putRecord key value st).2) := by
  rcases hput : p.sink.put key value st with ⟨next, outcome⟩
  cases outcome <;>
    simp [Propagator.putRecord, Propagator.logged, Sink.logged, hput, Except.toBool]

/-- The records that arrive are those of as many of the bundles as are counted. -/
theorem putBundles_logged (project : String) (bundles : List Bundle) (st : S)
    (log : List (String × List UInt8)) :
    ∃ arrived : List Bundle, arrived.Sublist bundles ∧
      p.logged.putBundles project bundles (st, log) =
        (((p.putBundles project bundles st).1,
          log ++ arrived.map fun b => (bundleKey project b, recordBytes b)),
          (p.putBundles project bundles st).2) ∧
      (p.putBundles project bundles st).2.propagated = arrived.length := by
  induction bundles generalizing st log with
  | nil => exact ⟨[], .slnil, by simp [Propagator.putBundles], rfl⟩
  | cons b bundles ih =>
      have hfirst := putRecord_logged p (bundleKey project b) (recordBytes b) st log
      rcases hput : p.putRecord (bundleKey project b) (recordBytes b) st with ⟨next, result⟩
      rw [hput] at hfirst
      cases result with
      | ok _ =>
          obtain ⟨arrived, hsub, hlog, hcount⟩ :=
            ih next (log ++ [(bundleKey project b, recordBytes b)])
          refine ⟨b :: arrived, hsub.cons_cons b, ?_, ?_⟩
          · simp [Propagator.putBundles, hput, hfirst, hlog, Except.toBool]
          · simp [Propagator.putBundles, hput, hcount]
      | error error =>
          obtain ⟨arrived, hsub, hlog, hcount⟩ := ih next log
          refine ⟨arrived, hsub.cons b, ?_, ?_⟩
          · simp [Propagator.putBundles, hput, hfirst, hlog, Except.toBool]
          · simp [Propagator.putBundles, hput, hcount]

end Arriving

/-- Bytes that are the UTF-8 of some text. -/
def IsUtf8 (bytes : List UInt8) : Prop :=
  ∃ text, Text.toUtf8 text = bytes

/-- In the record of any bundle its texts are found as they are, and its content
with each piece replaced that is not UTF-8; the whole record is read where its
configuration is, and a configuration without doubles and within the depth of a
reader is read as it is. So bundles of one record have one content if their
contents are UTF-8, and what is counted as propagated arrived as such a record. -/
theorem record_keeps_texts :
    (∀ b : Bundle, ∃ config : Json.Source,
      Json.Source.parse? (configOf b).render = some config ∧
      RecordView.ofBytes? (recordBytes b) =
        some ⟨config, Text.ofUtf8Lossy b.content, b.hash, b.name, b.space, b.kind.word⟩ ∧
      (Text.ofUtf8? (recordBytes b)).bind Json.parse? =
        (config.value? (Json.maxDepth - 1)).map (recordWith b) ∧
      ((configOf b).Storable (Json.maxDepth - 1) →
        config.value? (Json.maxDepth - 1) = some (configOf b))) ∧
    (∀ b : Bundle, Text.toUtf8 (Text.ofUtf8Lossy b.content) = b.content ↔ IsUtf8 b.content) ∧
    (∀ a b : Bundle, recordBytes a = recordBytes b →
      (a.kind = b.kind ∧ a.space = b.space ∧ a.name = b.name ∧ a.hash = b.hash ∧
        Text.ofUtf8Lossy a.content = Text.ofUtf8Lossy b.content) ∧
      (IsUtf8 a.content → IsUtf8 b.content → a.content = b.content)) ∧
    ∀ (S : Type) (p : Propagator S) (m : Manifest) (st : S),
      ∃ arrived : List Bundle, arrived.Sublist m.bundles ∧
        (p.propagate m st).2.propagated = arrived.length ∧
        p.logged.propagate m (st, []) =
          (((p.propagate m st).1, arrived.map fun b => (bundleKey m.project b, recordBytes b)),
            (p.propagate m st).2) := by
  refine ⟨fun b => ?_, fun b => Text.toUtf8_ofUtf8Lossy_eq_iff, fun a b h => ?_,
    fun S p m st => ?_⟩
  · obtain ⟨config, hread⟩ := Json.exists_readAs (configOf b)
    exact ⟨config, Json.parse?_render hread, ofBytes?_recordBytes hread, parse?_recordBytes hread,
      fun hstorable => value?_of_readAs hread hstorable⟩
  · have heq := eq_of_recordBytes_eq h
    refine ⟨heq, fun ha hb => ?_⟩
    rw [← Text.toUtf8_ofUtf8Lossy_eq_iff.2 ha, ← Text.toUtf8_ofUtf8Lossy_eq_iff.2 hb,
      heq.2.2.2.2]
  · obtain ⟨arrived, hsub, hlog, hcount⟩ := putBundles_logged p m.project m.bundles st []
    exact ⟨arrived, hsub, hcount, hlog⟩

/-- A bundle whose content is one byte. -/
def rawBundle (byte : UInt8) : Bundle :=
  ⟨.logic, "users", "get", "h", [byte], none⟩

/-- A bundle whose configuration has one member. -/
def limitedBundle (limit : Json) : Bundle :=
  ⟨.logic, "users", "get", "h", [], some [("limit", limit)]⟩

theorem rawBundle_kept :
    IsUtf8 (rawBundle 0x0A).content ∧ (configOf (rawBundle 0x0A)).Storable (Json.maxDepth - 1) ∧
    (Text.ofUtf8? (recordBytes (rawBundle 0x0A))).bind Json.parse? =
      some (.object [("config", .object [("access", .text "public"), ("target", .text "main")]),
        ("content", .text "\n"), ("hash", .text "h"), ("name", .text "get"),
        ("namespace", .text "users"), ("type", .text "logic")]) ∧
    ∀ other : Bundle, IsUtf8 other.content → recordBytes (rawBundle 0x0A) = recordBytes other →
      other.content = [0x0A] := by
  obtain ⟨hrecord, -, hsame, -⟩ := record_keeps_texts
  have hutf8 : IsUtf8 (rawBundle 0x0A).content := ⟨"\n", by
    rw [Text.toUtf8, Text.toList_toUTF8]
    decide⟩
  have hordered : ["access", "target"].Pairwise (· < ·) := by decide
  have hconfig : (configOf (rawBundle 0x0A)).Storable (Json.maxDepth - 1) :=
    .object (List.pairwise_map.1 hordered)
      (List.forall_mem_cons.2 ⟨.text _ _, List.forall_mem_singleton.2 (.text _ _)⟩)
  have hcontent : Text.ofUtf8Lossy [0x0A] = "\n" := by
    simp [Text.ofUtf8Lossy, Text.decodeChars, Text.nextChar]
  obtain ⟨config, -, -, hparse, hvalue⟩ := hrecord (rawBundle 0x0A)
  refine ⟨hutf8, hconfig, ?_, fun other hother h => ((hsame _ other h).2 hutf8 hother).symm⟩
  rw [hparse, hvalue hconfig, Option.map_some, recordWith, rawBundle, hcontent]
  rfl

/-- Arrays one inside the other around a null. -/
def nest : Nat → Json
  | 0 => .null
  | levels + 1 => .array [nest levels]

/-- The syntax of nested arrays. -/
def nestSource : Nat → Json.Source
  | 0 => .null
  | levels + 1 => .array [nestSource levels]

theorem readAs_nest (levels : Nat) : Json.ReadAs (nest levels) (nestSource levels) := by
  induction levels with
  | zero => exact Json.readAs_null
  | succ levels ih => exact Json.readAs_array (.cons ih .nil)

/-- Arrays that nest deeper than a reader goes have no value. -/
theorem value?_nestSource {levels depth : Nat} (h : depth < levels) :
    (nestSource levels).value? depth = none := by
  induction depth generalizing levels with
  | zero =>
      obtain ⟨levels, rfl⟩ := Nat.exists_eq_succ_of_ne_zero (Nat.ne_of_gt h)
      rw [nestSource, Json.Source.value?]
  | succ depth ih =>
      obtain ⟨levels, rfl⟩ := Nat.exists_eq_succ_of_ne_zero (Nat.ne_of_gt (Nat.zero_lt_of_lt h))
      rw [nestSource, Json.Source.value?, Json.valuesOf?, ih (Nat.lt_of_succ_lt_succ h)]
      rfl

theorem readAs_configOf_limitedBundle {limit : Json} {source : Json.Source}
    (h : Json.ReadAs limit source) :
    Json.ReadAs (configOf (limitedBundle limit)) (Json.recordSource [("limit", source)]) :=
  Json.readAs_record (.cons ⟨rfl, h⟩ .nil)

/-- A double that its shortest text is not read back as. -/
def unstableDouble : UInt64 := 4629487979381582466

theorem readAs_unstableDouble :
    Json.ReadAs (.number (.float unstableDouble))
      (.number ⟨false, [3, 1], some [2, 4, 5, 2, 7, 0, 1, 9, 1, 4, 3, 9, 4, 3, 8], none⟩) := by
  have hproper : Json.Unsigned.Proper ⟨['3', '1'], some "245270191439438".toList, none⟩ :=
    Json.proper_places ⟨List.cons_ne_nil _ _, by simp⟩ (by decide) ⟨by simp, by simp⟩
  exact hproper.readAs false (by decide +kernel)

/-- Bundles that a push admits, whose records alter them: contents that are not
UTF-8 have one record, and it is counted as propagated; a double in a configuration
is read back as another; a configuration that nests too deep is not read at all. -/
theorem record_alters_bundles :
    (∀ b ∈ [rawBundle 0xFF, rawBundle 0xFE, limitedBundle (.number (.float unstableDouble)),
      limitedBundle (nest 126)], Registry.checkPush "p1" [b] = .ok ()) ∧
    ((rawBundle 0xFF).content ≠ (rawBundle 0xFE).content ∧
      recordBytes (rawBundle 0xFF) = recordBytes (rawBundle 0xFE) ∧
      Text.toUtf8 (Text.ofUtf8Lossy (rawBundle 0xFF).content) ≠ (rawBundle 0xFF).content ∧
      ((Propagator.mk memorySink 1000).propagate
        (Registry.manifestOf "m" .epoch "p1" [rawBundle 0xFF] "ci") .empty).2 = ⟨1, 0⟩) ∧
    (Text.ofUtf8? (recordBytes (limitedBundle (.number (.float unstableDouble))))).bind
        Json.parse? =
      some (recordWith (limitedBundle (.number (.float unstableDouble)))
        (.object [("limit", .number (.float (unstableDouble + 1)))])) ∧
    (Text.ofUtf8? (recordBytes (limitedBundle (nest 126)))).bind Json.parse? = none := by
  have hcontent : Text.ofUtf8Lossy [0xFF] = Text.ofUtf8Lossy [0xFE] := by
    simp [Text.ofUtf8Lossy, Text.decodeChars, Text.nextChar, Text.lead?]
  have hnumeral : Json.Numeral.value?
      ⟨false, [3, 1], some [2, 4, 5, 2, 7, 0, 1, 9, 1, 4, 3, 9, 4, 3, 8], none⟩ =
      some (.float (unstableDouble + 1)) := by
    decide +kernel
  refine ⟨?_, ⟨by decide, ?_, ?_, rfl⟩, ?_, ?_⟩
  · simp only [List.forall_mem_cons, List.not_mem_nil, false_implies, implies_true, and_true]
    exact ⟨rfl, rfl, rfl, rfl⟩
  · rw [recordBytes, recordBytes, record_eq, record_eq]
    simp only [rawBundle, configOf, hcontent]
  · have hreplaced : Text.ofUtf8Lossy [0xFF] = "\uFFFD" := by
      simp [Text.ofUtf8Lossy, Text.decodeChars, Text.nextChar, Text.lead?]
    rw [rawBundle, hreplaced, Text.toUtf8, Text.toList_toUTF8]
    decide
  · rw [parse?_recordBytes (readAs_configOf_limitedBundle readAs_unstableDouble)]
    have hvalue : Json.Source.value? (125 + 1) (Json.recordSource [("limit", .number
        ⟨false, [3, 1], some [2, 4, 5, 2, 7, 0, 1, 9, 1, 4, 3, 9, 4, 3, 8], none⟩)]) =
        some (.object [("limit", .number (.float (unstableDouble + 1)))]) := by
      refine Json.value?_recordSource (List.pairwise_singleton _ "limit") rfl (.cons ⟨rfl, ?_⟩ .nil)
      rw [Json.Source.value?, hnumeral, Option.map_some]
    exact congrArg (Option.map (recordWith _)) hvalue
  · rw [parse?_recordBytes (readAs_configOf_limitedBundle (readAs_nest 126))]
    have hvalue : Json.Source.value? (125 + 1) (Json.recordSource [("limit", nestSource 126)]) =
        none := by
      have hdeep : Json.Source.value? 125 (nestSource 126) = none := value?_nestSource (by decide)
      simp [Json.recordSource, Json.Source.value?, Json.membersOf?, hdeep]
    exact congrArg (Option.map (recordWith _)) hvalue

end ProjectHub.Edge
