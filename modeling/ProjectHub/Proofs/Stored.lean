import ProjectHub.Manifest.Basic
import ProjectHub.Plan.Migration
import ProjectHub.Proofs.Json.Double
import ProjectHub.Proofs.Manifest.Bundle
import ProjectHub.Proofs.Time.Timestamp

/-!
# What is stored is read back

Main statement: manifests, migrations and proposals are read back from the texts
they are stored as, and the content of a bundle has one text. A text of a bundle
that can be read spells its content in that text, whatever else it holds and
however it is laid out, so the bundle is written with the same content text again.
-/

namespace ProjectHub

namespace Migration

/-- The value that a migration is written as. -/
def toJson (m : Migration) : Json :=
  .object [("id", .text m.id), ("project_id", .text m.project), ("version", .text m.version),
    ("sql", .text m.sql), ("description", .text m.description), ("applied", .bool m.applied)]

theorem render_toJson (m : Migration) : m.toJson.render = m.render := by
  rw [toJson, ← Json.renderRecord_map, render]
  simp only [List.map_cons, List.map_nil, Json.render_text]

/-- The syntax that a migration is read from. -/
def source (m : Migration) : Json.Source :=
  Json.recordSource [("id", .text (m.id.toList.map Json.unitOf)),
    ("project_id", .text (m.project.toList.map Json.unitOf)),
    ("version", .text (m.version.toList.map Json.unitOf)),
    ("sql", .text (m.sql.toList.map Json.unitOf)),
    ("description", .text (m.description.toList.map Json.unitOf)),
    ("applied", .bool m.applied)]

theorem readAs_source (m : Migration) : Json.ReadAs m.toJson m.source :=
  Json.readAs_record (.cons ⟨rfl, Json.readAs_text _⟩ (.cons ⟨rfl, Json.readAs_text _⟩
    (.cons ⟨rfl, Json.readAs_text _⟩ (.cons ⟨rfl, Json.readAs_text _⟩
      (.cons ⟨rfl, Json.readAs_text _⟩ (.cons ⟨rfl, Json.readAs_bool _⟩ .nil))))))

theorem decoder_source (m : Migration) (depth : Nat) :
    decoder (depth + 1) m.source = some m := by
  have hnodup : ["id", "project_id", "version", "sql", "description", "applied"].Nodup := by
    decide
  rw [decoder, source, Json.fieldsOf_recordSource hnodup rfl depth]
  simp [Json.required, Json.withDefault, Json.Decoder.text, Json.Decoder.bool,
    Json.textOfUnits?_map_unitOf]

/-- A migration is read back from its text. -/
theorem decode?_render (m : Migration) : Json.decode? decoder m.render = some m := by
  rw [Json.decode?, ← render_toJson, Json.parse?_render m.readAs_source]
  exact m.decoder_source 126

end Migration

namespace Proposal

/-- The value that a proposal is written as. -/
def toJson (p : Proposal) : Json :=
  .object [("migrations", .array (p.migrations.map Migration.toJson)),
    ("has_changes", .bool p.hasChanges), ("summary", .text p.summary),
    ("plan_token", .ofNat p.token)]

theorem render_toJson (p : Proposal) : p.toJson.render = p.render := by
  have hmigrations : (p.migrations.map Migration.toJson).map Json.render =
      p.migrations.map Migration.render := by
    rw [List.map_map]
    exact List.map_congr_left fun m _ => m.render_toJson
  rw [toJson, ← Json.renderRecord_map, render]
  simp only [List.map_cons, List.map_nil, Json.render_text, Json.render_array, Json.render_ofNat,
    hmigrations]

/-- The syntax that a proposal is read from. -/
def source (p : Proposal) : Json.Source :=
  Json.recordSource [("migrations", .array (p.migrations.map Migration.source)),
    ("has_changes", .bool p.hasChanges), ("summary", .text (p.summary.toList.map Json.unitOf)),
    ("plan_token", .number (Json.numeralOf p.token))]

theorem readAs_source (p : Proposal) : Json.ReadAs p.toJson p.source := by
  have hmigrations : List.Forall₂ Json.ReadAs (p.migrations.map Migration.toJson)
      (p.migrations.map Migration.source) := by
    rw [List.forall₂_map_left_iff, List.forall₂_map_right_iff, List.forall₂_same]
    exact fun m _ => m.readAs_source
  exact Json.readAs_record (.cons ⟨rfl, Json.readAs_array hmigrations⟩
    (.cons ⟨rfl, Json.readAs_bool _⟩ (.cons ⟨rfl, Json.readAs_text _⟩
      (.cons ⟨rfl, Json.readAs_int _⟩ .nil))))

/-- A word is read from its numeral. -/
theorem word_numeralOf {n : Nat} (h : n < UInt64.size) (depth : Nat) :
    Json.Decoder.word depth (.number (Json.numeralOf n)) = some n := by
  have hsize : UInt64.size = 0x10000000000000000 := rfl
  rw [Json.Decoder.word, Json.value?_numeralOf (by omega) (by omega)]
  exact if_pos (Int.natCast_nonneg n)

theorem decoder_source {p : Proposal} (h : p.token < UInt64.size) (depth : Nat) :
    decoder (depth + 3) p.source = some p := by
  have hnodup : ["migrations", "has_changes", "summary", "plan_token"].Nodup := by decide
  have hmigrations : (p.migrations.map Migration.source).mapM (Migration.decoder (depth + 1)) =
      some p.migrations :=
    mapM_map_eq_some fun m _ => m.decoder_source depth
  rw [decoder, source, Json.fieldsOf_recordSource hnodup rfl]
  simp only [List.map_cons, List.map_nil, Json.required, Option.bind_some, Option.bind_eq_bind,
    Json.Decoder.list, hmigrations, word_numeralOf h, Json.Decoder.bool, Json.Decoder.text, Option.map_some,
    Json.textOfUnits?_map_unitOf, String.ofList_toList]
  rfl

/-- A proposal whose token is of 64 bits is read back from its text. -/
theorem decode?_render {p : Proposal} (h : p.token < UInt64.size) :
    Json.decode? decoder p.render = some p := by
  rw [Json.decode?, ← render_toJson, Json.parse?_render p.readAs_source]
  exact decoder_source h 124

end Proposal

namespace Manifest

/-- A manifest whose time a timestamp can show, and whose configurations are read
back from inside its bundles. -/
def Storable (m : Manifest) : Prop :=
  m.createdAt.Showable ∧
    ∀ b ∈ m.bundles, ∀ config ∈ b.config, (Json.object config).Storable (Json.maxDepth - 3)

/-- The value that a manifest is written as. -/
def toJson (m : Manifest) : Json :=
  .object [("id", .text m.id), ("project_id", .text m.project), ("version", .text m.version),
    ("bundles", .array (m.bundles.map Bundle.toJson)), ("created_at", .text m.createdAt.toZulu),
    ("created_by", .text m.createdBy)]

theorem render_toJson (m : Manifest) : m.toJson.render = m.render := by
  rw [toJson, ← Json.renderRecord_map, render]
  simp only [List.map_cons, List.map_nil, Json.render_text, Bundle.render_array]

/-- The syntax that a manifest is read from, given that of its bundles. -/
def sourceWith (m : Manifest) (bundles : List Json.Source) : Json.Source :=
  Json.recordSource [("id", .text (m.id.toList.map Json.unitOf)),
    ("project_id", .text (m.project.toList.map Json.unitOf)),
    ("version", .text (m.version.toList.map Json.unitOf)), ("bundles", .array bundles),
    ("created_at", .text (m.createdAt.toZulu.toList.map Json.unitOf)),
    ("created_by", .text (m.createdBy.toList.map Json.unitOf))]

theorem readAs_sourceWith {m : Manifest} {bundles : List Json.Source}
    (h : List.Forall₂ (fun b source => Json.ReadAs b.toJson source) m.bundles bundles) :
    Json.ReadAs m.toJson (m.sourceWith bundles) := by
  have hbundles : Json.ReadAs (.array (m.bundles.map Bundle.toJson)) (.array bundles) := by
    refine Json.readAs_array ?_
    rwa [List.forall₂_map_left_iff]
  exact Json.readAs_record (.cons ⟨rfl, Json.readAs_text _⟩ (.cons ⟨rfl, Json.readAs_text _⟩
    (.cons ⟨rfl, Json.readAs_text _⟩ (.cons ⟨rfl, hbundles⟩ (.cons ⟨rfl, Json.readAs_text _⟩
      (.cons ⟨rfl, Json.readAs_text _⟩ .nil))))))

theorem decoder_sourceWith {m : Manifest} {bundles : List Json.Source} {depth : Nat}
    (htime : m.createdAt.Showable)
    (h : List.Forall₂ (fun b source => Bundle.decoder depth source = some b) m.bundles bundles) :
    decoder (depth + 2) (m.sourceWith bundles) = some m := by
  have hnodup :
      ["id", "project_id", "version", "bundles", "created_at", "created_by"].Nodup := by
    decide
  rw [decoder, sourceWith, Json.fieldsOf_recordSource hnodup rfl]
  simp only [List.map_cons, List.map_nil, Json.required, Option.bind_some, Option.bind_eq_bind,
    Json.Decoder.list, mapM_of_forall₂ h, Json.Decoder.text, Option.map_some, instantDecoder,
    Json.Decoder.andThen, Json.textOfUnits?_map_unitOf, String.ofList_toList,
    htime.parseLenient?_toZulu]
  rfl

/-- A storable manifest is read back from its text. -/
theorem Storable.decode?_render {m : Manifest} (h : m.Storable) :
    Json.decode? decoder m.render = some m := by
  obtain ⟨sources, hsources⟩ := Json.exists_forall₂ fun b hb => Bundle.exists_readAs (h.2 b hb)
  rw [Json.decode?, ← render_toJson,
    Json.parse?_render (readAs_sourceWith (hsources.imp fun _ _ h => h.1))]
  exact decoder_sourceWith h.1 (hsources.imp fun _ _ h => h.2)

end Manifest

namespace Bundle

/-- The text of the content in the text of a bundle. -/
def contentField? (text : String) : Option String := do
  let source ← Json.Source.parse? text
  let (depth, fields) ← Json.fieldsOf fieldNames Json.maxDepth source
  match fields with
  | [_, _, _, _, content, _] => Json.required .text depth content
  | _ => none

/-- One text gives a content. -/
theorem contentOfText?_eq_some_iff {text : String} {content : List UInt8} :
    contentOfText? text = some content ↔ text = Base64.encodeText content := by
  rw [← Base64.decodeText_eq_ok_iff, contentOfText?]
  cases Base64.decodeText text <;> simp [Except.toOption]

/-- A bundle is read with what the field of its content gives. -/
theorem exists_content_of_decoder {depth : Nat} {source : Json.Source} {b : Bundle}
    (h : decoder depth source = some b) :
    ∃ (inner : Nat) (kind space name hash content config : Option Json.Source),
      Json.fieldsOf fieldNames depth source =
        some (inner, [kind, space, name, hash, content, config]) ∧
      Json.required (Json.Decoder.text.andThen contentOfText?) inner content = some b.content := by
  rw [decoder, ← fieldNames] at h
  obtain ⟨⟨inner, fields⟩, hfields, h⟩ := Option.bind_eq_some_iff.1 h
  dsimp only at h
  split at h
  · rename_i kind space name hash content config
    simp only [Option.bind_eq_bind, Option.bind_eq_some_iff, Option.pure_def,
      Option.some.injEq] at h
    obtain ⟨_, -, _, -, _, -, _, -, bytes, hcontent, _, -, rfl⟩ := h
    exact ⟨inner, kind, space, name, hash, content, config, hfields, hcontent⟩
  · cases h

/-- A text that a bundle is read from spells the content of the bundle. -/
theorem contentField?_of_decode? {text : String} {b : Bundle}
    (h : Json.decode? decoder text = some b) :
    contentField? text = some (Base64.encodeText b.content) := by
  obtain ⟨source, hsource, h⟩ := Option.bind_eq_some_iff.1 h
  obtain ⟨inner, kind, space, name, hash, content, config, hfields, hcontent⟩ :=
    exists_content_of_decoder h
  obtain ⟨found, rfl, hfound⟩ := Option.bind_eq_some_iff.1 hcontent
  obtain ⟨spelled, hspelled, hbytes⟩ := Option.bind_eq_some_iff.1 hfound
  rw [contentOfText?_eq_some_iff] at hbytes
  rw [contentField?, hsource]
  simp only [Option.bind_eq_bind, Option.bind_some, hfields, Json.required, hspelled, hbytes]

/-- The text that a bundle is written as spells its content. -/
theorem contentField?_render (b : Bundle) :
    contentField? b.render = some (Base64.encodeText b.content) := by
  obtain ⟨config, hconfig⟩ : ∃ config, Option.Rel
      (fun members source => Json.ReadAs (.object members) source) b.config config := by
    cases b.config with
    | none => exact ⟨none, .none⟩
    | some members =>
        obtain ⟨source, hread⟩ := Json.exists_readAs (.object members)
        exact ⟨some source, .some hread⟩
  rw [contentField?, ← render_toJson, Json.parse?_render (readAs_sourceWith hconfig)]
  simp only [Option.bind_some, Option.bind_eq_bind, Json.maxDepth, fieldsOf_sourceWith, texts,
    List.map_cons, List.map_nil, List.cons_append, List.nil_append, Json.required,
    Json.Decoder.text, Json.textOfUnits?_map_unitOf, Option.map_some, String.ofList_toList]

/-- A bundle whose configuration is read back is read back from its text. -/
theorem decode?_render {b : Bundle}
    (h : ∀ config ∈ b.config, (Json.object config).Storable (Json.maxDepth - 1)) :
    Json.decode? decoder b.render = some b := by
  obtain ⟨source, hread, hdecode⟩ := exists_readAs h
  rw [Json.decode?, ← render_toJson, Json.parse?_render hread]
  exact hdecode

end Bundle

/-- Manifests, migrations and proposals are read back from the texts they are
written as. The content of a bundle that is read has one text, which the text of
the bundle spells, and the bundle is written with that text again. -/
theorem stored_read_back :
    (∀ m : Manifest, m.Storable → Json.decode? Manifest.decoder m.render = some m) ∧
    (∀ m : Migration, Json.decode? Migration.decoder m.render = some m) ∧
    (∀ p : Proposal, p.token < UInt64.size → Json.decode? Proposal.decoder p.render = some p) ∧
    ∀ (text : String) (b : Bundle), Json.decode? Bundle.decoder text = some b →
      ∃ spelled, Bundle.contentField? text = some spelled ∧
        (∀ other, Bundle.contentOfText? other = some b.content ↔ other = spelled) ∧
        Bundle.contentField? b.render = some spelled :=
  ⟨fun _ h => h.decode?_render, Migration.decode?_render, fun _ h => Proposal.decode?_render h,
    fun _ b h => ⟨Base64.encodeText b.content, Bundle.contentField?_of_decode? h,
      fun _ => Bundle.contentOfText?_eq_some_iff, Bundle.contentField?_render b⟩⟩

/-- A bundle without a configuration, whose content is not UTF-8. -/
def binaryBundle : Bundle where
  kind := .schema
  space := "main"
  name := "a\"\\\x01"
  hash := ""
  content := [0xFF, 0x00]
  config := none

/-- A manifest of a leap second, with a configuration that nests. -/
def nestedManifest : Manifest where
  id := "m1"
  project := "p1"
  version := "1\n"
  bundles := [binaryBundle,
    { kind := .logic, space := "é", name := "b", hash := "h", content := []
      config := some [("limits", .object [("max", .number (.int 18446744073709551615))]),
        ("tags", .array [.null, .bool true, .text "\""])] }]
  createdAt := ⟨1483228799, 1500000000⟩
  createdBy := "ci"

theorem nestedManifest_storable : nestedManifest.Storable := by
  have hlimits : (Json.object [("max", .number (.int 18446744073709551615))]).Storable 123 :=
    .object (List.pairwise_singleton ..) fun m hm => by
      rw [List.mem_singleton.1 hm]
      exact .int 122 (by decide) (by decide)
  have htags : (Json.array [.null, .bool true, .text "\""]).Storable 123 :=
    .array (List.forall_mem_cons.2 ⟨.null 122, List.forall_mem_cons.2 ⟨.bool 122 true,
      List.forall_mem_singleton.2 (.text 122 _)⟩⟩)
  refine ⟨by decide, ?_⟩
  simp only [nestedManifest, binaryBundle, List.forall_mem_cons, Option.mem_def, reduceCtorEq,
    Option.some.injEq, forall_eq', false_implies, implies_true, true_and, List.not_mem_nil,
    and_true]
  exact .object (List.pairwise_pair.2 (by decide)) (List.forall_mem_cons.2
    ⟨hlimits, List.forall_mem_singleton.2 htags⟩)

theorem nestedManifest_read_back :
    nestedManifest.Storable ∧
    Json.decode? Manifest.decoder nestedManifest.render = some nestedManifest ∧
    2 ^ 64 - 1 < UInt64.size ∧
    Json.decode? Proposal.decoder (Proposal.render ⟨[default], true, "", 2 ^ 64 - 1⟩) =
      some ⟨[default], true, "", 2 ^ 64 - 1⟩ ∧
    Json.decode? Bundle.decoder binaryBundle.render = some binaryBundle ∧
    Bundle.contentField? binaryBundle.render = some "/wA=" := by
  obtain ⟨hmanifest, -, hproposal, hbundle⟩ := stored_read_back
  have htoken : 2 ^ 64 - 1 < UInt64.size := by decide
  have hread : Json.decode? Bundle.decoder binaryBundle.render = some binaryBundle :=
    Bundle.decode?_render (by simp [binaryBundle])
  obtain ⟨spelled, hspelled, hone, -⟩ := hbundle _ _ hread
  have hcontent : "/wA=" = spelled :=
    (hone "/wA=").1 (Bundle.contentOfText?_eq_some_iff.2 (by decide))
  exact ⟨nestedManifest_storable, hmanifest _ nestedManifest_storable, htoken,
    hproposal _ htoken, hread, hcontent ▸ hspelled⟩

end ProjectHub
