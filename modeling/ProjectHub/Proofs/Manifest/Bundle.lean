import ProjectHub.Manifest.Basic
import ProjectHub.Proofs.Encoding.Base64
import ProjectHub.Proofs.Json.Value

/-!
# Bundles written are read back

A bundle is written as a record of texts, its content in Base64, with its
configuration where it has one. A list of bundles whose configurations are
storable is read back from its text as it was.
-/

namespace ProjectHub

namespace Bundle

/-- A bundle whose configuration, if it has one, is read back from inside a list of bundles. -/
def Storable (b : Bundle) : Prop :=
  ∀ config ∈ b.config, (Json.object config).Storable (Json.maxDepth - 2)

/-- The texts that a bundle is written with, by the names of their members. -/
def texts (b : Bundle) : List (String × String) :=
  [("type", b.kind.word), ("namespace", b.space), ("name", b.name), ("hash", b.hash),
    ("content", Base64.encodeText b.content)]

/-- The value that a bundle is written as. -/
def toJson (b : Bundle) : Json :=
  .object (b.texts.map (fun m => (m.1, .text m.2)) ++
    (b.config.map fun config => ("config", .object config)).toList)

theorem render_toJson (b : Bundle) : b.toJson.render = b.render := by
  rw [toJson, ← Json.renderRecord_map, List.map_append, List.map_map]
  unfold render
  congr 1
  cases b.config with
  | none => simp [texts, Json.render]
  | some config => simp [texts, Json.render]

theorem render_array (bundles : List Bundle) :
    (Json.array (bundles.map toJson)).render = renderList bundles := by
  have hitems : (bundles.map toJson).map Json.render = bundles.map render := by
    rw [List.map_map]
    exact List.map_congr_left fun b _ => render_toJson b
  rw [Json.render_array, hitems, renderList]

theorem contentOfText?_encodeText (content : List UInt8) :
    contentOfText? (Base64.encodeText content) = some content := by
  rw [contentOfText?, Base64.decodeText_eq_ok_iff.mpr rfl]
  rfl

theorem ofWord?_word (kind : BundleKind) : BundleKind.ofWord? kind.word = some kind := by
  cases kind <;> rfl

/-- The names of the fields of a bundle. -/
def fieldNames : List String :=
  ["type", "namespace", "name", "hash", "content", "config"]

/-- The syntax that a bundle is read from, given that of its configuration. -/
def sourceWith (b : Bundle) (config : Option Json.Source) : Json.Source :=
  Json.recordSource (b.texts.map (fun m => (m.1, .text (m.2.toList.map Json.unitOf))) ++
    (config.map fun source => ("config", source)).toList)

/-- In the syntax of a bundle each text is found under its name. -/
theorem fieldsOf_sourceWith (b : Bundle) (config : Option Json.Source) (depth : Nat) :
    Json.fieldsOf fieldNames (depth + 1) (b.sourceWith config) =
      some (depth, b.texts.map (fun m => some (.text (m.2.toList.map Json.unitOf))) ++ [config]) := by
  cases config with
  | none =>
      rw [sourceWith, Json.recordSource, Json.fieldsOf, Json.collectFields_map]
      rfl
  | some source =>
      have hnodup : fieldNames.Nodup := by decide
      exact Json.fieldsOf_recordSource hnodup rfl depth

theorem decoder_sourceWith {b : Bundle} {depth : Nat} {config : Option Json.Source}
    (h : Json.withDefault (.optional .members) none depth config = some b.config) :
    decoder (depth + 1) (b.sourceWith config) = some b := by
  rw [decoder, ← fieldNames, fieldsOf_sourceWith]
  simp [texts, Json.required, Json.Decoder.word?, Json.Decoder.text, Json.Decoder.andThen,
    Json.textOfUnits?_map_unitOf, ofWord?_word, contentOfText?_encodeText, h]

theorem readAs_sourceWith {b : Bundle} {config : Option Json.Source}
    (h : Option.Rel (fun members source => Json.ReadAs (.object members) source) b.config config) :
    Json.ReadAs b.toJson (b.sourceWith config) := by
  refine Json.readAs_record (List.rel_append ?_ ?_)
  · rw [List.forall₂_map_left_iff, List.forall₂_map_right_iff, List.forall₂_same]
    exact fun m _ => ⟨rfl, Json.readAs_text m.2⟩
  · generalize b.config = found at h
    cases h with
    | none => exact .nil
    | some h => exact .cons ⟨rfl, h⟩ .nil

/-- A bundle whose configuration is read back is read back itself. -/
theorem exists_readAs {b : Bundle} {depth : Nat}
    (h : ∀ config ∈ b.config, (Json.object config).Storable depth) :
    ∃ source, Json.ReadAs b.toJson source ∧ decoder (depth + 1) source = some b := by
  cases hconfig : b.config with
  | none =>
      refine ⟨b.sourceWith none, readAs_sourceWith (hconfig ▸ .none), decoder_sourceWith ?_⟩
      rw [hconfig]
      rfl
  | some config =>
      obtain ⟨source, hread, hvalue⟩ := (h config hconfig).exists_readAs
      refine ⟨b.sourceWith (some source), readAs_sourceWith (hconfig ▸ .some hread),
        decoder_sourceWith ?_⟩
      rw [hconfig]
      exact Json.optional_members_of_value? hvalue

/-- Storable bundles are read back from the text of their list. -/
theorem decode?_renderList {bundles : List Bundle} (h : ∀ b ∈ bundles, b.Storable) :
    Json.decode? (.list decoder) (renderList bundles) = some bundles := by
  obtain ⟨sources, hsources⟩ := Json.exists_forall₂ fun b hb => exists_readAs (h b hb)
  have hread : Json.ReadAs (.array (bundles.map toJson)) (.array sources) := by
    refine Json.readAs_array ?_
    rw [List.forall₂_map_left_iff]
    exact hsources.imp fun _ _ h => h.1
  have hdecode : sources.mapM (decoder (Json.maxDepth - 1)) = some bundles :=
    mapM_of_forall₂ (hsources.imp fun _ _ h => h.2)
  rw [Json.decode?, ← render_array, Json.parse?_render hread]
  exact hdecode

end Bundle

end ProjectHub
