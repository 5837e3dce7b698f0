import Mathlib.Data.List.Nodup
import ProjectHub.Proofs.Run
import ProjectHub.Settings.Source

/-!
# What layers of settings come to

A setting has the value that the highest layer gives it. Main statement: layers
whose precedences differ give the same settings in any order, namely for each
field the value of the highest layer that gives it, and the built-in one where
no layer does.

Everything is said of one field at a time. A field of a merge is the field of
the upper layer, or else that of the lower one, so a field of a merge of many is
the first that is found from the top, and no other field counts in it.
-/

namespace ProjectHub.Settings

/-- The fields of a layer, which are the settings of a hub. -/
inductive Field where
  | databaseUrl
  | masterKey
  | connectTimeout
  | databaseUrlKey
  | edgeEnabled
  | edgeUrl
  | edgeToken
  | edgeDirectory
  | edgeTimeout
  | logLevel
  | logJson
  deriving DecidableEq

namespace Field

/-- The type of what a field says. -/
abbrev Value : Field → Type
  | databaseUrl | databaseUrlKey | edgeUrl | edgeDirectory | logLevel => String
  | masterKey | edgeToken => Secret
  | connectTimeout | edgeTimeout => Nat
  | edgeEnabled | logJson => Bool

/-- What a field is when nobody gives it, with `home` as the home directory. -/
def builtIn? (home : String) : (field : Field) → Option field.Value
  | databaseUrl => some "sqlite:./santokit-hub.db"
  | masterKey => none
  | connectTimeout => some 10
  | databaseUrlKey => some "database_url"
  | edgeEnabled => some true
  | edgeUrl => none
  | edgeToken => none
  | edgeDirectory => some (defaultDirectory home)
  | edgeTimeout => some 10
  | logLevel => some "info"
  | logJson => some false

end Field

/-- What a layer says in a field. A section that is missing says nothing. -/
def Layer.get (layer : Layer) : (field : Field) → Option field.Value
  | .databaseUrl => (layer.database.getD {}).url
  | .masterKey => (layer.vault.getD {}).masterKey
  | .connectTimeout => (layer.schema.getD {}).connectTimeout
  | .databaseUrlKey => (layer.schema.getD {}).databaseUrlKey
  | .edgeEnabled => (layer.edge.getD {}).enabled
  | .edgeUrl => (layer.edge.getD {}).url
  | .edgeToken => (layer.edge.getD {}).token
  | .edgeDirectory => (layer.edge.getD {}).directory
  | .edgeTimeout => (layer.edge.getD {}).timeout
  | .logLevel => (layer.log.getD {}).level
  | .logJson => (layer.log.getD {}).json

/-- The layer that says `value` in a field, and all else as before. -/
def Layer.set (layer : Layer) : (field : Field) → Option field.Value → Layer
  | .databaseUrl, value =>
      { layer with database := some { layer.database.getD {} with url := value } }
  | .masterKey, value =>
      { layer with vault := some { layer.vault.getD {} with masterKey := value } }
  | .connectTimeout, value =>
      { layer with schema := some { layer.schema.getD {} with connectTimeout := value } }
  | .databaseUrlKey, value =>
      { layer with schema := some { layer.schema.getD {} with databaseUrlKey := value } }
  | .edgeEnabled, value =>
      { layer with edge := some { layer.edge.getD {} with enabled := value } }
  | .edgeUrl, value =>
      { layer with edge := some { layer.edge.getD {} with url := value } }
  | .edgeToken, value =>
      { layer with edge := some { layer.edge.getD {} with token := value } }
  | .edgeDirectory, value =>
      { layer with edge := some { layer.edge.getD {} with directory := value } }
  | .edgeTimeout, value =>
      { layer with edge := some { layer.edge.getD {} with timeout := value } }
  | .logLevel, value =>
      { layer with log := some { layer.log.getD {} with level := value } }
  | .logJson, value =>
      { layer with log := some { layer.log.getD {} with json := value } }

/-- What settings have in a field. -/
def get (s : Settings) : (field : Field) → Option field.Value
  | .databaseUrl => some s.database.url
  | .masterKey => s.vault.masterKey
  | .connectTimeout => some s.schema.connectTimeout
  | .databaseUrlKey => some s.schema.databaseUrlKey
  | .edgeEnabled => some s.edge.enabled
  | .edgeUrl => s.edge.url
  | .edgeToken => s.edge.token
  | .edgeDirectory => some s.edge.directory
  | .edgeTimeout => some s.edge.timeout
  | .logLevel => some s.log.level
  | .logJson => some s.log.json

/-- Settings are what they have in their fields. -/
theorem eq_of_get_eq {s t : Settings} (h : ∀ field, s.get field = t.get field) : s = t := by
  obtain ⟨⟨_⟩, ⟨_⟩, ⟨_, _⟩, ⟨_, _, _, _, _⟩, ⟨_, _⟩⟩ := s
  obtain ⟨⟨_⟩, ⟨_⟩, ⟨_, _⟩, ⟨_, _, _, _, _⟩, ⟨_, _⟩⟩ := t
  have url := h .databaseUrl
  have masterKey := h .masterKey
  have connectTimeout := h .connectTimeout
  have databaseUrlKey := h .databaseUrlKey
  have enabled := h .edgeEnabled
  have edgeUrl := h .edgeUrl
  have token := h .edgeToken
  have directory := h .edgeDirectory
  have timeout := h .edgeTimeout
  have level := h .logLevel
  have json := h .logJson
  simp only [get, Option.some.injEq] at *
  subst_vars
  rfl

theorem some_getD {α : Type} (value : Option α) (other : α) :
    some (value.getD other) = value.or (some other) := by
  cases value <;> rfl

/-- A field that the layer leaves open has its built-in value. -/
theorem get_resolve (home : String) (layer : Layer) (field : Field) :
    (resolve home layer).get field = (layer.get field).or (field.builtIn? home) := by
  cases field with
  | masterKey | edgeUrl | edgeToken => exact (Option.or_none ..).symm
  | _ => exact some_getD _ _

namespace Layer

@[simp] theorem get_empty (field : Field) : empty.get field = none := by
  cases field <;> rfl

@[simp] theorem get_set_self (layer : Layer) (field : Field) (value : Option field.Value) :
    (layer.set field value).get field = value := by
  cases field <;> rfl

theorem get_set_of_ne (layer : Layer) {field other : Field} (value : Option field.Value)
    (hne : other ≠ field) : (layer.set field value).get other = layer.get other := by
  cases field <;> cases other <;> first | rfl | exact absurd rfl hne

/-- The upper section counts in a field where it gives it. -/
theorem pick_mergeSection {α β : Type} {merge : α → α → α} {blank : α} (pick : α → Option β)
    (hmerge : ∀ lower upper, pick (merge lower upper) = (pick upper).or (pick lower))
    (hblank : pick blank = none) (lower upper : Option α) :
    pick ((mergeSection merge lower upper).getD blank) =
      (pick (upper.getD blank)).or (pick (lower.getD blank)) := by
  cases lower with
  | none => cases upper <;> simp [mergeSection, hblank]
  | some lower => cases upper <;> simp [mergeSection, hblank, hmerge]

/-- The upper layer counts in a field where it gives it. -/
@[simp] theorem get_merge (lower upper : Layer) (field : Field) :
    (lower.merge upper).get field = (upper.get field).or (lower.get field) := by
  cases field with
  | databaseUrl => exact pick_mergeSection DatabaseLayer.url (fun _ _ => rfl) rfl _ _
  | masterKey => exact pick_mergeSection VaultLayer.masterKey (fun _ _ => rfl) rfl _ _
  | connectTimeout => exact pick_mergeSection SchemaLayer.connectTimeout (fun _ _ => rfl) rfl _ _
  | databaseUrlKey => exact pick_mergeSection SchemaLayer.databaseUrlKey (fun _ _ => rfl) rfl _ _
  | edgeEnabled => exact pick_mergeSection EdgeLayer.enabled (fun _ _ => rfl) rfl _ _
  | edgeUrl => exact pick_mergeSection EdgeLayer.url (fun _ _ => rfl) rfl _ _
  | edgeToken => exact pick_mergeSection EdgeLayer.token (fun _ _ => rfl) rfl _ _
  | edgeDirectory => exact pick_mergeSection EdgeLayer.directory (fun _ _ => rfl) rfl _ _
  | edgeTimeout => exact pick_mergeSection EdgeLayer.timeout (fun _ _ => rfl) rfl _ _
  | logLevel => exact pick_mergeSection LogLayer.level (fun _ _ => rfl) rfl _ _
  | logJson => exact pick_mergeSection LogLayer.json (fun _ _ => rfl) rfl _ _

/-- Merging sections is associative where merging given ones is. -/
theorem mergeSection_assoc {α : Type} {merge : α → α → α}
    (hassoc : ∀ a b c, merge (merge a b) c = merge a (merge b c)) (a b c : Option α) :
    mergeSection merge (mergeSection merge a b) c = mergeSection merge a (mergeSection merge b c) := by
  cases a <;> cases b <;> cases c <;> simp [mergeSection, hassoc]

theorem merge_assoc (a b c : Layer) : (a.merge b).merge c = a.merge (b.merge c) := by
  simp only [merge, mk.injEq]
  refine ⟨mergeSection_assoc ?_ _ _ _, mergeSection_assoc ?_ _ _ _, mergeSection_assoc ?_ _ _ _,
    mergeSection_assoc ?_ _ _ _, mergeSection_assoc ?_ _ _ _⟩ <;>
    intro a b c
  · simp only [DatabaseLayer.merge, Option.or_assoc]
  · simp only [VaultLayer.merge, Option.or_assoc]
  · simp only [SchemaLayer.merge, Option.or_assoc]
  · simp only [EdgeLayer.merge, Option.or_assoc]
  · simp only [LogLayer.merge, Option.or_assoc]

@[simp] theorem mergeSection_none {α : Type} (merge : α → α → α) (a : Option α) :
    mergeSection merge a none = a := by
  cases a <;> rfl

@[simp] theorem none_mergeSection {α : Type} (merge : α → α → α) (a : Option α) :
    mergeSection merge none a = a := rfl

@[simp] theorem merge_empty (layer : Layer) : layer.merge empty = layer := by
  simp [merge, empty]

@[simp] theorem empty_merge (layer : Layer) : empty.merge layer = layer := by
  simp [merge, empty]

/-- A field of a merge is the first that is found from the top. -/
theorem get_mergeAll (layers : List Layer) (field : Field) :
    (mergeAll layers).get field = layers.reverse.findSome? fun layer => layer.get field := by
  suffices h : ∀ below : Layer, (layers.foldl merge below).get field =
      (layers.reverse.findSome? fun layer => layer.get field).or (below.get field) by
    rw [mergeAll, h, get_empty, Option.or_none]
  induction layers with
  | nil => intro below; rfl
  | cons layer layers ih =>
      intro below
      rw [List.foldl_cons, ih, get_merge, List.reverse_cons, List.findSome?_append,
        Option.or_assoc]
      simp only [List.findSome?_cons, List.findSome?_nil]
      cases layer.get field <;> rfl

end Layer

/-! ### Order by precedence -/

section Order

variable {α β : Type} (key : α → Nat)

theorem pairwise_mergeSort_key (l : List α) :
    (l.mergeSort fun a b => key a ≤ key b).Pairwise fun a b => key a ≤ key b := by
  have h : (l.mergeSort fun a b => key a ≤ key b).Pairwise fun a b =>
      decide (key a ≤ key b) = true := by
    refine List.pairwise_mergeSort (fun a b c hab hbc => ?_) (fun a b => ?_) l
    · rw [decide_eq_true_iff] at *
      exact Nat.le_trans hab hbc
    · rw [Bool.or_eq_true, decide_eq_true_iff, decide_eq_true_iff]
      exact Nat.le_total (key a) (key b)
  simpa only [decide_eq_true_eq] using h

/-- A map that keeps the keys keeps the order. -/
theorem mergeSort_key_map (k : β → Nat) {f : α → β} (hkey : ∀ a, k (f a) = key a)
    (l : List α) : ((l.map f).mergeSort fun a b => k a ≤ k b) =
      (l.mergeSort fun a b => key a ≤ key b).map f := by
  refine (List.map_mergeSort fun a _ b _ => ?_).symm
  rw [hkey, hkey]

/-- Items whose keys differ have one ascending order. -/
theorem mergeSort_key_eq_of_perm {l other : List α} (hnodup : (l.map key).Nodup)
    (hperm : other.Perm l) :
    (other.mergeSort fun a b => key a ≤ key b) = l.mergeSort fun a b => key a ≤ key b := by
  have hsame := (List.mergeSort_perm other fun a b => key a ≤ key b).trans
    (hperm.trans (List.mergeSort_perm l fun a b => key a ≤ key b).symm)
  refine List.Perm.eq_of_pairwise ?_ (pairwise_mergeSort_key key other)
    (pairwise_mergeSort_key key l) hsame
  intro a b ha hb hab hba
  have ha' : a ∈ l := hperm.subset (List.mem_mergeSort.1 ha)
  have hb' : b ∈ l := List.mem_mergeSort.1 hb
  exact List.inj_on_of_nodup_map hnodup ha' hb' (Nat.le_antisymm hab hba)

end Order

/-- A layer and the precedence of its source. -/
abbrev Ranked := Nat × Layer

/-- Layers in ascending precedence. -/
def ascending (ranked : List Ranked) : List Ranked :=
  ranked.mergeSort fun a b => a.1 ≤ b.1

/-- The merge of layers by precedence. -/
def mergeRanked (ranked : List Ranked) : Layer :=
  Layer.mergeAll ((ascending ranked).map Prod.snd)

/-- The settings that layers give together, in the order of their precedences. -/
def ofRanked (home : String) (ranked : List Ranked) : Except Error Settings :=
  ofLayer home (mergeRanked ranked)

/-- A field of a merge is the first that is found from the highest layer down. -/
theorem get_mergeRanked (ranked : List Ranked) (field : Field) :
    (mergeRanked ranked).get field =
      (ascending ranked).reverse.findSome? fun layer => layer.2.get field := by
  rw [mergeRanked, Layer.get_mergeAll, ← List.map_reverse, List.findSome?_map]
  rfl

/-- A field of a merge depends on that field of the layers alone. -/
theorem get_mergeRanked_congr {ranked other : List Ranked} {field : Field}
    (h : (ranked.map fun layer => (layer.1, layer.2.get field)) =
      other.map fun layer => (layer.1, layer.2.get field)) :
    (mergeRanked ranked).get field = (mergeRanked other).get field := by
  have hget : ∀ layers : List Ranked, (mergeRanked layers).get field =
      ((layers.map fun layer => (layer.1, layer.2.get field)).mergeSort
        fun a b => a.1 ≤ b.1).reverse.findSome? Prod.snd := by
    intro layers
    have hsort := mergeSort_key_map Prod.fst Prod.fst
      (f := fun layer : Ranked => (layer.1, layer.2.get field)) (fun _ => rfl) layers
    rw [get_mergeRanked, ascending, hsort, ← List.map_reverse, List.findSome?_map]
    rfl
  rw [hget, hget, h]

/-- What a layer says in one field counts in no other. -/
theorem get_mergeRanked_set (below above : List Ranked) (precedence : Nat) (layer : Layer)
    {field other : Field} (value : Option field.Value) (hne : other ≠ field) :
    (mergeRanked (below ++ (precedence, layer.set field value) :: above)).get other =
      (mergeRanked (below ++ (precedence, layer) :: above)).get other := by
  refine get_mergeRanked_congr ?_
  rw [List.map_append, List.map_append, List.map_cons, List.map_cons,
    Layer.get_set_of_ne layer value hne]

/-! ### The highest layer -/

/-- `value` is that of the highest layer that gives the field, and the built-in
one where no layer does. -/
def FromHighest (home : String) (ranked : List Ranked) (field : Field)
    (value : Option field.Value) : Prop :=
  (∃ top ∈ ranked, (top.2.get field).isSome ∧ value = top.2.get field ∧
    ∀ other ∈ ranked, (other.2.get field).isSome → other.1 ≤ top.1) ∨
  ((∀ other ∈ ranked, other.2.get field = none) ∧ value = field.builtIn? home)

/-- Layers whose precedences differ leave one value to a field. -/
theorem FromHighest.unique {home : String} {ranked : List Ranked} {field : Field}
    {value other : Option field.Value} (hnodup : (ranked.map Prod.fst).Nodup)
    (h : FromHighest home ranked field value) (h' : FromHighest home ranked field other) :
    value = other := by
  rcases h with ⟨top, hmem, hsome, rfl, htop⟩ | ⟨hnone, rfl⟩
  · rcases h' with ⟨top', hmem', hsome', rfl, htop'⟩ | ⟨hnone', -⟩
    · have hkey : top.1 = top'.1 :=
        Nat.le_antisymm (htop' top hmem hsome) (htop top' hmem' hsome')
      rw [List.inj_on_of_nodup_map hnodup hmem hmem' hkey]
    · rw [hnone' top hmem] at hsome
      cases hsome
  · rcases h' with ⟨top', hmem', hsome', -, -⟩ | ⟨-, rfl⟩
    · rw [hnone top' hmem'] at hsome'
      cases hsome'
    · rfl

/-- What the merge of layers resolves to has its fields from the highest layers. -/
theorem fromHighest_resolve (home : String) (ranked : List Ranked) (field : Field) :
    FromHighest home ranked field ((resolve home (mergeRanked ranked)).get field) := by
  have hmem : ∀ layer, layer ∈ (ascending ranked).reverse ↔ layer ∈ ranked := fun layer =>
    List.mem_reverse.trans List.mem_mergeSort
  rw [get_resolve, get_mergeRanked]
  cases hfind : (ascending ranked).reverse.findSome? fun layer => layer.2.get field with
  | none =>
      rw [List.findSome?_eq_none_iff] at hfind
      exact .inr ⟨fun other hother => hfind other ((hmem other).2 hother), rfl⟩
  | some value =>
      -- The layers found before the top one are those above it, and they are silent.
      obtain ⟨above, top, below, hsplit, hvalue, habove⟩ := List.findSome?_eq_some_iff.1 hfind
      have hsorted := List.pairwise_reverse.2 (pairwise_mergeSort_key Prod.fst ranked)
      rw [← ascending, hsplit] at hsorted
      refine .inl ⟨top, ?_, ?_, ?_, ?_⟩
      · exact (hmem top).1 (hsplit ▸ List.mem_append_right above (List.mem_cons_self ..))
      · rw [hvalue]
        rfl
      · rw [hvalue]
        rfl
      · intro other hother hsome
        have hother' := (hmem other).2 hother
        rw [hsplit, List.mem_append, List.mem_cons] at hother'
        rcases hother' with hother' | rfl | hother'
        · rw [habove other hother'] at hsome
          cases hsome
        · exact Nat.le_refl _
        · exact (List.pairwise_cons.1 (List.pairwise_append.1 hsorted).2.1).1 other hother'

/-! ### Sources -/

theorem ofLayer_eq (home : String) (layer : Layer) :
    ofLayer home layer = (check (resolve home layer)).map fun _ => resolve home layer := by
  rw [ofLayer]
  cases check (resolve home layer) <;> rfl

/-- Accepted settings are what the layer resolves to. -/
theorem eq_resolve_of_ofLayer {home : String} {layer : Layer} {s : Settings}
    (h : ofLayer home layer = .ok s) : s = resolve home layer := by
  rw [ofLayer_eq, map_eq_ok_iff] at h
  exact h.choose_spec.2.symm

/-- Sources that can all be loaded give what their layers do. -/
theorem ofSources_eq_ofRanked (files : FileSystem) (env : Environment)
    (loaded : List (Source × Layer))
    (hload : ∀ pair ∈ loaded, pair.1.load files env = .ok pair.2) :
    ofSources files env (loaded.map Prod.fst) =
      ofRanked env.home (loaded.map fun pair => (pair.1.precedence, pair.2)) := by
  let sorted := loaded.mergeSort fun a b => a.1.precedence ≤ b.1.precedence
  have hsources : inOrder (loaded.map Prod.fst) = sorted.map Prod.fst :=
    mergeSort_key_map _ Source.precedence (fun _ => rfl) loaded
  have hlayers : ascending (loaded.map fun pair => (pair.1.precedence, pair.2)) =
      sorted.map fun pair => (pair.1.precedence, pair.2) :=
    mergeSort_key_map _ Prod.fst (fun _ => rfl) loaded
  have hloads : (sorted.map Prod.fst).mapM (Source.load files env) = .ok (sorted.map Prod.snd) :=
    mapM_map_eq_ok fun pair hpair => hload pair (List.mem_mergeSort.1 hpair)
  rw [ofSources, ofRanked, mergeRanked, hsources, hlayers, hloads, List.map_map]
  rfl

/-- Layers whose precedences differ give, in any order, the settings that have
each field from the highest layer, if these are accepted. Merging is associative,
with the empty layer on either side as its unit, and what one layer says in one
field counts in no other field. -/
theorem settings_from_highest (home : String) (ranked : List Ranked)
    (hnodup : (ranked.map Prod.fst).Nodup) :
    (∀ other : List Ranked, other.Perm ranked → ofRanked home other = ofRanked home ranked) ∧
    (∃ s : Settings, (∀ field, FromHighest home ranked field (s.get field)) ∧
      (∀ t : Settings, (∀ field, FromHighest home ranked field (t.get field)) → t = s) ∧
      ofRanked home ranked = (check s).map fun _ => s) ∧
    (∀ files env, ∀ loaded : List (Source × Layer),
      (∀ pair ∈ loaded, pair.1.load files env = .ok pair.2) →
      ofSources files env (loaded.map Prod.fst) =
        ofRanked env.home (loaded.map fun pair => (pair.1.precedence, pair.2))) ∧
    (∀ a b c : Layer, (a.merge b).merge c = a.merge (b.merge c)) ∧
    (∀ a : Layer, a.merge .empty = a ∧ Layer.empty.merge a = a) ∧
    (∀ (below above : List Ranked) (precedence : Nat) (layer : Layer) (field : Field)
        (value : Option field.Value) (other : Field), other ≠ field →
      (mergeRanked (below ++ (precedence, layer.set field value) :: above)).get other =
        (mergeRanked (below ++ (precedence, layer) :: above)).get other ∧
      ∀ s t, ofRanked home (below ++ (precedence, layer.set field value) :: above) = .ok s →
        ofRanked home (below ++ (precedence, layer) :: above) = .ok t →
        s.get other = t.get other) := by
  refine ⟨?_, ?_, ?_, Layer.merge_assoc, fun a => ⟨a.merge_empty, a.empty_merge⟩, ?_⟩
  · intro other hperm
    rw [ofRanked, mergeRanked, ascending, mergeSort_key_eq_of_perm Prod.fst hnodup hperm]
    rfl
  · refine ⟨resolve home (mergeRanked ranked), fromHighest_resolve home ranked, ?_,
      ofLayer_eq home _⟩
    intro t ht
    exact eq_of_get_eq fun field =>
      (ht field).unique hnodup (fromHighest_resolve home ranked field)
  · exact fun files env loaded hload => ofSources_eq_ofRanked files env loaded hload
  · intro below above precedence layer field value other hne
    have hget := get_mergeRanked_set below above precedence layer value hne
    refine ⟨hget, fun s t hs ht => ?_⟩
    rw [eq_resolve_of_ofLayer hs, eq_resolve_of_ofLayer ht, get_resolve, get_resolve, hget]

/-- Three layers, the highest first. -/
def mixedLayers : List Ranked :=
  [(50, { edge := some { timeout := some 3 } }),
    (10, .empty),
    (20, { vault := some { masterKey := some ⟨"key"⟩ },
           edge := some { timeout := some 7, token := some ⟨"token"⟩ } })]

/-- The settings of those layers: the timeout from the highest, the token of the
same section from the one below. -/
def mixedSettings : Settings where
  database := {}
  vault := { masterKey := some ⟨"key"⟩ }
  schema := {}
  edge := { token := some ⟨"token"⟩, directory := "/root/.santokit/tmp/kv", timeout := 3 }
  log := {}

theorem settings_from_mixedLayers :
    (mixedLayers.map Prod.fst).Nodup ∧
    ∀ other : List Ranked, other.Perm mixedLayers → ofRanked "/root" other = .ok mixedSettings := by
  have hnodup : (mixedLayers.map Prod.fst).Nodup := by decide
  refine ⟨hnodup, fun other hperm => ?_⟩
  obtain ⟨hany, ⟨s, -, hunique, hresult⟩, -⟩ := settings_from_highest "/root" mixedLayers hnodup
  have hs : mixedSettings = s := hunique mixedSettings fun field => by
    cases field <;> (unfold FromHighest; decide +kernel)
  rw [hany other hperm, hresult, ← hs]
  rfl

end ProjectHub.Settings
