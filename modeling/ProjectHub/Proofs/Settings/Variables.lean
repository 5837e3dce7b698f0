import Mathlib.Data.Nat.Digits.Defs
import ProjectHub.Proofs.Settings.Layering

/-!
# Settings that variables spell

A truth value and a number of the environment are each given by a text. Main statement: a
number that is not spelled is an error, so that there are no settings; a truth value that
is not spelled is taken for false, and counts as such over any file.
-/

namespace ProjectHub

namespace Text

/-- The truth value that a text spells: a word in any case, or a digit. -/
def truthOf? (text : String) : Option Bool :=
  if lowerAscii text = "true" ∨ text = "1" then some true
  else if lowerAscii text = "false" ∨ text = "0" then some false
  else none

/-- The value of decimal digits, the highest first. -/
def valueOfDigits (digits : List Char) : Nat :=
  Nat.ofDigits 10 (digits.map fun c => c.toNat - '0'.toNat).reverse

/-- Whether a text spells a number of 64 bits: digits, behind a plus sign if there is one. -/
def SpellsNumber (text : String) (n : Nat) : Prop :=
  ∃ digits, (text.toList = digits ∨ text.toList = '+' :: digits) ∧ digits ≠ [] ∧
    (∀ c ∈ digits, c.isDigit = true) ∧ valueOfDigits digits = n ∧ n < 2 ^ 64

theorem natOfDigits_eq (digits : List Char) : natOfDigits digits = valueOfDigits digits := by
  induction digits using List.reverseRecOn with
  | nil => rfl
  | append_singleton digits c ih =>
      have hlast : natOfDigits (digits ++ [c]) = 10 * natOfDigits digits + (c.toNat - 48) := by
        simp [natOfDigits]
      rw [hlast, ih]
      simp only [valueOfDigits, List.map_append, List.map_cons, List.map_nil, List.reverse_append,
        List.reverse_cons, List.reverse_nil, List.nil_append, List.singleton_append,
        Nat.ofDigits_cons]
      exact Nat.add_comm _ _

theorem natBelow?_eq_some_iff {text : String} {n : Nat} :
    natBelow? UInt64.size text = some n ↔ SpellsNumber text n := by
  have hread (digits : List Char) : (if (!digits.isEmpty && digits.all Char.isDigit &&
        decide (natOfDigits digits < UInt64.size)) = true then some (natOfDigits digits)
      else none) = some n ↔ digits ≠ [] ∧ (∀ c ∈ digits, c.isDigit = true) ∧
        valueOfDigits digits = n ∧ n < 2 ^ 64 := by
    rw [natOfDigits_eq]
    constructor
    · intro h
      split at h
      · rename_i hdigits
        cases h
        simpa [and_assoc] using hdigits
      · cases h
    · rintro ⟨hne, hdigits, rfl, hlt⟩
      rw [if_pos]
      simpa [hne, and_assoc] using ⟨hdigits, hlt⟩
  unfold natBelow? SpellsNumber
  constructor
  · intro h
    refine ⟨_, ?_, (hread _).mp h⟩
    split
    · rename_i hplus
      exact .inr hplus
    · exact .inl rfl
  · rintro ⟨digits, htext | htext, hdigits⟩
    · simp only [htext]
      split
      · -- A sign is no digit.
        exact absurd (hdigits.2.1 '+' List.mem_cons_self) (by decide)
      · exact (hread _).mpr hdigits
    · simp only [htext]
      exact (hread _).mpr hdigits

end Text

namespace Environment

variable {files : FileSystem} {env : Environment} {name : String}

/-- Whether both secrets can be had, or are not given at all. -/
def HasSecrets (env : Environment) (files : FileSystem) : Prop :=
  (∃ key, env.secret? files "STK_HUB_ENCRYPTION_KEY" = .ok key) ∧
    ∃ token, env.secret? files "STK_HUB_EDGE_KV_TOKEN" = .ok token

/-- The variables that are to spell numbers. -/
def numberVariables : List String :=
  ["STK_HUB_SCHEMA_CONNECT_TIMEOUT_SECS", "STK_HUB_EDGE_TIMEOUT_SECS"]

/-- Whether a variable spells a number, if it is set. -/
def Spelled (env : Environment) (name : String) : Prop :=
  ∀ text, env.text? name = some text → ∃ n, Text.SpellsNumber text n

/-- What is no truth value counts as false. -/
theorem bool?_eq (env : Environment) (name : String) :
    env.bool? name = (env.text? name).map fun text => (Text.truthOf? text).getD false := by
  have hread (text : String) : (Text.sameAscii text "true" || text == "1") =
      decide (Text.lowerAscii text = "true" ∨ text = "1") := by
    rw [Text.sameAscii, show Text.lowerAscii "true" = "true" by decide, Bool.decide_or]
    rfl
  unfold bool?
  congr 1
  funext text
  rw [hread, Text.truthOf?]
  split
  · rename_i htrue
    rw [decide_eq_true htrue]
    rfl
  · rename_i htrue
    rw [decide_eq_false htrue]
    split <;> rfl

theorem number?_cases (env : Environment) (name : String) :
    (env.Spelled name ∧ ∃ value, env.number? name = .ok value ∧
      Option.Rel Text.SpellsNumber (env.text? name) value) ∨
    ∃ text, env.text? name = some text ∧ (∀ n, ¬Text.SpellsNumber text n) ∧
      env.number? name = .error (.notNumber name text) := by
  unfold number? Spelled
  cases env.text? name with
  | none => exact .inl ⟨nofun, none, rfl, .none⟩
  | some text =>
      cases hread : Text.natBelow? UInt64.size text with
      | some n =>
          have hn := Text.natBelow?_eq_some_iff.mp hread
          refine .inl ⟨?_, some n, by simp only [hread], .some hn⟩
          rintro _ ⟨⟩
          exact ⟨n, hn⟩
      | none =>
          refine .inr ⟨text, rfl, fun n hn => ?_, by simp only [hread]⟩
          rw [Text.natBelow?_eq_some_iff.mpr hn] at hread
          cases hread

theorem layer_eq_ok_iff {layer : Settings.Layer} : env.layer files = .ok layer ↔
    ∃ masterKey connectTimeout token timeout,
      env.secret? files "STK_HUB_ENCRYPTION_KEY" = .ok masterKey ∧
      env.number? "STK_HUB_SCHEMA_CONNECT_TIMEOUT_SECS" = .ok connectTimeout ∧
      env.secret? files "STK_HUB_EDGE_KV_TOKEN" = .ok token ∧
      env.number? "STK_HUB_EDGE_TIMEOUT_SECS" = .ok timeout ∧
      layer = {
        database := some { url := env.text? "STK_HUB_DATABASE_URL" }
        vault := some { masterKey := masterKey }
        schema := some {
          connectTimeout := connectTimeout
          databaseUrlKey := env.text? "STK_HUB_SCHEMA_DATABASE_URL_KEY" }
        edge := some {
          enabled := env.bool? "STK_HUB_EDGE_ENABLED"
          url := env.text? "STK_HUB_EDGE_KV_URL"
          token := token
          directory := env.text? "STK_HUB_EDGE_DIR"
          timeout := timeout }
        log := some {
          level := env.text? "STK_HUB_LOG_LEVEL"
          json := env.bool? "STK_HUB_LOG_JSON" } } := by
  unfold Environment.layer
  cases env.secret? files "STK_HUB_ENCRYPTION_KEY" <;>
  cases env.number? "STK_HUB_SCHEMA_CONNECT_TIMEOUT_SECS" <;>
  cases env.secret? files "STK_HUB_EDGE_KV_TOKEN" <;>
  cases env.number? "STK_HUB_EDGE_TIMEOUT_SECS" <;>
  simp [bind, Except.bind, Except.mapError, pure, Except.pure, eq_comm]

theorem exists_number?_iff : (∃ value, env.number? name = .ok value) ↔ env.Spelled name := by
  rcases env.number?_cases name with ⟨hspelled, value, hok, -⟩ | ⟨text, htext, hnone, herror⟩
  · exact iff_of_true ⟨value, hok⟩ hspelled
  · refine iff_of_false (by simp [herror]) fun hspelled => ?_
    obtain ⟨n, hn⟩ := hspelled text htext
    exact hnone n hn

theorem rel_of_number? {value : Option Nat} (h : env.number? name = .ok value) :
    Option.Rel Text.SpellsNumber (env.text? name) value := by
  rcases env.number?_cases name with ⟨-, value', hok, hrel⟩ | ⟨text, -, -, herror⟩
  · rw [h] at hok
    cases hok
    exact hrel
  · rw [h] at herror
    cases herror

/-- The environment can be loaded if its secrets can be had and its numbers are spelled. -/
theorem exists_layer_iff : (∃ layer, env.layer files = .ok layer) ↔
    env.HasSecrets files ∧ ∀ name ∈ numberVariables, env.Spelled name := by
  simp only [numberVariables, List.forall_mem_cons, ← exists_number?_iff,
    HasSecrets, layer_eq_ok_iff]
  constructor
  · rintro ⟨layer, masterKey, connectTimeout, token, timeout, hkey, hconnect, htoken, htimeout, -⟩
    exact ⟨⟨⟨_, hkey⟩, _, htoken⟩, ⟨_, hconnect⟩, ⟨_, htimeout⟩, nofun⟩
  · rintro ⟨⟨⟨_, hkey⟩, _, htoken⟩, ⟨_, hconnect⟩, ⟨_, htimeout⟩, -⟩
    exact ⟨_, _, _, _, _, hkey, hconnect, htoken, htimeout, rfl⟩

/-- With secrets that can be had, what fails is a number. -/
theorem error_of_layer {error : Settings.Error} (hsecrets : env.HasSecrets files)
    (h : env.layer files = .error error) : ∃ name ∈ numberVariables, ∃ text,
      env.text? name = some text ∧ (∀ n, ¬Text.SpellsNumber text n) ∧
        error = .notNumber name text := by
  obtain ⟨⟨key, hkey⟩, token, htoken⟩ := hsecrets
  unfold Environment.layer at h
  rw [hkey, htoken] at h
  rcases env.number?_cases "STK_HUB_SCHEMA_CONNECT_TIMEOUT_SECS" with
    ⟨-, connectTimeout, hconnect, -⟩ | ⟨text, htext, hnone, hconnect⟩
  · rw [hconnect] at h
    rcases env.number?_cases "STK_HUB_EDGE_TIMEOUT_SECS" with
      ⟨-, timeout, htimeout, -⟩ | ⟨text, htext, hnone, htimeout⟩
    · rw [htimeout] at h
      cases h
    · rw [htimeout] at h
      cases h
      exact ⟨_, .tail _ (.head _), text, htext, hnone, rfl⟩
  · rw [hconnect] at h
    cases h
    exact ⟨_, .head _, text, htext, hnone, rfl⟩

end Environment

namespace Settings

variable {files : FileSystem} {env : Environment} {sources : List Source}

/-- The environment is loaded last. -/
theorem exists_inOrder_eq (h : .environment ∈ sources) :
    ∃ below, inOrder sources = below ++ [.environment] := by
  have hmem : .environment ∈ inOrder sources := List.mem_mergeSort.mpr h
  have hsorted : (inOrder sources).Pairwise fun a b => a.precedence ≤ b.precedence :=
    pairwise_mergeSort_key Source.precedence sources
  rcases List.eq_nil_or_concat (inOrder sources) with hnil | ⟨below, last, hsplit⟩
  · rw [hnil] at hmem
    cases hmem
  · rw [List.concat_eq_append] at hsplit
    rw [hsplit] at hmem hsorted
    refine ⟨below, ?_⟩
    rcases List.mem_append.mp hmem with hbelow | hlast
    · have hle := (List.pairwise_append.mp hsorted).2.2 _ hbelow last List.mem_cons_self
      cases last with
      | environment => exact hsplit
      | defaults => exact absurd hle (by decide)
      | file path => exact absurd hle (by simp [Source.precedence])
    · rw [hsplit, List.mem_singleton.mp hlast]

/-- What the environment says counts over all else, and without it there are no settings. -/
theorem ofSources_eq_ok (h : .environment ∈ sources) {s : Settings}
    (hs : ofSources files env sources = .ok s) :
    ∃ below layer, env.layer files = .ok layer ∧
      s = resolve env.home ((Layer.mergeAll below).merge layer) := by
  obtain ⟨before, hsources⟩ := exists_inOrder_eq h
  rw [ofSources, hsources, List.mapM_append] at hs
  obtain ⟨layers, hlayers, hs⟩ := exists_of_bind_ok hs
  obtain ⟨below, -, hlayers⟩ := exists_of_bind_ok hlayers
  obtain ⟨last, hlast, hlayers⟩ := exists_of_bind_ok hlayers
  cases hlayers
  rw [List.mapM_cons, List.mapM_nil] at hlast
  obtain ⟨layer, hlayer, hlast⟩ := exists_of_bind_ok hlast
  cases hlast
  refine ⟨below, layer, hlayer, ?_⟩
  rw [eq_resolve_of_ofLayer hs, Layer.mergeAll, List.foldl_append]
  rfl

/-- The environment can be loaded just if its secrets can be had and its numbers are spelled. If a
number is what fails, the error names its variable, and there are no settings. Otherwise the numbers
are those that the variables spell, and the truth values as well, but that text which spells none
counts as false; an empty variable counts as none. What a variable says counts over all other
sources. -/
theorem settings_of_variables (files : FileSystem) (env : Environment) :
    ((∃ layer, env.layer files = .ok layer) ↔
      env.HasSecrets files ∧ ∀ name ∈ Environment.numberVariables, env.Spelled name) ∧
    (env.HasSecrets files → ∀ error, env.layer files = .error error →
      ∃ name ∈ Environment.numberVariables, ∃ text, env.text? name = some text ∧
        (∀ n, ¬Text.SpellsNumber text n) ∧ error = .notNumber name text) ∧
    (∀ layer, env.layer files = .ok layer →
      Option.Rel Text.SpellsNumber (env.text? "STK_HUB_SCHEMA_CONNECT_TIMEOUT_SECS")
        (layer.get .connectTimeout) ∧
      Option.Rel Text.SpellsNumber (env.text? "STK_HUB_EDGE_TIMEOUT_SECS")
        (layer.get .edgeTimeout) ∧
      layer.get .edgeEnabled =
        (env.text? "STK_HUB_EDGE_ENABLED").map (fun text => (Text.truthOf? text).getD false) ∧
      layer.get .logJson =
        (env.text? "STK_HUB_LOG_JSON").map (fun text => (Text.truthOf? text).getD false)) ∧
    ∀ sources, .environment ∈ sources →
      (∀ error, env.layer files = .error error →
        ∃ error, ofSources files env sources = .error error) ∧
      ∀ s, ofSources files env sources = .ok s → ∃ layer, env.layer files = .ok layer ∧
        ∀ field, (layer.get field).isSome → s.get field = layer.get field := by
  refine ⟨Environment.exists_layer_iff, fun hsecrets error => Environment.error_of_layer hsecrets,
    fun layer hlayer => ?_, fun sources hsources => ⟨fun error herror => ?_, fun s hs => ?_⟩⟩
  · obtain ⟨masterKey, connectTimeout, token, timeout, -, hconnect, -, htimeout, rfl⟩ :=
      Environment.layer_eq_ok_iff.mp hlayer
    exact ⟨Environment.rel_of_number? hconnect, Environment.rel_of_number? htimeout,
      env.bool?_eq _, env.bool?_eq _⟩
  · cases hs : ofSources files env sources with
    | error fault => exact ⟨fault, rfl⟩
    | ok s =>
        obtain ⟨below, layer, hlayer, -⟩ := ofSources_eq_ok hsources hs
        rw [herror] at hlayer
        cases hlayer
  · obtain ⟨below, layer, hlayer, rfl⟩ := ofSources_eq_ok hsources hs
    refine ⟨layer, hlayer, fun field hfield => ?_⟩
    obtain ⟨value, hvalue⟩ := Option.isSome_iff_exists.mp hfield
    rw [get_resolve, Layer.get_merge, hvalue, Option.some_or, Option.some_or]

/-- An environment with text that is no truth value, and a number behind a sign. -/
def looseEnvironment : Environment where
  values := .ofList [("STK_HUB_EDGE_ENABLED", "yes"), ("STK_HUB_EDGE_TIMEOUT_SECS", "+07")]

/-- An environment with text that is no number. -/
def wordyEnvironment : Environment where
  values := .ofList [("STK_HUB_EDGE_TIMEOUT_SECS", "ten")]

theorem settings_of_variables_loose :
    (looseEnvironment.HasSecrets .empty ∧
      ∀ name ∈ Environment.numberVariables, looseEnvironment.Spelled name) ∧
    (∀ s, ofEnvironment .empty looseEnvironment = .ok s → s.get .edgeEnabled = some false) ∧
    ∃ error, ofEnvironment .empty wordyEnvironment = .error error := by
  obtain ⟨hload, -, hfields, hover⟩ := settings_of_variables .empty looseEnvironment
  have hlayer : ∃ layer, looseEnvironment.layer .empty = .ok layer := ⟨_, rfl⟩
  refine ⟨hload.mp hlayer, fun s hs => ?_, ?_⟩
  · obtain ⟨layer, hlayer, hcounts⟩ := (hover _ List.mem_cons_self).2 s hs
    have henabled := (hfields layer hlayer).2.2.1
    rw [hcounts .edgeEnabled (by rw [henabled]; decide +kernel), henabled]
    decide +kernel
  · exact ((settings_of_variables .empty wordyEnvironment).2.2.2 _ List.mem_cons_self).1 _ rfl

end Settings

end ProjectHub
