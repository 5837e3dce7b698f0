import ProjectHub.NameMap.Basic
import ProjectHub.Settings.Error
import ProjectHub.Settings.Layer
import ProjectHub.Text.Letter
import ProjectHub.Text.Numeral

/-!
# Settings from the environment

Each setting has a variable. An empty variable counts as unset. A secret may be
given by its value, or by a second variable that names a file with the value,
whose line ends are cut off; both together are refused.
-/

namespace ProjectHub

/-- The environment of a process. -/
structure Environment where
  /-- The values of variables. -/
  values : NameMap String
  /-- The home directory on record for the account of the process. -/
  accountHome : Option String := none

namespace Environment

/-- The text of a variable that is not empty. -/
def text? (env : Environment) (name : String) : Option String :=
  (env.values.get? name).filter fun text => !text.isEmpty

/-- The home directory; without one, the current directory. -/
def home (env : Environment) : String :=
  ((env.text? "HOME").or env.accountHome).getD "."

/-- The text without the line ends at its end. -/
def dropLineEnds (text : String) : String :=
  String.ofList (text.toList.reverse.dropWhile fun c => c == '\n' || c == '\r').reverse

/-- A secret, by value or by file. -/
def secret? (env : Environment) (files : FileSystem) (name : String) :
    Except Settings.SecretFault (Option Secret) :=
  match env.text? name, env.text? (name ++ "_FILE") with
  | some _, some _ => .error (.conflict name)
  | some value, none => .ok (some ⟨value⟩)
  | none, some path =>
    match files.readText path with
    | .ok text => .ok (some ⟨dropLineEnds text⟩)
    | .error fault => .error (.unreadable name path fault)
  | none, none => .ok none

/-- A truth value: `true` in any case and `1` are true, all other text is false. -/
def bool? (env : Environment) (name : String) : Option Bool :=
  (env.text? name).map fun text => Text.sameAscii text "true" || text == "1"

/-- A number of 64 bits. -/
def number? (env : Environment) (name : String) : Except Settings.Error (Option Nat) :=
  match env.text? name with
  | none => .ok none
  | some text =>
    match Text.natBelow? UInt64.size text with
    | some n => .ok (some n)
    | none => .error (.notNumber name text)

/-- What the environment says about the settings. -/
def layer (env : Environment) (files : FileSystem) : Except Settings.Error Settings.Layer := do
  let masterKey ← (env.secret? files "STK_HUB_ENCRYPTION_KEY").mapError .secret
  let connectTimeout ← env.number? "STK_HUB_SCHEMA_CONNECT_TIMEOUT_SECS"
  let token ← (env.secret? files "STK_HUB_EDGE_KV_TOKEN").mapError .secret
  let timeout ← env.number? "STK_HUB_EDGE_TIMEOUT_SECS"
  return {
    database := some { url := env.text? "STK_HUB_DATABASE_URL" }
    vault := some { masterKey := masterKey }
    schema := some {
      connectTimeout := connectTimeout
      databaseUrlKey := env.text? "STK_HUB_SCHEMA_DATABASE_URL_KEY" }
    edge := some {
      enabled := env.bool? "STK_HUB_EDGE_ENABLED"
      url := env.text? "STK_HUB_EDGE_KV_URL"
      token := token
      directory := env.text? "STK_HUB_EDGE_DIR"
      timeout := timeout }
    log := some {
      level := env.text? "STK_HUB_LOG_LEVEL"
      json := env.bool? "STK_HUB_LOG_JSON" } }

end Environment

end ProjectHub
