import ProjectHub.Settings.Basic
import ProjectHub.Settings.Environment
import ProjectHub.Settings.File

/-!
# Sources of settings

Settings come from the built-in defaults, from a file and from the environment.
Each source has a precedence, and its layer is merged over those of lower
precedence.
-/

namespace ProjectHub.Settings

/-- Where settings come from. -/
inductive Source where
  | defaults
  /-- A settings file. -/
  | file (path : String)
  | environment
  deriving DecidableEq

namespace Source

/-- The name of a source. -/
def name : Source → String
  | defaults => "defaults"
  | file _ => "toml-config"
  | environment => "environment"

/-- The precedence of a source; the higher counts. -/
def precedence : Source → Nat
  | defaults => 10
  | file _ => 20
  | environment => 50

/-- What a source says. -/
def load (files : FileSystem) (env : Environment) : Source → Except Error Layer
  | defaults => .ok .empty
  | file path => Layer.ofFile files path
  | environment => env.layer files

end Source

/-- The file that the settings of a machine are in. -/
def systemFile : String := "/etc/santokit/hub.toml"

/-- The sources in ascending precedence. -/
def inOrder (sources : List Source) : List Source :=
  sources.mergeSort fun a b => a.precedence ≤ b.precedence

/-- The settings that sources give together. -/
def ofSources (files : FileSystem) (env : Environment) (sources : List Source) :
    Except Error Settings := do
  let layers ← (inOrder sources).mapM (Source.load files env)
  ofLayer env.home (Layer.mergeAll layers)

/-- The settings with those of a file. -/
def ofFile (files : FileSystem) (env : Environment) (path : String) : Except Error Settings :=
  ofSources files env [.defaults, .file path, .environment]

/-- The settings of a machine. -/
def ofSystem (files : FileSystem) (env : Environment) : Except Error Settings :=
  ofFile files env systemFile

/-- The settings of the environment alone. -/
def ofEnvironment (files : FileSystem) (env : Environment) : Except Error Settings :=
  ofSources files env [.environment]

end ProjectHub.Settings
