import AccessibleMarkup.Config.Reader
import AccessibleMarkup.Files.Access
import AccessibleMarkup.Linter.Basic

/-! Linters from the configuration file of a directory. -/
namespace AccessibleMarkup

variable {m : Type → Type} [Monad m]

namespace Config

/-- The names of configuration files, the first that is there counts. -/
def fileNames : List String := ["aria-lint.toml", ".aria-lint.toml"]

def find? (files : FileAccess m) (directory : String) : m (Option String) :=
  files.firstFile? (fileNames.map (Path.join directory))

def load (files : FileAccess m) (path : String) : m (Except ConfigError Config) := do
  match ← files.read path with
  | .ok text => return Config.read text
  | .error cause => return .error (.unreadable path cause.message)

end Config

/-- The linter that the configuration file of a directory asks for, or the standard one. -/
def Linter.discover (files : FileAccess m) (directory : String) : m (Except LoadError Linter) := do
  match ← Config.find? files directory with
  | none => return Linter.ofConfig {}
  | some path =>
    return ((← Config.load files path).mapError LoadError.config).bind Linter.ofConfig

end AccessibleMarkup
