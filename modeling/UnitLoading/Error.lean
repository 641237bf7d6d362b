/-
What can go wrong, by cause, with the message, the diagnostic code and the advice that go with each cause.
-/
import UnitLoading.Ident

namespace UnitLoading

-- ================================================================ causes

/-- A host's refusal. -/
inductive HostError where
  /-- Another unit of this name is still live in the context. -/
  | alreadyDefined (name : String) (context : ContextId)
  /-- The unit was installed, but linking it failed. -/
  | linkFailed (name reason : String)
  /-- The host does not take the unit's bytes. -/
  | rejected (name reason : String)
  deriving DecidableEq, Repr

/-- Why a configuration file could not be read. -/
inductive ReadFault where
  | missing
  | notText
  | directory
  | other (text : String)
  deriving DecidableEq, Repr

/-- Why a text is not a configuration. -/
inductive ParseFault where
  /-- The text is not TOML. -/
  | notToml
  /-- The text is TOML of another shape, as the report says. -/
  | mismatch (report : String)
  deriving DecidableEq, Repr

/-- A failure to obtain a configuration from a file. -/
inductive ConfigError where
  | read (path : String) (fault : ReadFault)
  | parse (path : String) (fault : ParseFault)
  deriving DecidableEq, Repr

/-- The failure of a loader's operation. -/
inductive LoadError where
  /-- No step of the resolution knows the name. -/
  | notFound (name : String) (context : ContextId)
  /-- The name belongs to a live unit with other bytes. -/
  | duplicateDefinition (name : String) (context : ContextId)
  /-- The context takes no more definitions and constants. -/
  | closed (context : ContextId)
  /-- Every generation number has been handed out. -/
  | generationsExhausted
  | host (e : HostError)
  | config (e : ConfigError)
  deriving DecidableEq, Repr

/-- Whether the cause is that nothing has the name; a search then goes on elsewhere. -/
def LoadError.isNotFound : LoadError → Bool
  | notFound .. => true
  | _ => false

/-- A host that refuses a second live unit of one name refuses a duplicate definition. -/
def HostError.toLoadError : HostError → LoadError
  | alreadyDefined name context => .duplicateDefinition name context
  | e => .host e

-- ================================================================ messages

def HostError.message : HostError → String
  | alreadyDefined name context =>
    "host already has a live unit \"" ++ name ++ "\" in context " ++ context.text
  | linkFailed name reason => "failed to link \"" ++ name ++ "\": " ++ reason
  | rejected name reason => "host rejected \"" ++ name ++ "\": " ++ reason

def ReadFault.text : ReadFault → String
  | missing => "No such file or directory (os error 2)"
  | notText => "stream did not contain valid UTF-8"
  | directory => "Is a directory (os error 21)"
  | other text => text

/-- What a message says about the fault; a text that is not TOML is not described. -/
def ParseFault.text : ParseFault → String
  | notToml => ""
  | mismatch report => report

def ConfigError.message : ConfigError → String
  | read path _ => "failed to read loader config: " ++ path
  | parse path fault => "failed to parse loader config: " ++ path ++ ": " ++ fault.text

def LoadError.message : LoadError → String
  | notFound name context => "unit not found: \"" ++ name ++ "\" (context " ++ context.text ++ ")"
  | duplicateDefinition name context =>
    "duplicate definition: \"" ++ name ++ "\" is already live in context " ++ context.text
  | closed context => "context " ++ context.text ++ " is closed"
  | generationsExhausted => "generation id allocator exhausted"
  | host e => e.message
  | config e => e.message

/-- The text of the failure below this one, where there is one. -/
def LoadError.source : LoadError → Option String
  | config (.read _ fault) => some fault.text
  | _ => none

-- ================================================================ diagnostics

def LoadError.code : LoadError → String
  | notFound .. => "dynload::resolve::not_found"
  | duplicateDefinition .. => "dynload::define::duplicate"
  | closed _ => "dynload::context::closed"
  | generationsExhausted => "dynload::constants::generations_exhausted"
  | host (.alreadyDefined ..) => "dynload::host::already_defined"
  | host (.linkFailed ..) => "dynload::host::link_failed"
  | host (.rejected ..) => "dynload::host::rejected"
  | config (.read ..) => "dynload::config::read"
  | config (.parse ..) => "dynload::config::parse"

/-- What the user can do about the failure. -/
def LoadError.help : LoadError → String
  | notFound name _ =>
    "No unit named \"" ++ name ++ "\" is resident in this context, reachable through the resolution " ++
      "scope, known to a parent loader, or present at any search location. Define it first with " ++
      "`define_unit()` or add the location that publishes it with `add_search_location()`."
  | duplicateDefinition .. =>
    "A different unit is still strongly referenced under this name. Drop every handle to the old unit " ++
      "before redefining it, or define the new version in an isolated loader (`DynamicLoader::isolated()`)."
  | closed _ =>
    "A closed loader cannot be reused. Create a new loader for further definitions."
  | generationsExhausted =>
    "Every generation id up to u32::MAX has been handed out. Ids are never reissued because older units " ++
      "may still reference their constant pools. Start a new loader context for further compilation."
  | host (.alreadyDefined ..) =>
    "The host refuses a second distinct unit under one name per context."
  | host (.linkFailed ..) =>
    "The unit was installed but could not be linked. Check that the compiler emitted a complete unit."
  | host (.rejected ..) =>
    "The host environment refused to install the unit's bytes."
  | config (.read ..) =>
    "Ensure the config file exists and is readable."
  | config (.parse ..) =>
    "Check the TOML syntax. Known keys: search_locations, cache_capacity, constants_capacity, isolate."

end UnitLoading
