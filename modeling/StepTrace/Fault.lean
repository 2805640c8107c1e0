import StepTrace.Value.Display
import StepTrace.Yaml.Refusal

/-!
# Faults

Why an operation was refused.  Each constructor is one cause; the wording of those that carry a
message is in `ManifestFault.message`, `SettingsFault.message` and `Fault.message?`.
-/

namespace StepTrace

/-- Why a manifest of step definitions was refused. -/
inductive ManifestFault where
  /-- The manifest is not a mapping. -/
  | notMapping (source : String)
  /-- The constants are not a mapping. -/
  | constantsNotMapping (source : String)
  /-- The records under `key` are not a list. -/
  | recordsNotList (key source : String)
  /-- One of the records under `key` is not a mapping. -/
  | recordNotMapping (key source : String)
  /-- A record has no pattern. -/
  | missingPattern (source : String) (entry : Value)
  /-- The file is not a document that a manifest can be read from. -/
  | unreadable (path : String)
deriving Inhabited

def ManifestFault.message : ManifestFault → String
  | notMapping source => s!"Invalid definitions format in {source}: expected mapping"
  | constantsNotMapping source => s!"Invalid constants in {source}: expected mapping"
  | recordsNotList key source => s!"Invalid {key} in {source}: expected list"
  | recordNotMapping key source => s!"Invalid entry in {key} of {source}: expected mapping"
  | missingPattern source entry => "Missing 'pattern' in " ++ source ++ ": " ++ entry.shown
  | unreadable path => s!"Invalid YAML in {path}: not a single well-formed document"

/-- Why the settings of a project were refused. -/
inductive SettingsFault where
  /-- The settings file is not a JSON text. -/
  | unreadable (path : String)
  /-- The settings file holds something else than an object. -/
  | notObject (path : String)
deriving Inhabited

def SettingsFault.message : SettingsFault → String
  | unreadable path => s!"Invalid JSON in {path}: not a JSON text"
  | notObject path => s!"Invalid config format in {path}: expected object"

/-- Why a file operation was refused. -/
inductive FileFault where
  | notFound
  | alreadyExists
  | isDirectory
  | notDirectory
deriving DecidableEq, Repr, Inhabited

/-- Why an operation was refused. -/
inductive Fault where
  /-- A mapping lacks a field that has to be there, or a name is not known. -/
  | missingKey (key : String)
  /-- A value is of a type that the operation does not take. -/
  | wrongType
  /-- A field or operation was asked of something that has none of that name. -/
  | missingField
  /-- A text or a not-a-number stands where an integer is wanted. -/
  | notInteger
  /-- An infinite number stands where an integer is wanted. -/
  | infiniteNumber
  /-- A scenario was to be added before there was a feature. -/
  | noFeature
  /-- A pattern asks for more repetitions than can be counted. -/
  | repetitionTooLarge
  /-- A pattern asks for ASCII and for Unicode character classes at once. -/
  | conflictingFlags
  /-- A feature text does not follow the grammar. -/
  | notGherkin
  /-- There is no kind of object of that name. -/
  | unknownKind
  /-- The bytes of a file are not UTF-8 text. -/
  | undecodable
  /-- There is no settings file at the path. -/
  | noSettings (path : String)
  /-- A scalar of a manifest file has no value. -/
  | scalar (fault : Yaml.ScalarFault)
  | manifest (fault : ManifestFault)
  | settings (fault : SettingsFault)
  | file (fault : FileFault)
deriving Inhabited

/-- The text that goes with a fault, for those that have one. -/
def Fault.message? : Fault → Option String
  | missingKey key => some (Text.quoted key)
  | scalar (.noTruthValue word) => some (Text.quoted word)
  | noFeature => some "No feature is being built"
  | noSettings path => some s!"No config found at {path}"
  | manifest fault => some fault.message
  | settings fault => some fault.message
  | _ => none

/-- What a file operation met. -/
def FileFault.description : FileFault → String
  | notFound => "no such file or directory"
  | alreadyExists => "there is a file already"
  | isDirectory => "a directory stands where a file is wanted"
  | notDirectory => "a file stands where a directory is wanted"

/-- A description of any fault, for a reader who is to mend its cause. -/
def Fault.description : Fault → String
  | missingKey key => "missing key " ++ Text.quoted key
  | wrongType => "a value has the wrong type"
  | missingField => "a value lacks a field that is asked for"
  | notInteger => "an integer is wanted"
  | infiniteNumber => "a finite number is wanted"
  | noFeature => "no feature is being built"
  | repetitionTooLarge => "a pattern repeats too often"
  | conflictingFlags => "the flags of a pattern exclude each other"
  | notGherkin => "the text is not a feature document"
  | unknownKind => "there is no such kind of object"
  | undecodable => "the file is not UTF-8 text"
  | noSettings path => s!"no settings at {path}"
  | scalar fault => fault.description
  | manifest fault => fault.message
  | settings fault => fault.message
  | file fault => fault.description

end StepTrace
