import SplatLang.FileTree
import SplatLang.Text.Script
import SplatLang.Yaml.Reader
import SplatLang.Yaml.Writer

/-!
# Project configuration

A configuration is read on top of the defaults: a key that is missing keeps its default, and an
unknown key, a repeated one or a value of the wrong type is refused. A null sets a field to its
empty value, and a document that is null as a whole empties every field.

How a configuration is written down is left to a `Codec`. The one in use is `yaml`, whose fields
are texts: it replaces the bytes of a binary scalar that are no characters.
-/

namespace SplatLang

open Text

structure SuiteSource (σ : Type := String) where
  url : σ
  /-- A branch, a tag or a commit. -/
  ref : σ
  dir : σ
  deriving DecidableEq, Repr, Inhabited

structure Config (σ : Type := String) where
  tests : σ
  verbose : Bool
  maxCallDepth : Int
  suite : Option (SuiteSource σ)
  deriving DecidableEq, Repr, Inhabited

inductive ConfigError
  /-- The file could not be read or written. -/
  | file (text : String)
  /-- The file is no configuration document. -/
  | malformed
  | negativeDepth
  deriving DecidableEq, Repr

def ConfigError.text : ConfigError → String
  | file text => text
  | malformed => "yaml: document does not fit the configuration"
  | negativeDepth => "max_call_depth must not be negative"

namespace Config

def fileName : String := "splat.yaml"

section

variable [Script σ]

def default : Config σ := ⟨spell "tests", true, 0, none⟩

def blankSuite : SuiteSource σ := ⟨spell "", spell "", spell ""⟩

variable [DecidableEq σ]

/-! Settings -/

inductive SuiteSetting (σ : Type)
  | url (value : σ)
  | ref (value : σ)
  | dir (value : σ)

inductive Setting (σ : Type)
  | tests (value : σ)
  | verbose (value : Bool)
  | maxCallDepth (value : Int)
  | suite (settings : List (SuiteSetting σ))

/-- A setting that is left out when its value is empty. -/
def unlessEmpty (setting : σ → SuiteSetting σ) (value : σ) : List (SuiteSetting σ) :=
  if value = spell "" then [] else [setting value]

def suiteSettings (s : SuiteSource σ) : List (SuiteSetting σ) :=
  [.url s.url] ++ unlessEmpty .ref s.ref ++ unlessEmpty .dir s.dir

def settings (c : Config σ) : List (Setting σ) :=
  [.tests c.tests, .verbose c.verbose, .maxCallDepth c.maxCallDepth] ++
    match c.suite with
    | none => []
    | some s => [.suite (suiteSettings s)]

/-! Files -/

/-- A way of writing configurations down. Reading fills a configuration that is there. -/
structure Codec (σ : Type) where
  marshal : Config σ → Option Bytes
  unmarshal : Bytes → Config σ → Option (Config σ)

/-- A suite without a directory goes where the tests are. -/
def withSuiteDir (c : Config σ) : Config σ :=
  match c.suite with
  | some s => if s.dir = spell "" then { c with suite := some { s with dir := c.tests } } else c
  | none => c

def validate (c : Config σ) : Except ConfigError (Config σ) :=
  if c.maxCallDepth < 0 then .error .negativeDepth else .ok c.withSuiteDir

/-- Loads a configuration. A file that does not exist gives the defaults. -/
def Codec.load (codec : Codec σ) (t : FileTree) (path : String) :
    Except ConfigError (Config σ) :=
  match t.read path with
  | .error (_, .notFound) => .ok default
  | .error (operation, e) => .error (.file (e.on operation path))
  | .ok bytes =>
    match codec.unmarshal bytes default with
    | none => .error .malformed
    | some c => c.validate

def Codec.store (codec : Codec σ) (t : FileTree) (path : String) (c : Config σ) :
    Except ConfigError FileTree :=
  match codec.marshal c with
  | none => .error .malformed
  | some bytes => (t.write path bytes).mapError fun e => .file (e.on "open" path)

def loadMessage (path : String) (e : ConfigError) : String :=
  "error reading " ++ path ++ ": " ++ e.text

def storeMessage (path : String) (e : ConfigError) : String :=
  "error creating " ++ path ++ ": " ++ e.text

end

/-! Documents -/

def SuiteSetting.field : SuiteSetting String → Yaml.Field
  | url value => .text "url" value
  | ref value => .text "ref" value
  | dir value => .text "dir" value

def Setting.field : Setting String → Yaml.Field
  | tests value => .text "tests" value
  | verbose value => .word "verbose" (if value then "true" else "false")
  | maxCallDepth value => .word "max_call_depth" (toString value)
  | suite settings => .group "suite" (settings.map SuiteSetting.field)

def applyChanges {α : Type} (empty : α) (set : String → Yaml → α → Option α) :
    α → List Yaml.Change → Option α
  | a, [] => some a
  | _, .clear :: rest => applyChanges empty set empty rest
  | a, .set key value :: rest => do applyChanges empty set (← set key value a) rest

def setSuiteField (key : String) (value : Yaml) (s : SuiteSource) : Option SuiteSource :=
  match key with
  | "url" => value.asText?.map fun url => { s with url }
  | "ref" => value.asText?.map fun ref => { s with ref }
  | "dir" => value.asText?.map fun dir => { s with dir }
  | _ => none

/-- Whether a scalar has a spelling that takes a suite away, if it is null at all. -/
def takesAway (tag : String) (plain : Bool) (text : String) : Bool :=
  tag = Yaml.standardTag "null" ||
    (tag = "" && (text = "null" || text = "~" || (text = "" && plain)))

/-- Fills a suite on top of the one that is there. A null takes it away; in capitals it only
empties the fields. -/
def readSuite (d : Yaml.Document) (old : Option SuiteSource) : Yaml → Option (Option SuiteSource)
  | .reference _ target => readSuite d old target
  | .scalar tag plain text =>
    if Yaml.Resolved.ofScalar? tag plain text = some .null then
      some (if takesAway tag plain text then none else some blankSuite)
    else none
  | node => do
    let changes ← d.changes? node
    let suite ← applyChanges blankSuite setSuiteField (old.getD blankSuite) changes
    some (some suite)

def setField (d : Yaml.Document) (key : String) (value : Yaml) (c : Config) : Option Config :=
  match key with
  | "tests" => value.asText?.map fun tests => { c with tests }
  | "verbose" => value.asBoolean?.map fun verbose => { c with verbose }
  | "max_call_depth" => value.asInteger?.map fun maxCallDepth => { c with maxCallDepth }
  | "suite" => (readSuite d c.suite value).map fun suite => { c with suite }
  | _ => none

def ofDocument (d : Yaml.Document) (c : Config) : Option Config :=
  if d.isBounded then do
    let changes ← d.changes? d.root
    applyChanges ⟨"", false, 0, none⟩ (setField d) c changes
  else none

def render (c : Config) : String := Yaml.write (c.settings.map Setting.field)

/-- Configurations in YAML. A file without a document says nothing. -/
def yaml : Codec String where
  marshal c := some (bytesOf c.render)
  unmarshal bytes c :=
    match Yaml.read bytes with
    | none => none
    | some none => some c
    | some (some doc) => ofDocument doc c

def load (t : FileTree) (path : String) : Except ConfigError Config := yaml.load t path

def store (t : FileTree) (path : String) (c : Config) : Except ConfigError FileTree :=
  yaml.store t path c

end Config

namespace SuiteSource

/-- Why a suite cannot be fetched, as far as its fields and the directory tell. A directory that
exists has to be a repository, and a tree of files holds none. -/
def refusal? (t : FileTree) (s : SuiteSource) : Option Failure :=
  if s.url = "" then some (.other "suite has no url")
  else if s.dir = "" then some (.other "suite has no dir")
  else if t.doesExist s.dir then
    some (.context ("open " ++ s.dir) (.other "repository does not exist"))
  else none

end SuiteSource

end SplatLang
