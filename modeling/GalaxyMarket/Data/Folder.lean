import GalaxyMarket.Commodity.Catalog
import GalaxyMarket.Data.Json
import GalaxyMarket.Data.Record
import GalaxyMarket.Data.Ron
import GalaxyMarket.Data.Toml.Document
import GalaxyMarket.Galaxy.Basic

/-!
# Data directories

A data file has a name and one of three extensions, which says its format. There must not be two
files of one name. A file that holds a list of records holds just the list, except in TOML, where
the list stands under a key. A name may lead through the directories inside, with dots and slashes
as usual.
-/

namespace GalaxyMarket

/-! ### Paths -/

/-- The pieces of a text between the places of a mark. -/
def pieces (mark : Char) (s : String) : List String :=
  let split := s.toList.foldr (fun c split =>
    if c == mark then [] :: split else (c :: split.headD []) :: split.tail) [[]]
  split.map String.ofList

/-- The parts of a path. Empty ones and single dots do not count. -/
def pathParts (path : String) : List String :=
  (pieces '/' path).filter fun part => part != "" && part != "."

/-! ### Formats -/

/-- The format of a data file. -/
inductive Format where
  | ron
  | toml
  | json
  deriving DecidableEq, Repr

namespace Format

/-- All formats, in the order in which files are looked for. -/
def all : List Format := [ron, toml, json]

/-- The extension of files of a format. -/
def extension : Format → String
  | ron => "ron"
  | toml => "toml"
  | json => "json"

/-- The last part of a path, which is no name if it is two dots. -/
def fileName? (path : String) : Option String := (pathParts path).getLast?.filter (· != "..")

/-- What stands behind the last dot of a file name, unless that is its first character. -/
def extension? (name : String) : Option String :=
  match pieces '.' name with
  | [_] | ["", _] => none
  | parts => parts.getLast?

/-- The format of the file at a path. -/
def ofPath? (path : String) : Option Format :=
  ((fileName? path).bind extension?).bind fun ext => all.find? (·.extension == ext)

/-- The dialect in which values of a format are read. -/
def dialect : Format → Dialect
  | ron => Ron.dialect
  | toml => Toml.dialect
  | json => Json.dialect

/-- Reads a text of which a schema tells what is expected. -/
def parse? : Format → Schema → String → Option Value
  | ron, schema => Ron.parse? schema
  | toml, _ => Toml.parse?
  | json, _ => Json.parse?

/-- Reads a single value. -/
def decode? {β : Type} (format : Format) (content : Decoder β) (text : String) : Option β :=
  (format.parse? content.schema text).bind (content.decode? format.dialect)

/-- Reads a list of values. -/
def decodeList? {β : Type} (format : Format) (key : String) (item : Decoder β) (text : String) :
    Option (List β) := do
  let v ← format.parse? item.list.schema text
  -- A document of TOML is a table, so the list needs a key.
  let v ← if format = toml then Toml.valueAt? key v else some v
  item.list.decode? format.dialect v

end Format

/-! ### Directories -/

/-- What there is under a name. -/
inductive File where
  | text (content : String)
  | directory
  /-- Something that is there but cannot be read as text. -/
  | unreadable
  deriving DecidableEq, Repr

/-- What some bytes are as a file. -/
def File.ofBytes (bytes : ByteArray) : File :=
  match String.fromUTF8? bytes with
  | some content => .text content
  | none => .unreadable

/-- A directory: its path, and what there is in it. The name of an entry leads to it from the
directory, through other directories where it has slashes. -/
structure Folder where
  path : String
  entries : List (String × File)

/-- Why no galaxy was made from a directory. -/
inductive LoadError where
  | missingRequired (file dir : String)
  | unsupportedFormat (path : String)
  | conflictingFormats (a b : String)
  /-- A text is not in its format, or not what is expected there. -/
  | parse (path : String)
  | unresolved (path name kind : String)
  | duplicateName (path name : String)
  | catalog (error : CatalogError)
  | galaxy (error : GalaxyError)
  | config (path : String) (error : ConfigError Float)
  | unreadable (path : String)

/-- The wording of an error. -/
def LoadError.message : LoadError → String
  | missingRequired file dir => s!"required file '{file}' not found in {dir}"
  | unsupportedFormat path => s!"unsupported format for file: {path}"
  | conflictingFormats a b => s!"conflicting formats: {a} and {b}"
  | parse path => s!"parse error in {path}"
  | unresolved path name kind => s!"unresolved {kind} reference '{name}' in {path}"
  | duplicateName path name => s!"duplicate name '{name}' in {path}"
  | catalog error => s!"catalog error: {error.message}"
  | galaxy error => s!"universe error: {error.message}"
  | config path error => s!"invalid economy config in {path}: {error.message}"
  | unreadable path => s!"cannot read {path}"

namespace Folder

variable {β : Type}

/-- The path of a name, seen from a directory. A name that starts with a slash stands for itself. -/
def join (folder : Folder) (name : String) : String :=
  if name.startsWith "/" then name else folder.path ++ "/" ++ name

/-- What there is at the end of a way through a directory. Where the way goes on to an entry, there
is a directory. -/
def at? (folder : Folder) (way : List String) : Option File :=
  let entries := folder.entries.map fun (name, file) => (pathParts name, file)
  match entries.lookup way with
  | some file => some file
  | none => if entries.any fun (name, _) => way.isPrefixOf name then some .directory else none

/-- Goes on by one part of a path. Only from a directory is there a way on; two dots lead back,
though not out of the directory where the path starts, and an empty part or a dot does not lead
anywhere. -/
def step? (folder : Folder) (way : List String) (part : String) : Option (List String) :=
  if !way.isEmpty && folder.at? way != some .directory then none
  else match part with
    | "" | "." => some way
    | ".." => if way.isEmpty then none else some way.dropLast
    | name => some (way ++ [name])

/-- What a name stands for. Nothing is known about what is outside of the directory. -/
def file? (folder : Folder) (name : String) : Option File :=
  if name.startsWith "/" then none
  else match (pieces '/' name).foldlM folder.step? [] with
    | none => none
    | some [] => some .directory
    | some way => folder.at? way

/-- The name of the data file of a base name, if there is exactly one. -/
def find? (folder : Folder) (base : String) : Except LoadError (Option String) :=
  let names := Format.all.map fun format => base ++ "." ++ format.extension
  match names.filter fun name => (folder.file? name).isSome with
  | [] => .ok none
  | [name] => .ok (some name)
  | a :: b :: _ => .error (.conflictingFormats (folder.join a) (folder.join b))

/-- The name of a data file that has to be there. -/
def require (folder : Folder) (base : String) : Except LoadError String := do
  match ← folder.find? base with
  | some name => return name
  | none => throw (.missingRequired base folder.path)

/-- The format and the text of a file. -/
def read (folder : Folder) (name : String) : Except LoadError (Format × String) :=
  match Format.ofPath? name, folder.file? name with
  | none, _ => .error (.unsupportedFormat (folder.join name))
  | some format, some (.text content) => .ok (format, content)
  | some _, _ => .error (.unreadable (folder.join name))

/-- Reads a single value from a file. -/
def readValue (folder : Folder) (name : String) (content : Decoder β) : Except LoadError β := do
  let (format, text) ← folder.read name
  match format.decode? content text with
  | some x => return x
  | none => throw (.parse (folder.join name))

/-- Reads a list of records from a file; in TOML it stands under `key`. -/
def readList (folder : Folder) (name key : String) (item : Decoder β) :
    Except LoadError (List β) := do
  let (format, text) ← folder.read name
  match format.decodeList? key item text with
  | some xs => return xs
  | none => throw (.parse (folder.join name))

end Folder

end GalaxyMarket
