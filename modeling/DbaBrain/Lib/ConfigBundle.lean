import DbaBrain.Foundation.Base64
import DbaBrain.Foundation.Execution
import DbaBrain.Foundation.FileTree
import DbaBrain.Foundation.JsonDocument
import DbaBrain.Foundation.Selection

/-!
# The configuration bundle

An estate's files as one JSON document: what `build_bundle` reads of a tool root,
how each file is carried, what `read_bundle` accepts of a received document and
which of its entries an import selects.
-/

namespace DbaBrain.Lib.ConfigBundle

open DbaBrain.Foundation
open FileTree (Tree)

/-! ## Paths -/

/-- What the file system takes as a name; an undecodable byte of one is half a surrogate pair. -/
def Named (name : Str) : Prop :=
  name ≠ [] ∧ name ≠ str "." ∧ name ≠ str ".." ∧ .char '/' ∉ name ∧ .char (Char.ofNat 0) ∉ name ∧
    ∀ point ∈ name, point.char?.isSome = true ∨ 56448 ≤ point.number ∧ point.number < 56576

instance (name : Str) : Decidable (Named name) := by
  unfold Named
  infer_instance

abbrev FileName := {name : Str // Named name}

abbrev Path := List FileName

abbrev Files := Tree FileName Bytes

def fileName? (name : Str) : Option FileName := if named : Named name then some ⟨name, named⟩ else none

def joinParts (parts : List Str) : Str := [CodePoint.char '/'].intercalate parts

def splitParts (text : Str) : List Str := List.splitOn (.char '/') text

/-- `as_posix` of a path below another. -/
def relativeText (path : Path) : Str := joinParts (path.map Subtype.val)

/-- The names of the parts of a text that is a path, where each of them can be one. -/
def place? (text : Str) : Option Path := (splitParts text).mapM fileName?

theorem val_of_fileName? {name : Str} {file : FileName} (fits : fileName? name = some file) : file.val = name := by
  rw [fileName?] at fits
  split at fits
  · rw [← Option.some.inj fits]
  · simp at fits

theorem eq_relativeText_of_place? {text : Str} {path : Path} (placed : place? text = some path) :
    text = relativeText path := by
  have names : ∀ {parts : List Str} {path : Path}, parts.mapM fileName? = some path → path.map Subtype.val = parts := by
    intro parts
    induction parts with
    | nil =>
      intro path all
      obtain rfl : [] = path := by simpa using all
      rfl
    | cons part rest ih =>
      intro path all
      rw [List.mapM_cons] at all
      obtain ⟨name, fits, later⟩ := Option.bind_eq_some_iff.mp all
      obtain ⟨others, whole, same⟩ := Option.bind_eq_some_iff.mp later
      rw [← Option.some.inj same, List.map_cons, ih whole, val_of_fileName? fits]
  rw [relativeText, names placed, joinParts, splitParts, List.intercalate_splitOn]

def configName : FileName := ⟨str "config.json", by decide⟩
def catalogName : FileName := ⟨str "config_catalog.json", by decide⟩
def secretName : FileName := ⟨str "encrypted_secret_text.json", by decide⟩
def inventoryName : FileName := ⟨str "database-inventory.json", by decide⟩
def manifestName : FileName := ⟨str "data_files.json", by decide⟩
def dataName : FileName := ⟨str "data", by decide⟩
def assetsName : FileName := ⟨str "assets", by decide⟩
def sshKeysName : FileName := ⟨str "ssh_keys", by decide⟩
def runtimeName : FileName := ⟨str "runtime", by decide⟩
def reportsName : FileName := ⟨str "reports", by decide⟩

def secretStoreRelative : Path := [dataName, secretName]

def inventorySeedRelatives : List Path := [[dataName, inventoryName], [runtimeName, reportsName, inventoryName]]

def estateAssetDirs : List Path := [[assetsName], [dataName, sshKeysName]]

def assetSkipNames : List Str := [str ".DS_Store", str "Thumbs.db"]

/-! ## What an entry is -/

inductive Role
  | toolConfig
  | configCatalog
  | configSource
  | secretStore
  | estateAsset
  | seedInventory
  deriving DecidableEq

namespace Role

def spelled : Role → String
  | .toolConfig => "tool_config"
  | .configCatalog => "config_catalog"
  | .configSource => "config_source"
  | .secretStore => "secret_store"
  | .estateAsset => "estate_asset"
  | .seedInventory => "seed_inventory"

/-- `KNOWN_ROLES`. -/
def known : List Role := [.toolConfig, .configCatalog, .configSource, .secretStore, .estateAsset, .seedInventory]

def of? (text : Str) : Option Role := known.find? fun role => str role.spelled = text

theorem of?_spelled (role : Role) : of? (str role.spelled) = some role := by
  cases role with
  | toolConfig => decide
  | configCatalog => decide
  | configSource => decide
  | secretStore => decide
  | estateAsset => decide
  | seedInventory => decide

end Role

inductive Kind
  | json
  | text
  | base64
  deriving DecidableEq

namespace Kind

def spelled : Kind → String
  | .json => "json"
  | .text => "text"
  | .base64 => "base64"

def of? (text : Str) : Option Kind := [Kind.json, .text, .base64].find? fun kind => str kind.spelled = text

theorem of?_spelled (kind : Kind) : of? (str kind.spelled) = some kind := by
  cases kind with
  | json => decide
  | text => decide
  | base64 => decide

end Kind

/-- `None` is one line, a number so many spaces, and a run itself. -/
inductive Indent
  | oneLine
  | spaces (count : Nat)
  | run (text : List Char)

/-- How a JSON file is written. -/
structure Layout where
  indent : Indent
  crlf : Bool
  trailingNewline : Bool
  bom : Bool
  asciiOnly : Bool

def defaultLayout : Layout where
  indent := .spaces 4
  crlf := false
  trailingNewline := true
  bom := false
  asciiOnly := false

def maxIndent : Nat := 16

/-- What the code takes from its interpreter: the floating-point numbers, SHA-256 in hexadecimal
and the text `repr` gives of a list or a mapping. -/
structure Python where
  floats : Floats
  sha256 : Bytes → Str
  describe : Document floats.Value → Str
  sha256_length : ∀ raw, (sha256 raw).length = 64

abbrev Python.Json (python : Python) := Document python.floats.Value

structure BundleEntry (python : Python) where
  path : Str
  role : Role
  kind : Kind
  content : python.Json
  sha256 : Str
  layout : Option Layout
  verbatim : Option Str

/-- Why a bundle is not built, or not read. -/
inductive Refusal
  | noCatalog
  | catalogNotJson
  | catalogNotObject
  | catalogWithoutSources
  | catalogSourceNotObject
  | catalogSourceWithoutFile
  | noManifest
  | manifestNotJson
  | manifestNotObject
  | manifestEmpty
  | manifestEntryNotObject
  | manifestEntryWithoutFile
  | manifestNotBare (name : Str)
  | manifestTwice (name : Str)
  | manifestTransfer (name transfer : Str)
  | manifestWithoutApp (name : Str)
  | manifestInBundle (name : Str)
  | notJson (path : Str)
  | rootNotObject (path : Str)
  | notEncodable
  | notABundle
  | notAVersion
  | laterVersion (version : Int)
  | noFiles
  | emptyPath
  | notRelative (path : Str)
  | leavesRoot (path : Str)
  | namesNoFile (path : Str)
  | twice (path : Str)
  | entryNotObject (path : Str)
  | unknownRole (path role : Str)
  | unknownKind (path kind : Str)
  | noChecksum (path : Str)
  | layoutNotObject (path : Str)
  | layoutKeys (path : Str)
  | layoutIndent (path : Str)
  | layoutNewline (path : Str)
  | layoutFlag (path : Str)
  | verbatimNotJson (path : Str)
  | verbatimNotText (path : Str)
  | verbatimUnreadable (path : Str)
  | verbatimDiffers (path : Str)
  | contentNotObject (path : Str)
  | contentNotText (path : Str)
  | contentNotBase64 (path : Str)
  | checksumMismatch (path : Str)

section Values

variable {python : Python}

/-- `str(value)`. -/
def textOf : python.Json → Str
  | .null => str "None"
  | .bool value => str (if value then "True" else "False")
  | .int value => (integerText value).map .char
  | .float value => (python.floats.repr value).map .char
  | .infinite negative => str (if negative then "-inf" else "inf")
  | .nan => str "nan"
  | .string value => value
  | .array items => python.describe (.array items)
  | .object entries => python.describe (.object entries)

def truthy : python.Json → Bool
  | .null => false
  | .bool value => value
  | .int value => value ≠ 0
  | .float value => python.floats.number value ≠ 0
  | .infinite _ => true
  | .nan => true
  | .string value => value ≠ []
  | .array items => !items.isEmpty
  | .object entries => !entries.isEmpty

/-- `str(value or "")` of what `get` gives. -/
def textOr (value : Option python.Json) : Str :=
  match value with
  | some value => if truthy value then textOf value else []
  | none => []

end Values

/-! ## How a JSON file is written -/

/-- `text.replace("\r\n", "\n")`. -/
def unixLines : List Char → List Char
  | '\r' :: '\n' :: rest => '\n' :: unixLines rest
  | c :: rest => c :: unixLines rest
  | [] => []

def isBlankRun (c : Char) : Bool := c = ' ' || c = '\t'

/-- `_FIRST_INDENT`: the run of blanks in front of the first key, where it stands on a line of its own. -/
def firstIndent : List Char → Option (List Char)
  | '{' :: '\n' :: rest =>
      let run := rest.takeWhile isBlankRun
      match run, (rest.dropWhile isBlankRun).head? with
      | _ :: _, some c => if Text.isSpace c then none else some run
      | _, _ => none
  | _ => none

def isOneLine (body : List Char) : Bool := !(['{', '\n'].isPrefixOf (body.dropWhile Text.isSpace))

def indentOf (body : List Char) : Indent :=
  match firstIndent body with
  | some run => if run = List.replicate run.length ' ' then .spaces run.length else .run run
  | none => if isOneLine body then .oneLine else .spaces 0

section Layouts

variable {python : Python}

def Layout.style (layout : Layout) : Document.Style where
  indent :=
    match layout.indent with
    | .oneLine => none
    | .spaces count => some (List.replicate count ' ')
    | .run text => some text
  ensureAscii := layout.asciiOnly

def detectLayout (raw : Bytes) (text : String) (document : python.Json) : Layout :=
  let body := unixLines text.toList
  { indent := indentOf body
    crlf := ['\r', '\n'] <:+: text.toList
    trailingNewline := body.getLast? = some '\n'
    bom := markBytes.isPrefixOf raw
    asciiOnly := raw.all (fun byte => byte < 128) &&
      !(Document.dumps ⟨none, false⟩ document).all CodePoint.isAscii }

def crlfLines (text : Str) : Str :=
  text.flatMap fun point => if point = .char '\n' then [.char '\r', .char '\n'] else [point]

/-- `text.encode("utf-8")`. -/
def encode (text : Str) : Except Refusal Bytes :=
  match Str.text? text with
  | some text => .ok (utf8 text)
  | none => .error .notEncodable

def renderJson (document : python.Json) (layout : Option Layout) : Except Refusal Bytes := do
  let settings := layout.getD defaultLayout
  let text := Document.dumps settings.style document
  let text := if settings.trailingNewline then text ++ [.char '\n'] else text
  let text := if settings.crlf then crlfLines text else text
  let payload ← encode text
  return if settings.bom then markBytes ++ payload else payload

/-- `_is_valid_indent`, of the indents an entry can state. -/
def isValidIndent : Indent → Bool
  | .oneLine => true
  | .spaces count => count ≤ maxIndent
  | .run text => 0 < text.length && text.length ≤ maxIndent && text.all isBlankRun

def statedIndent : python.Json → Option Indent
  | .null => some .oneLine
  | .int value => if 0 ≤ value then some (.spaces value.toNat) else none
  | .string value => (value.mapM CodePoint.char?).map .run
  | _ => none

def layoutKeys : List Str :=
  [str "indent", str "newline", str "trailing_newline", str "bom", str "ascii_only"]

/-- A truth value a received layout may state. -/
def flag (path : Str) (entries : List (Str × python.Json)) (key : String) (default : Bool) : Except Refusal Bool :=
  match Document.get? entries key with
  | none => .ok default
  | some (.bool value) => .ok value
  | some _ => .error (.layoutFlag path)

def validatedIndent (path : Str) (entries : List (Str × python.Json)) : Except Refusal Indent :=
  match Document.get? entries "indent" with
  | none => .ok defaultLayout.indent
  | some value =>
      match statedIndent value with
      | some indent => if isValidIndent indent then .ok indent else .error (.layoutIndent path)
      | none => .error (.layoutIndent path)

def validatedNewline (path : Str) (entries : List (Str × python.Json)) : Except Refusal Bool :=
  match Document.get? entries "newline" with
  | none => .ok defaultLayout.crlf
  | some (.string value) =>
      if value = str "\n" then .ok false else if value = str "\r\n" then .ok true else .error (.layoutNewline path)
  | some _ => .error (.layoutNewline path)

def validatedLayout (path : Str) (raw : Option python.Json) : Except Refusal (Option Layout) :=
  match raw with
  | none => .ok none
  | some .null => .ok none
  | some (.object entries) =>
      if entries.all fun entry => entry.1 ∈ layoutKeys then do
        let indent ← validatedIndent path entries
        let crlf ← validatedNewline path entries
        let trailingNewline ← flag path entries "trailing_newline" defaultLayout.trailingNewline
        let bom ← flag path entries "bom" defaultLayout.bom
        let asciiOnly ← flag path entries "ascii_only" defaultLayout.asciiOnly
        return some ⟨indent, crlf, trailingNewline, bom, asciiOnly⟩
      else .error (.layoutKeys path)
  | some _ => .error (.layoutNotObject path)

def Indent.toJson : Indent → python.Json
  | .oneLine => .null
  | .spaces count => .int count
  | .run text => .string (text.map .char)

def Layout.toJson (layout : Layout) : python.Json :=
  .object [(str "indent", layout.indent.toJson), (str "newline", .string (str (if layout.crlf then "\r\n" else "\n"))),
    (str "trailing_newline", .bool layout.trailingNewline), (str "bom", .bool layout.bom),
    (str "ascii_only", .bool layout.asciiOnly)]

end Layouts

/-! ## An entry's bytes -/

section Entries

variable {python : Python}

namespace BundleEntry

/-- What a bundle states of an entry, under its path. -/
def members (entry : BundleEntry python) : List (Str × python.Json) :=
  [(str "role", .string (str entry.role.spelled)), (str "kind", .string (str entry.kind.spelled)),
      (str "sha256", .string entry.sha256)] ++
    (entry.layout.map fun layout => (str "layout", layout.toJson)).toList ++ [(str "content", entry.content)] ++
    (entry.verbatim.map fun text => (str "verbatim", Document.string text)).toList

def toJson (entry : BundleEntry python) : python.Json := .object entry.members

def renderedBytes (entry : BundleEntry python) : Except Refusal Bytes :=
  match entry.kind with
  | .json =>
      match entry.content with
      | .object _ =>
          match entry.verbatim with
          | some text => encode text
          | none => renderJson entry.content entry.layout
      | _ => .error (.contentNotObject entry.path)
  | .text =>
      match entry.content with
      | .string text => encode text
      | _ => .error (.contentNotText entry.path)
  | .base64 =>
      match ((textOf entry.content).mapM CodePoint.char?).bind Base64.decode with
      | some payload => .ok payload
      | none => .error (.contentNotBase64 entry.path)

end BundleEntry

/-- `relative.endswith(".json")`. -/
def isJsonName (relative : Str) : Bool := (str ".json").isSuffixOf relative

def readEntry (raw : Bytes) (relative : Str) (role : Role) : Except Refusal (BundleEntry python) :=
  if isJsonName relative then
    match utf8Sig? raw with
    | none => .error (.notJson relative)
    | some text =>
        match Document.loads python.floats text with
        | none => .error (.notJson relative)
        | some (.object entries) => do
            let document : python.Json := .object entries
            let layout := detectLayout raw text document
            let rendered ← renderJson document (some layout)
            if rendered = raw then return ⟨relative, role, .json, document, python.sha256 rendered, some layout, none⟩
            else
              match utf8? raw with
              | none => .error (.notJson relative)
              | some whole => return ⟨relative, role, .json, document, python.sha256 raw, none, some (str whole)⟩
        | some _ => .error (.rootNotObject relative)
  else
    match utf8? raw with
    | none => .ok ⟨relative, role, .base64, .string ((Base64.encode raw).map .char), python.sha256 raw, none, none⟩
    | some text => .ok ⟨relative, role, .text, .string (str text), python.sha256 raw, none, none⟩

end Entries

/-! ## Building -/

section Build

variable {python : Python}

/-- One file of the tool root that is carried: under which path, in which role, and its bytes. -/
structure Source where
  relative : Str
  role : Role
  raw : Bytes

def readSource (source : Source) : Except Refusal (BundleEntry python) :=
  readEntry source.raw source.relative source.role

/-- The document `json.loads` gives of a file. -/
def loadFile (python : Python) (raw : Bytes) : Option python.Json :=
  (utf8Sig? raw).bind (Document.loads python.floats)

def checkCatalogSource : python.Json → Except Refusal Unit
  | .object entry =>
      if Str.strip (textOr (Document.get? entry "file")) = [] then .error .catalogSourceWithoutFile else .ok ()
  | _ => .error .catalogSourceNotObject

/-- `catalogued_files`; the names are the store's, the bundle's files come from the manifest. -/
def cataloguedFiles (python : Python) (files : Files) (data : Path) : Except Refusal Unit :=
  match FileTree.content? files (data ++ [catalogName]) with
  | none => .error .noCatalog
  | some raw =>
      match loadFile python raw with
      | none => .error .catalogNotJson
      | some (.object document) =>
          match Document.get? document "config_sources" with
          | some (.array entries) => entries.forM checkCatalogSource
          | _ => .error .catalogWithoutSources
      | some _ => .error .catalogNotObject

/-- One file of the manifest. -/
structure DataFile where
  file : Str
  appCode : Str
  kind : Str
  transfer : Str
  inBundle : Bool
  description : Str

def knownTransfers : List Str :=
  [str "push", str "merge", str "field_merge", str "secret_merge", str "pull", str "local"]

/-- A name with nothing before it: `name == Path(name).name`, and no slash of either kind. -/
def isBare (name : Str) : Bool := .char '/' ∉ name && .char '\\' ∉ name && name ≠ str "."

def readInBundle (name : Str) : Option python.Json → Except Refusal Bool
  | none => .ok false
  | some (.bool value) => .ok value
  | some _ => .error (.manifestInBundle name)

def readDataFile (seen : List Str) : python.Json → Except Refusal DataFile
  | .object entry =>
      let name := Str.strip (textOr (Document.get? entry "file"))
      let transfer := Str.strip (textOr (Document.get? entry "transfer"))
      let appCode := Str.strip (textOr (Document.get? entry "app_code"))
      if name = [] then .error .manifestEntryWithoutFile
      else if isBare name = false then .error (.manifestNotBare name)
      else if name ∈ seen then .error (.manifestTwice name)
      else if transfer ∉ knownTransfers then .error (.manifestTransfer name transfer)
      else if appCode = [] then .error (.manifestWithoutApp name)
      else
        (readInBundle name (Document.get? entry "in_bundle")).map fun inBundle =>
          { file := name
            appCode
            kind := Str.strip (textOr (Document.get? entry "kind"))
            transfer
            inBundle
            description := textOr (Document.get? entry "description") }
  | _ => .error .manifestEntryNotObject

def readDataFiles : List Str → List python.Json → Except Refusal (List DataFile)
  | _, [] => .ok []
  | seen, entry :: rest => do
      let file ← readDataFile seen entry
      let others ← readDataFiles (file.file :: seen) rest
      return file :: others

/-- `load_manifest`: the operator's copy, or the package's in its catalogue. -/
def loadManifest (python : Python) (files : Files) (data catalogue : Path) : Except Refusal (List DataFile) :=
  match (FileTree.content? files (data ++ [manifestName])).or
      (FileTree.content? files (catalogue ++ [manifestName])) with
  | none => .error .noManifest
  | some raw =>
      match loadFile python raw with
      | none => .error .manifestNotJson
      | some (.object document) =>
          match Document.get? document "data_files" with
          | some (.array (first :: rest)) => readDataFiles [] (first :: rest)
          | _ => .error .manifestEmpty
      | some _ => .error .manifestNotObject

/-- The files `travelling_data_files` leaves to roles of their own. -/
def handledSeparately : List Str := [catalogName.val, secretName.val, inventoryName.val]

def travellingDataFiles (python : Python) (files : Files) (data catalogue : Path) : Except Refusal (List Str) := do
  let manifest ← loadManifest python files data catalogue
  return (manifest.filter fun item => item.transfer ≠ str "local" && item.file ∉ handledSeparately).map DataFile.file

/-- A file that is carried where it exists, and is named as missing where it does not. -/
def sourceAt (files : Files) (location : Path) (relative : Str) (role : Role) : List Source × List Str :=
  match FileTree.content? files location with
  | some raw => ([⟨relative, role, raw⟩], [])
  | none => ([], [relative])

/-- `data/<name>`, for a name the manifest gives. -/
def dataSource (files : Files) (data : Path) (name : Str) : List Source × List Str :=
  let relative := joinParts [dataName.val, name]
  match fileName? name with
  | some file => sourceAt files (data ++ [file]) relative .configSource
  | none => ([], [relative])

/-- The order of `sorted` on paths. -/
def pathOrder (path : Path) : List (List Nat) := path.map fun name => name.val.map CodePoint.number

def isAsset (base : Path) (path : Path) : Bool :=
  base.isPrefixOf path && path.getLast?.all (fun name => name.val ∉ assetSkipNames) &&
    path.all fun name => name.val ≠ str "__pycache__"

/-- `_asset_files`, each with its bytes. -/
def assetFiles (files : Files) (root : Path) : List Source :=
  estateAssetDirs.flatMap fun directory =>
    if FileTree.isDirectory files (root ++ directory) then
      (Selection.sortedBy (fun entry => pathOrder entry.1)
        (FileTree.filesWhere (isAsset (root ++ directory)) files)).map fun entry =>
          ⟨relativeText (entry.1.drop root.length), .estateAsset, entry.2⟩
    else []

def inventorySources (files : Files) (root : Path) : List Source × List Str :=
  match FileTree.content? files (root ++ [dataName, inventoryName]) with
  | some raw => (inventorySeedRelatives.map fun relative => ⟨relativeText relative, .seedInventory, raw⟩, [])
  | none => ([], [relativeText [dataName, inventoryName]])

structure Export where
  root : Path
  data : Path
  catalogue : Path
  includeSecrets : Bool
  includeAssets : Bool
  exportedAt : Str
  toolVersion : Str

/-- The files a bundle carries, in its order, and the ones it names as missing. -/
def sources (files : Files) (request : Export) (names : List Str) : List Source × List Str :=
  let config := sourceAt files (request.root ++ [configName]) configName.val .toolConfig
  let catalog := sourceAt files (request.data ++ [catalogName]) (relativeText [dataName, catalogName]) .configCatalog
  let named := names.map (dataSource files request.data)
  let secret :=
    if request.includeSecrets then
      sourceAt files (request.root ++ secretStoreRelative) (relativeText secretStoreRelative) .secretStore
    else ([], [])
  let assets := if request.includeAssets then assetFiles files request.root else []
  let inventory := inventorySources files request.root
  (config.1 ++ catalog.1 ++ named.flatMap Prod.fst ++ secret.1 ++ assets ++ inventory.1,
    config.2 ++ named.flatMap Prod.snd ++ secret.2 ++ inventory.2)

def notes : List String :=
  ["One estate's configuration, as one file. Import it with `dbabrain import-data`.",
    "The secret store here is CIPHERTEXT. The passphrase is not in this file and cannot " ++
      "be recovered from it: set DBABRAIN_SECRET_KEY on the importing machine.",
    "This file describes a real estate - hosts, accounts, chat ids, ciphertext. Treat it " ++
      "as a credential: never commit it, never attach it to an issue.",
    "database-inventory.json travels to BOTH data/ and runtime/reports/ - the reports " ++
      "app reads the second and merges health into it, so a machine without one fails " ++
      "inventory-workflow every cycle. Test fixtures and samples do not travel.",
    "Every entry carries a sha256 of the bytes it becomes on disk; import verifies all " ++
      "of them before it writes any of them."]

def bundleFormat : String := "dbabrain-config-bundle"

def schemaVersion : Int := 1

def bundleDocument (request : Export) (entries : List (BundleEntry python)) (missing : List Str) : python.Json :=
  .object [(str "bundle_format", .string (str bundleFormat)), (str "schema_version", .int schemaVersion),
    (str "exported_at", .string request.exportedAt), (str "exported_by_version", .string request.toolVersion),
    (str "includes_secret_store", .bool (entries.any fun entry => entry.role = .secretStore)),
    (str "notes", .array (notes.map fun note => .string (str note))),
    (str "missing_at_source", .array (missing.map .string)),
    (str "files", .object (Dict.empty.update (entries.map fun entry => (entry.path, entry.toJson))).entries)]

/-- The data files that travel, where `config.json` can be read and the catalog is one. -/
def checkedNames (python : Python) (files : Files) (request : Export) : Except Refusal (List Str) := do
  let _ : List (BundleEntry python) ←
    (sourceAt files (request.root ++ [configName]) configName.val .toolConfig).1.mapM readSource
  cataloguedFiles python files request.data
  travellingDataFiles python files request.data request.catalogue

def bundleOf (python : Python) (request : Export) (found : List Source × List Str) : Except Refusal python.Json := do
  let entries ← found.1.mapM readSource
  return bundleDocument request entries found.2

def buildBundle (python : Python) (files : Files) (request : Export) : Except Refusal python.Json := do
  let names ← checkedNames python files request
  bundleOf python request (sources files request names)

def bundleText (bundle : python.Json) : Str :=
  Document.dumps ⟨some (List.replicate 4 ' '), false⟩ bundle ++ [.char '\n']

/-- What `export-data` writes: the bundle's text, where it has bytes. -/
def exportText (python : Python) (files : Files) (request : Export) : Except Refusal String := do
  let bundle ← buildBundle python files request
  match Str.text? (bundleText bundle) with
  | some text => return text
  | none => throw .notEncodable

end Build

/-! ## Reading -/

section Read

variable {python : Python}

/-- The parts of a text that is a path: what stands between its slashes, without the empty ones and `"."`. -/
def pureParts (text : Str) : List Str := (splitParts text).filter fun part => part ≠ [] && part ≠ str "."

def safeRelative (raw : Str) : Except Refusal Str :=
  let text := Str.replace '\\' '/' (Str.strip raw)
  let parts := pureParts text
  if text = [] then .error .emptyPath
  else if text[1]? = some (.char ':') then .error (.notRelative raw)
  else if text.head? = some (.char '/') then .error (.notRelative raw)
  else if str ".." ∈ parts then .error (.leavesRoot raw)
  else if parts = [] then .error (.namesNoFile raw)
  else .ok (joinParts parts)

/-- `_validated_verbatim`; a text that cannot be encoded is refused here already. -/
def validatedVerbatim (python : Python) (path : Str) (kind : Kind) (entry : List (Str × python.Json)) :
    Except Refusal (Option Str) :=
  match Document.get? entry "verbatim" with
  | none => .ok none
  | some value =>
      if kind ≠ .json then .error (.verbatimNotJson path)
      else
        match value with
        | .string verbatim =>
            let text := verbatim.dropWhile fun point => point = .char mark
            match (Str.text? text).bind (Document.loads python.floats) with
            | none => .error (.verbatimUnreadable path)
            | some written =>
                if Document.equal written ((Document.get? entry "content").getD .null) then .ok (some verbatim)
                else .error (.verbatimDiffers path)
        | _ => .error (.verbatimNotText path)

/-- The entry a member of `files` states, under a path that is accepted. -/
def readMember (python : Python) (relative : Str) (entry : List (Str × python.Json)) :
    Except Refusal (BundleEntry python) :=
  let stated := textOr (Document.get? entry "role")
  match Role.of? stated with
  | none => .error (.unknownRole relative stated)
  | some role =>
      let named := textOr (Document.get? entry "kind")
      match Kind.of? named with
      | none => .error (.unknownKind relative named)
      | some kind =>
          let checksum := textOr (Document.get? entry "sha256")
          if checksum.length ≠ 64 then .error (.noChecksum relative)
          else do
            let layout ← validatedLayout relative (Document.get? entry "layout")
            let verbatim ← validatedVerbatim python relative kind entry
            let read : BundleEntry python :=
              ⟨relative, role, kind, (Document.get? entry "content").getD .null, checksum, layout, verbatim⟩
            let rendered ← read.renderedBytes
            if python.sha256 rendered = checksum then .ok read else .error (.checksumMismatch relative)

/-- What `read_bundle` makes of one member of `files`. -/
def readFile (python : Python) (seen : List Str) (rawPath : Str) (rawEntry : python.Json) :
    Except Refusal (BundleEntry python) := do
  let relative ← safeRelative rawPath
  if relative ∈ seen then .error (.twice relative)
  else
    match rawEntry with
    | .object entry => readMember python relative entry
    | _ => .error (.entryNotObject relative)

def readFiles (python : Python) : List Str → List (Str × python.Json) → Except Refusal (List (BundleEntry python))
  | _, [] => .ok []
  | seen, (rawPath, rawEntry) :: rest => do
      let entry ← readFile python seen rawPath rawEntry
      let others ← readFiles python (entry.path :: seen) rest
      return entry :: others

def isBundle (document : List (Str × python.Json)) : Bool :=
  match Document.get? document "bundle_format" with
  | some (.string text) => text = str bundleFormat
  | _ => false

def readBundle (python : Python) : python.Json → Except Refusal (List (BundleEntry python))
  | .object document =>
      if isBundle document then
        match Document.get? document "schema_version" with
        | some (.int version) =>
            if version > schemaVersion then .error (.laterVersion version)
            else
              match Document.get? document "files" with
              | some (.object (first :: rest)) => readFiles python [] (first :: rest)
              | _ => .error .noFiles
        | _ => .error .notAVersion
      else .error .notABundle
  | _ => .error .notABundle

def selectEntries (includeSecrets includeAssets : Bool) (entries : List (BundleEntry python)) :
    List (BundleEntry python) :=
  entries.filter fun entry =>
    !(entry.role = .secretStore && !includeSecrets) && !(entry.role = .estateAsset && !includeAssets)

end Read

/-! ## What an entry states is read -/

section States

variable {python : Python}

namespace BundleEntry

variable (entry : BundleEntry python)

theorem get?_role : Document.get? entry.members "role" = some (.string (str entry.role.spelled)) := rfl

theorem get?_kind : Document.get? entry.members "kind" = some (.string (str entry.kind.spelled)) := rfl

theorem get?_sha256 : Document.get? entry.members "sha256" = some (.string entry.sha256) := rfl

theorem get?_layout : Document.get? entry.members "layout" = entry.layout.map Layout.toJson := by
  obtain ⟨_, _, _, _, _, layout, verbatim⟩ := entry
  cases layout with
  | none =>
    cases verbatim with
    | none => rfl
    | some text => rfl
  | some layout => rfl

theorem get?_content : Document.get? entry.members "content" = some entry.content := by
  obtain ⟨_, _, _, _, _, layout, _⟩ := entry
  cases layout with
  | none => rfl
  | some layout => rfl

end BundleEntry

theorem textOr_string {text : Str} (some_point : text ≠ []) :
    textOr (some (.string text) : Option python.Json) = text := by
  rw [textOr, truthy, if_pos (by simpa using some_point), textOf]

theorem textOr_sha256 (raw : Bytes) : textOr (some (.string (python.sha256 raw)) : Option python.Json) = python.sha256 raw := by
  apply textOr_string
  intro nothing
  have length := python.sha256_length raw
  rw [nothing] at length
  cases length

theorem stated_role (entry : BundleEntry python) :
    Role.of? (textOr (Document.get? entry.members "role")) = some entry.role := by
  have some_point : str entry.role.spelled ≠ [] := by
    cases entry.role with
    | _ => decide
  rw [entry.get?_role, textOr_string some_point, Role.of?_spelled]

theorem stated_kind (entry : BundleEntry python) :
    Kind.of? (textOr (Document.get? entry.members "kind")) = some entry.kind := by
  have some_point : str entry.kind.spelled ≠ [] := by
    cases entry.kind with
    | _ => decide
  rw [entry.get?_kind, textOr_string some_point, Kind.of?_spelled]

theorem readMember_members {relative : Str} {entry : BundleEntry python} {raw : Bytes}
    (layout : validatedLayout relative (entry.layout.map Layout.toJson : Option python.Json) = .ok entry.layout)
    (verbatim : validatedVerbatim python relative entry.kind entry.members = .ok entry.verbatim)
    (rendered : { entry with path := relative }.renderedBytes = .ok raw) (checksum : entry.sha256 = python.sha256 raw) :
    readMember python relative entry.members = .ok { entry with path := relative } := by
  have digits : textOr (Document.get? entry.members "sha256") = entry.sha256 := by
    rw [entry.get?_sha256, checksum, textOr_sha256]
  have long : ¬ entry.sha256.length ≠ 64 := not_not.mpr (checksum ▸ python.sha256_length raw)
  rw [readMember, stated_role]
  dsimp only
  rw [stated_kind]
  dsimp only
  rw [digits, if_neg long, entry.get?_layout, layout, verbatim, entry.get?_content]
  change (BundleEntry.renderedBytes { entry with path := relative }).bind _ = _
  rw [rendered]
  exact if_pos checksum.symm

theorem mem_readFiles {seen : List Str} {members : List (Str × python.Json)} {entries : List (BundleEntry python)}
    (read : readFiles python seen members = .ok entries) :
    ∀ entry ∈ entries, ∃ member ∈ members, ∃ seen, readFile python seen member.1 member.2 = .ok entry := by
  induction members generalizing seen entries with
  | nil =>
    obtain rfl := Except.ok.inj read
    simp
  | cons first rest ih =>
    obtain ⟨held, made, later⟩ := Execution.bind_eq_ok read
    obtain ⟨others, next, whole⟩ := Execution.bind_eq_ok later
    obtain rfl := Except.ok.inj whole
    intro entry member
    rcases List.mem_cons.mp member with rfl | further
    · exact ⟨first, List.mem_cons_self, seen, made⟩
    · obtain ⟨source, among, past, read⟩ := ih next entry further
      exact ⟨source, List.mem_cons_of_mem first among, past, read⟩

theorem role_of_readMember {relative : Str} {member : List (Str × python.Json)} {entry : BundleEntry python}
    (read : readMember python relative member = .ok entry) :
    entry.path = relative ∧ Role.of? (textOr (Document.get? member "role")) = some entry.role := by
  rw [readMember] at read
  split at read
  · cases read
  · next role known =>
      dsimp only at read
      split at read
      · cases read
      · split at read
        · cases read
        · obtain ⟨layout, _, read⟩ := Execution.bind_eq_ok read
          obtain ⟨verbatim, _, read⟩ := Execution.bind_eq_ok read
          obtain ⟨rendered, _, read⟩ := Execution.bind_eq_ok read
          split at read
          · obtain rfl := Except.ok.inj read
            exact ⟨rfl, known⟩
          · cases read

theorem of_readFile_toJson {seen : List Str} {path : Str} {carried entry : BundleEntry python}
    (read : readFile python seen path carried.toJson = .ok entry) :
    safeRelative path = .ok entry.path ∧ entry.role = carried.role := by
  obtain ⟨relative, accepted, read⟩ := Execution.bind_eq_ok read
  split at read
  · cases read
  · obtain ⟨named, known⟩ := role_of_readMember read
    rw [stated_role] at known
    exact ⟨named ▸ accepted, (Option.some.inj known).symm⟩

theorem of_readEntry {raw : Bytes} {relative : Str} {role : Role} {entry : BundleEntry python}
    (read : readEntry raw relative role = .ok entry) : entry.path = relative ∧ entry.role = role := by
  rw [readEntry] at read
  split at read
  · split at read
    · cases read
    · split at read
      · cases read
      · obtain ⟨rendered, _, read⟩ := Execution.bind_eq_ok read
        split at read
        · obtain rfl := Except.ok.inj read
          exact ⟨rfl, rfl⟩
        · split at read
          · cases read
          · obtain rfl := Except.ok.inj read
            exact ⟨rfl, rfl⟩
      · cases read
  · split at read
    · obtain rfl := Except.ok.inj read
      exact ⟨rfl, rfl⟩
    · obtain rfl := Except.ok.inj read
      exact ⟨rfl, rfl⟩

theorem files_of_readBundle {document : python.Json} {entries : List (BundleEntry python)}
    (read : readBundle python document = .ok entries) :
    ∃ members files, document = .object members ∧ Document.get? members "files" = some (.object files) ∧
      readFiles python [] files = .ok entries := by
  rw [readBundle.eq_def] at read
  split at read
  · next members =>
      split at read
      · split at read
        · split at read
          · cases read
          · split at read
            · next first rest stated => exact ⟨members, first :: rest, rfl, stated, read⟩
            · cases read
        · cases read
      · cases read
  · cases read

end States

/-! ## Importing -/

section Import

variable {python : Python}

inductive Action
  | create
  | overwrite
  | identical
  deriving DecidableEq

/-- `PlannedWrite`. -/
structure PlannedWrite where
  path : Str
  role : Role
  action : Action
  size : Nat

/-- `ImportResult`. -/
structure ImportResult where
  created : List Str
  overwritten : List Str
  unchanged : List Str

/-- Where an entry is placed, if every part of its path can be a name. -/
def target? (root : Path) (path : Str) : Option Path := (place? path).map fun relative => root ++ relative

def actionAt (files : Files) (target : Option Path) (payload : Bytes) : Action :=
  match target with
  | none => .create
  | some path =>
      if FileTree.isThere files path = false then .create
      else if FileTree.content? files path = some payload then .identical
      else .overwrite

def planEntry (files : Files) (root : Path) (entry : BundleEntry python) : Except Refusal PlannedWrite := do
  let payload ← entry.renderedBytes
  return ⟨entry.path, entry.role, actionAt files (target? root entry.path) payload, payload.length⟩

def planImport (files : Files) (root : Path) (entries : List (BundleEntry python)) :
    Except Refusal (List PlannedWrite) := entries.mapM (planEntry files root)

/-- What the file system may refuse of placing one entry: the directories, after so many of them, the
staging file, with whatever is left in it, or moving that over the target. -/
inductive Fault
  | directories (made : Nat)
  | write (left : Option Bytes)
  | move

inductive Raised
  | refused (why : Refusal)
  | conflicts (paths : List Str)
  | failed (path : Str)

/-- `target.name + ".dbabrain-import"`. -/
def stagingName (name : Str) : Str := name ++ str ".dbabrain-import"

def staging? (target : Path) : Option Path := do
  let last ← target.getLast?
  let name ← fileName? (stagingName last.val)
  return target.dropLast ++ [name]

/-- What a step leaves, and whether it went through. -/
abbrev Step := Files × Bool

def Step.andThen (step : Step) (next : Files → Step) : Step := if step.2 then next step.1 else step

def stepOf (files : Files) (result : Option Files) : Step :=
  match result with
  | some after => (after, true)
  | none => (files, false)

def makeParents (files : Files) (target : Path) (fault : Option Fault) : Step :=
  match fault with
  | some (.directories made) => (FileTree.makeFirst files target.dropLast made, false)
  | _ => stepOf files (FileTree.makeDirectories files target.dropLast)

def writeStaging (files : Files) (staging : Path) (payload : Bytes) (fault : Option Fault) : Step :=
  match fault with
  | some (.write none) => (files, false)
  | some (.write (some left)) => ((stepOf files (FileTree.writeFile files staging left)).1, false)
  | _ => stepOf files (FileTree.writeFile files staging payload)

def moveStaging (files : Files) (staging target : Path) (fault : Option Fault) : Step :=
  match fault with
  | some .move => (files, false)
  | _ => stepOf files (FileTree.moveFile files staging target)

def placeBeside (files : Files) (staging target : Path) (payload : Bytes) (fault : Option Fault) : Step :=
  (makeParents files target fault).andThen fun files =>
    (writeStaging files staging payload fault).andThen fun files => moveStaging files staging target fault

/-- Placing one payload: the tree afterwards, and whether the target holds it. -/
def placeEntry (files : Files) (target : Option Path) (payload : Bytes) (fault : Option Fault) : Step :=
  match target with
  | none => (files, false)
  | some target =>
      match staging? target with
      | none => (files, false)
      | some staging => placeBeside files staging target payload fault

/-- An entry with the bytes it becomes and what the plan says of it. -/
structure Planned where
  path : Str
  action : Action
  payload : Bytes

/-- The loop of `apply_bundle`: the tree when it stops, and the path it stopped at. -/
def placeAll (root : Path) (faults : Str → Option Fault) : Files → List Planned → Files × Option Str
  | files, [] => (files, none)
  | files, entry :: rest =>
      if entry.action = .identical then placeAll root faults files rest
      else
        match placeEntry files (target? root entry.path) entry.payload (faults entry.path) with
        | (files, true) => placeAll root faults files rest
        | (files, false) => (files, some entry.path)

def planned (files : Files) (root : Path) (entries : List (BundleEntry python)) : Except Refusal (List Planned) :=
  entries.mapM fun entry => do
    let payload ← entry.renderedBytes
    let plan ← planEntry files root entry
    return ⟨entry.path, plan.action, payload⟩

def pathsOf (action : Action) (plans : List Planned) : List Str :=
  (plans.filter fun plan => plan.action = action).map Planned.path

/-- `apply_bundle`, with what the file system refuses: the tree afterwards, and what is returned or raised. -/
def applyBundle (files : Files) (root : Path) (entries : List (BundleEntry python)) (force : Bool)
    (faults : Str → Option Fault) : Files × Except Raised ImportResult :=
  match planned files root entries with
  | .error why => (files, .error (.refused why))
  | .ok plans =>
      let conflicts := pathsOf .overwrite plans
      if conflicts ≠ [] ∧ force = false then (files, .error (.conflicts conflicts))
      else
        match placeAll root faults files plans with
        | (after, some path) => (after, .error (.failed path))
        | (after, none) =>
            (after, .ok ⟨pathsOf .create plans, pathsOf .overwrite plans, pathsOf .identical plans⟩)

/-! ## What an import changes -/

section Changes

variable {files : Files} {root : Path}

theorem path_of_planned {files : Files} {entries : List (BundleEntry python)} {plans : List Planned}
    (ok : planned files root entries = .ok plans) {plan : Planned} (member : plan ∈ plans) :
    ∃ entry ∈ entries, plan.path = entry.path := by
  obtain ⟨entry, listed, made⟩ := Execution.exists_of_mem_mapM ok member
  obtain ⟨payload, _, later⟩ := Execution.bind_eq_ok made
  obtain ⟨write, _, whole⟩ := Execution.bind_eq_ok later
  rw [← Except.ok.inj whole]
  exact ⟨entry, listed, rfl⟩

theorem staging?_of_target {target staging : Path} (beside : staging? target = some staging) :
    ∃ front last name, target = front ++ [last] ∧ fileName? (stagingName last.val) = some name ∧
      staging = front ++ [name] := by
  obtain ⟨last, ends, named⟩ := Option.bind_eq_some_iff.mp beside
  obtain ⟨name, fits, same⟩ := Option.bind_eq_some_iff.mp named
  obtain ⟨front, rfl⟩ := List.getLast?_eq_some_iff.mp ends
  refine ⟨front, last, name, rfl, fits, ?_⟩
  have joined := Option.some.inj same
  rw [List.dropLast_concat] at joined
  exact joined.symm

theorem staging_ne_target {target staging : Path} (beside : staging? target = some staging) : staging ≠ target := by
  obtain ⟨front, last, name, rfl, fits, rfl⟩ := staging?_of_target beside
  intro same
  have names : name = last := by simpa using same
  have longer := congrArg List.length (val_of_fileName? fits)
  rw [names, stagingName, List.length_append] at longer
  have suffix : (str ".dbabrain-import").length = 16 := by decide
  omega

theorem content?_stepOf {result : Option Files} {other : Path} {content : Option Bytes}
    (kept : FileTree.content? files other = content)
    (changed : ∀ after, result = some after → FileTree.content? after other = content) :
    FileTree.content? (stepOf files result).1 other = content := by
  cases result with
  | none => exact kept
  | some after => exact changed after rfl

theorem content?_makeParents (target : Path) (fault : Option Fault) (other : Path) :
    FileTree.content? (makeParents files target fault).1 other = FileTree.content? files other := by
  fun_cases makeParents files target fault with
  | case1 => exact FileTree.content?_makeFirst _
  | case2 => exact content?_stepOf rfl fun after made => FileTree.content?_makeDirectories made

theorem content?_writeStaging {staging : Path} (payload : Bytes) (fault : Option Fault) {other : Path}
    (apart : other ≠ staging) :
    FileTree.content? (writeStaging files staging payload fault).1 other = FileTree.content? files other := by
  have written : ∀ (content : Bytes) (after : Files), FileTree.writeFile files staging content = some after →
      FileTree.content? after other = FileTree.content? files other := by
    intro content after wrote
    rw [FileTree.content?_writeFile wrote, if_neg apart]
  fun_cases writeStaging files staging payload fault with
  | case1 => rfl
  | case2 => exact content?_stepOf rfl fun after => written _ after
  | case3 => exact content?_stepOf rfl fun after => written _ after

theorem content?_moveStaging {staging target : Path} (fault : Option Fault) {other : Path} (apart : other ≠ staging)
    (differs : other ≠ target) :
    FileTree.content? (moveStaging files staging target fault).1 other = FileTree.content? files other := by
  fun_cases moveStaging files staging target fault with
  | case1 => rfl
  | case2 =>
    refine content?_stepOf rfl fun after moved => ?_
    cases held : FileTree.content? files staging with
    | none =>
      rw [FileTree.moveFile, held] at moved
      cases moved
    | some content => rw [FileTree.content?_moveFile held moved, if_neg differs, if_neg apart]

theorem content?_andThen {step : Step} {next : Files → Step} {other : Path} {content : Option Bytes}
    (first : FileTree.content? step.1 other = content)
    (second : step.2 = true → FileTree.content? (next step.1).1 other = content) :
    FileTree.content? (step.andThen next).1 other = content := by
  rw [Step.andThen]
  split
  · next through => exact second through
  · exact first

theorem content?_placeBeside {staging target : Path} (payload : Bytes) (fault : Option Fault) {other : Path}
    (apart : other ≠ staging) (differs : other ≠ target) :
    FileTree.content? (placeBeside files staging target payload fault).1 other = FileTree.content? files other := by
  have parents := @content?_makeParents files target fault other
  refine content?_andThen parents fun _ => ?_
  have staged := (content?_writeStaging payload fault apart).trans parents
  exact content?_andThen staged fun _ => (content?_moveStaging fault apart differs).trans staged

theorem content?_placeEntry_other {target : Option Path} {payload : Bytes} {fault : Option Fault} {other : Path}
    (apart : ∀ path, target = some path → other ≠ path ∧ staging? path ≠ some other) :
    FileTree.content? (placeEntry files target payload fault).1 other = FileTree.content? files other := by
  fun_cases placeEntry files target payload fault with
  | case1 => rfl
  | case2 => rfl
  | case3 target staging beside =>
    obtain ⟨differs, aside⟩ := apart target rfl
    have own : other ≠ staging := by
      rintro rfl
      exact aside beside
    exact content?_placeBeside payload fault own differs

/-- A run of the loop changes the targets of its plans and the staging files beside them, and no other file. -/
theorem content?_placeAll_other {faults : Str → Option Fault} {plans : List Planned} {other : Path}
    (apart : ∀ plan ∈ plans, ∀ path, target? root plan.path = some path → other ≠ path ∧ staging? path ≠ some other) :
    FileTree.content? (placeAll root faults files plans).1 other = FileTree.content? files other := by
  induction plans generalizing files with
  | nil => rfl
  | cons plan rest ih =>
    have others := fun next member => apart next (List.mem_cons_of_mem plan member)
    rw [placeAll]
    split
    · exact ih others
    · have placed := @content?_placeEntry_other files _ plan.payload (faults plan.path) _
        (apart plan List.mem_cons_self)
      rcases step : placeEntry files (target? root plan.path) plan.payload (faults plan.path) with ⟨after, through⟩
      rw [step] at placed
      cases through with
      | true => exact (ih others).trans placed
      | false => exact placed

end Changes

end Import

end DbaBrain.Lib.ConfigBundle
