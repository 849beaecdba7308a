import Nullock.CookieJar
import Nullock.JsonDocuments
import Nullock.SemverCompare

namespace Nullock.MarketplaceLogic
open UpdateLogic
open SessionManager (toArray)

structure AssetUrlLibrary where
  Url : Type
  /-- A text parsed in strict mode. -/
  strict : QString → Url
  isValid : Url → Bool
  scheme : Url → QString
  userInfo : Url → QString
  /-- The port, or -1. -/
  port : Url → Int
  host : Url → QString

def kMaxCatalogBytes : Nat := 1024 * 1024
def kMaxEntries : Nat := 500

structure CatalogEntry where
  id : QString := []
  name : QString := []
  summary : QString := []
  version : QString := []
  author : QString := []
  categories : List QString := []
  url : QString := []
  sha256 : QString := []
  hooks : List QString := []
  declaredPermissions : List QString := []
  minVersion : QString := []
deriving DecidableEq

structure Catalog where
  version : Int := 0
  updated : QString := []
  entries : List CatalogEntry := []
  error : QString := []

section Names

def charLatin1 (c : UInt16) : UInt8 := if c ≤ 0xFF then c.toUInt8 else 0

def kReserved : List QString :=
  [utf16 "con", utf16 "prn", utf16 "aux", utf16 "nul",
    utf16 "com1", utf16 "com2", utf16 "com3", utf16 "com4", utf16 "com5", utf16 "com6",
    utf16 "com7", utf16 "com8", utf16 "com9",
    utf16 "lpt1", utf16 "lpt2", utf16 "lpt3", utf16 "lpt4", utf16 "lpt5", utf16 "lpt6",
    utf16 "lpt7", utf16 "lpt8", utf16 "lpt9"]

def isReservedDeviceName (stem : QString) : Bool := kReserved.contains (toLower stem)

def isNameChar (ch : UInt16) : Bool :=
  let c := charLatin1 ch
  (0x61 ≤ c && c ≤ 0x7A) || (0x41 ≤ c && c ≤ 0x5A) || (0x30 ≤ c && c ≤ 0x39) ||
    c == 0x5F || c == 0x2D || c == 0x2E

/-- The file a script is installed as, empty for an identifier that names none. -/
def safeScriptFileName (id : QString) : QString :=
  let s := QString.trimmed id
  if s.isEmpty ∨ 64 < s.length then []
  else if !s.all isNameChar then []
  else if s = utf16 "." ∨ s = utf16 ".." then []
  else if s.head? = some 0x2E then []
  else if s.getLast? = some 0x2E then []
  else if isReservedDeviceName (s.takeWhile (· ≠ 0x2E)) then []
  else s ++ utf16 ".js"

def isWellFormedSha256 (s : QString) : Bool :=
  s.length == 64 && s.all (fun ch =>
    let c := charLatin1 ch
    (0x30 ≤ c && c ≤ 0x39) || (0x61 ≤ c && c ≤ 0x66) || (0x41 ≤ c && c ≤ 0x46))

end Names

def trustedHosts : List QString :=
  [utf16 "raw.githubusercontent.com", utf16 "bikebrainz.github.io"]

section Parsing
variable (J : JsonLibrary) (U : AssetUrlLibrary) (errorString : QByteArray → QString)

def isTrustedAssetUrl (url : QString) : Bool :=
  let u := U.strict (QString.trimmed url)
  let host := toLower (U.host u)
  U.isValid u && equalsIgnoreCase (U.scheme u) (utf16 "https") && (U.userInfo u).isEmpty &&
    (U.port u == -1 || U.port u == 443) && !host.isEmpty &&
    trustedHosts.any (fun t => host == t || (0x2E :: t).isSuffixOf host)

def str (o : QJsonObject) (key : String) (maxLen : Nat) : QString :=
  ((o.value key).toQString).take maxLen

def strList (o : QJsonObject) (key : String) (maxItems : Nat) : List QString :=
  (((toArray (o.value key)).filter QJsonValue.isString).map
    (fun v => v.toQString.take 64)).take maxItems

def readEntry (o : QJsonObject) : CatalogEntry where
  id := str o "id" 64
  name := str o "name" 128
  summary := str o "summary" 2048
  version := str o "version" 32
  author := str o "author" 128
  url := str o "url" 2048
  sha256 := toLower (QString.trimmed (str o "sha256" 64))
  categories := strList o "categories" 32
  hooks := strList o "hooks" 32
  declaredPermissions := strList o "permissions" 8
  minVersion := QString.trimmed (str o "minVersion" 32)

def isUsable (e : CatalogEntry) : Bool :=
  !(safeScriptFileName e.id).isEmpty && isTrustedAssetUrl U e.url && isWellFormedSha256 e.sha256

def addEntry (entries : List CatalogEntry) (v : QJsonValue) : List CatalogEntry :=
  if kMaxEntries ≤ entries.length then entries
  else
    match v with
    | .object o =>
      let e := readEntry o
      if !isUsable U e then entries
      else if entries.any (fun other => other.id == e.id) then entries
      else entries ++ [e]
    | _ => entries

def extensions (root : QJsonObject) : List QJsonValue := toArray (root.value "extensions")

def parseCatalog (json : QByteArray) : Catalog :=
  if json.isEmpty then { error := utf16 "catalog is empty" }
  else if kMaxCatalogBytes < json.length then
    { error := utf16 "catalog is larger than 1048576 bytes" }
  else
    match J.fromJson json with
    | some (.object root) =>
      let c : Catalog := { version := (QJsonObject.value root "version").toInt 0, updated := str root "updated" 32 }
      let arr := extensions root
      if arr.isEmpty then { c with error := utf16 "catalog lists no extensions" }
      else
        let entries := arr.foldl (addEntry U) []
        { c with
          entries := entries
          error :=
            if entries.isEmpty then
              utf16 "catalog had " ++ fromLatin1 (QByteArray.number arr.length) ++
                utf16 " entries but none were usable (each needs a safe id, an https " ++
                utf16 "allow-listed url, and a sha256)"
            else [] }
    | _ => { error := utf16 "catalog is not valid JSON: " ++ errorString json }

end Parsing

inductive InstallState
  | NotInstalled
  | Installed
  | UpdateAvailable
  | Local
deriving DecidableEq

structure MergedEntry where
  entry : CatalogEntry
  state : InstallState := .NotInstalled
  installedVersion : QString := []
  compatible : Bool := true
  incompatReason : QString := []

def isVersionCompatible (minVersion currentVersion : QString) : Bool :=
  if (QString.trimmed minVersion).isEmpty || (QString.trimmed currentVersion).isEmpty then true
  else 0 ≤ compareSemver currentVersion minVersion

section Merging
variable (installedFiles : List QString) (installedVersions : List (QString × QString))
  (currentVersion : QString)

def versionOf (id : QString) : QString := (installedVersions.reverse.lookup id).getD []

def isScript (f : QString) : Bool := equalsIgnoreCase (f.drop (f.length - 3)) (utf16 ".js")

def installedIds : List QString :=
  ((installedFiles.filter isScript).map (fun f => f.take (f.length - 3))).dedup

def mergeEntry (e : CatalogEntry) : MergedEntry :=
  let compatible := isVersionCompatible e.minVersion currentVersion
  let reason := if compatible then [] else utf16 "requires Nullock >= " ++ e.minVersion
  if e.id ∈ installedIds installedFiles then
    let installed := versionOf installedVersions e.id
    { entry := e
      state :=
        if !installed.isEmpty && !e.version.isEmpty && decide (compareSemver installed e.version < 0)
        then .UpdateAvailable
        else .Installed
      installedVersion := installed
      compatible := compatible
      incompatReason := reason }
  else
    { entry := e
      compatible := compatible
      incompatReason := reason }

def localEntry (id : QString) : MergedEntry where
  entry :=
    { id := id
      name := id
      version := versionOf installedVersions id
      summary := utf16 "Installed locally; not in the catalog." }
  installedVersion := versionOf installedVersions id
  state := .Local

def merge (catalog : Catalog) : List MergedEntry :=
  catalog.entries.map (mergeEntry installedFiles installedVersions currentVersion) ++
    ((installedIds installedFiles).filter
      (fun id => !catalog.entries.any (fun e => e.id == id))).map (localEntry installedVersions)

end Merging

theorem merge_entry {catalog : Catalog} {i : Nat} (h : catalog.entries[i]? = some e) :
    (merge files versions current catalog)[i]? = some (mergeEntry files versions current e) := by
  have hlt := (List.getElem?_eq_some_iff.1 h).1
  rw [merge, List.getElem?_append_left (by rwa [List.length_map]), List.getElem?_map, h]
  rfl

end Nullock.MarketplaceLogic
