import DevRepro.Python.Time
import DevRepro.Snapshots.ChainVerify

/-!
# Backup and restore of the fleet database

`server/backup.py`.  An archive is what `tarfile` makes of it: the names of the
members, and for each name what `extractfile(name).read()` gives.  Reading may
fail at any member, in a way that the handler of `restore_database` turns into
a `RestoreError` (`TarError`, `OSError`, `EOFError`, `zlib.error`) or in another
way, which escapes.

A `Folder` is the directory of a database.  A name has a file of its own there,
and opening it for writing succeeds or raises; a file that was opened is
written completely.
-/

namespace DevRepro.Server

open DevRepro.Python

/-! ## The file system -/

inductive Node where
  | file (bytes : ByteArray)
  | other

/-- The directory of a database. -/
structure Folder where
  nodes : Str → Option Node
  /-- What opening a name for writing raises. -/
  refuses : Str → Option Exc
  other_refuses : ∀ name, nodes name = some .other → refuses name ≠ none
  /-- What making the directory raises. -/
  mkdirError : Option Exc

/-- `path.is_file()`, with the bytes of the file. -/
def Folder.file? (folder : Folder) (name : Str) : Option ByteArray :=
  match folder.nodes name with
  | some (.file bytes) => some bytes
  | _ => none

/-- What a run of `restore_database` or `backup_database` raises. -/
inductive Raised where
  | restoreError (text : Str)
  | other (exc : Exc)

/-! ## Archives -/

/-- What `tarfile` raises while it reads an archive. -/
inductive TarFault where
  | unreadable (text : Str)
  | other (exc : Exc)

/-- What `restore_database` makes of it. -/
def TarFault.raised : TarFault → Raised
  | .unreadable text => .restoreError (lit "unreadable archive: " ++ text)
  | .other exc => .other exc

/-- An open archive. -/
structure Tar where
  /-- `getnames()`. -/
  names : List Str
  /-- `extractfile(name).read()`, and `none` where there is no regular file. -/
  read : Str → Except TarFault (Option ByteArray)

/-- What the program takes from its host. -/
structure Host where
  rt : Runtime
  hash : Snapshots.Sha256
  /-- The decoding of `json.loads` for bytes. -/
  decode : ByteArray → Except Exc Str
  decode_error : ∀ bytes exc, decode bytes = .error exc → exc.type.isValueError = true
  /-- ASCII is decoded as such. -/
  decode_dump : ∀ text bytes, (∀ c ∈ text, isDumpChar c = true) → encodeUtf8 text = some bytes →
    decode bytes = .ok text

def manifestName : Str := "manifest.json"

def backupFormat : Str := "devrepro-server-backup"

variable (host : Host)

/-! ## `restore_database` -/

/-- The regular files among some members. -/
def extractMembers (tar : Tar) : List Str → Except TarFault (List (Str × ByteArray))
  | [] => .ok []
  | name :: rest =>
    match tar.read name with
    | .error fault => .error fault
    | .ok none => extractMembers tar rest
    | .ok (some blob) => do
      let others ← extractMembers tar rest
      return (name, blob) :: others

/-- `json.loads` of the bytes of the manifest. -/
def parseManifest (bytes : ByteArray) : Except Exc Json :=
  host.decode bytes >>= loads host.rt.limits

/-- The manifest of an archive. -/
def readManifest (tar : Tar) : Except Raised (List (Str × Json)) :=
  match tar.read manifestName with
  | .error fault => .error fault.raised
  | .ok none => .error (.other ⟨.other "AssertionError", []⟩)
  | .ok (some bytes) =>
    match parseManifest host bytes with
    | .error exc =>
      if exc.type.isValueError then
        .error (.restoreError (lit "archive manifest is not valid JSON: " ++ exc.text))
      else .error (.other exc)
    | .ok (.obj manifest) => .ok manifest
    | .ok value =>
      .error (.restoreError (lit "archive manifest is " ++ value.typeName ++ lit ", not an object"))

/-- What `restore_database` reads before it verifies anything. -/
def readArchive (tar : Tar) : Except Raised (List (Str × ByteArray) × List (Str × Json)) :=
  if manifestName ∉ tar.names then .error (.restoreError "archive has no manifest.json")
  else
    match extractMembers tar (tar.names.filter (· ≠ manifestName)).eraseDups with
    | .error fault => .error fault.raised
    | .ok extracted => do
      let manifest ← readManifest host tar
      return (extracted, manifest)

/-- `extracted.get(name)`. -/
def member? (extracted : List (Str × ByteArray)) (name : Str) : Option ByteArray :=
  (extracted.find? fun member => member.1 = name).map Prod.snd

/-- Whether a digest of the manifest is the digest of some bytes. -/
def matchesDigest (blob : ByteArray) : Json → Bool
  | .str digest => host.hash.hexdigest blob = digest
  | _ => false

/-- The check of the declared members. -/
def verifyMembers (extracted : List (Str × ByteArray)) : List (Str × Json) → Except Raised Unit
  | [] => .ok ()
  | (name, digest) :: rest =>
    match member? extracted name with
    | none =>
      .error (.restoreError (lit "manifest declares missing member '" ++ name ++ lit "'"))
    | some blob =>
      if matchesDigest host blob digest then verifyMembers extracted rest
      else
        .error (.restoreError (lit "checksum mismatch for '" ++ name ++
          lit "'; archive is corrupt"))

/-- All the checks between reading the archive and writing. -/
def checkArchive (targetName : Str) (extracted : List (Str × ByteArray))
    (manifest : List (Str × Json)) : Except Raised Unit :=
  match dictGet? manifest "members" with
  | some (.obj declared) =>
    match verifyMembers host extracted (sortByKey declared) with
    | .error raised => .error raised
    | .ok () =>
      match dictGet? manifest "format" with
      | some (.str format) =>
        if format ≠ backupFormat then
          .error (.restoreError "not a 'devrepro-server-backup' archive")
        else if targetName ∉ extracted.map Prod.fst then
          .error (.restoreError (lit "archive contains no database file named '" ++ targetName ++
            lit "'. The restored file keeps the name it was backed up under, so the target " ++
            lit "has to use that name."))
        else .ok ()
      | _ => .error (.restoreError "not a 'devrepro-server-backup' archive")
  | _ => .error (.restoreError "manifest lacks member checksums")

/-- A run of `restore_database`: what it returns or raises, and the files that
it has written, in order. -/
structure Restore where
  result : Except Raised Unit
  writes : List (Str × ByteArray)

/-- Whether `target.with_name(name)` accepts the name. -/
def isPlainName (name : Str) : Bool :=
  name != [] && name != lit "." && !name.contains (codePoint '/')

def invalidName (name : Str) : Raised := .other ⟨.valueError, lit "Invalid name '" ++ name ++ lit "'"⟩

/-- The write loop. -/
def writeMembers (folder : Folder) (targetName : Str) : List (Str × ByteArray) → Restore
  | [] => ⟨.ok (), []⟩
  | (name, blob) :: rest =>
    if targetName = [] ∨ isPlainName name = false then ⟨.error (invalidName name), []⟩
    else
      match folder.refuses name with
      | some exc => ⟨.error (.other exc), []⟩
      | none =>
        let others := writeMembers folder targetName rest
        ⟨others.result, (name, blob) :: others.writes⟩

/-- `restore_database`, for a target with a name in a folder.  An archive that
is no file is `none`. -/
def restoreDatabase (archive : Option (Except TarFault Tar)) (folder : Folder) (targetName : Str)
    (overwrite : Bool) : Restore :=
  match archive with
  | none => ⟨.error (.restoreError "archive not found"), []⟩
  | some opened =>
    if (folder.nodes targetName).isSome ∧ overwrite = false then
      ⟨.error (.restoreError (lit "refusing to overwrite existing " ++ targetName)), []⟩
    else
      match opened with
      | .error fault => ⟨.error fault.raised, []⟩
      | .ok tar =>
        match readArchive host tar with
        | .error raised => ⟨.error raised, []⟩
        | .ok (extracted, manifest) =>
          match checkArchive host targetName extracted manifest with
          | .error raised => ⟨.error raised, []⟩
          | .ok () =>
            match folder.mkdirError with
            | some exc => ⟨.error (.other exc), []⟩
            | none => writeMembers folder targetName extracted

/-- The folder behind some writes. -/
def applyWrites (writes : List (Str × ByteArray)) (nodes : Str → Option Node) : Str → Option Node :=
  writes.foldl (fun nodes write => Function.update nodes write.1 (some (.file write.2))) nodes

/-! ## `backup_database` -/

def suffixes : List Str := [[], "-wal", "-shm"]

/-- The database and its siblings. -/
def databaseFiles (folder : Folder) (name : Str) : List (Str × ByteArray) :=
  suffixes.filterMap fun suffix =>
    (folder.file? (name ++ suffix)).map fun bytes => (name ++ suffix, bytes)

/-- The digests of some members. -/
def digests (members : List (Str × ByteArray)) : List (Str × Json) :=
  members.map fun member => (member.1, .str (host.hash.hexdigest member.2))

/-- The fields of the manifest. -/
def backupManifest (now : DateTime) (members : List (Str × ByteArray)) : List (Str × Json) :=
  [("format", .str backupFormat), ("version", .int 1), ("created_at", .str now.isoformat),
    ("members", .obj (digests host members))]

/-- `backup_database`: the members of the archive that it writes. -/
def backupDatabase (folder : Folder) (name : Str) (now : DateTime) :
    Except Raised (List (Str × ByteArray)) :=
  match folder.file? name with
  | none => .error (.restoreError (lit "database not found: " ++ name))
  | some _ =>
    let members := sortByKey (databaseFiles folder name)
    match dumps host.rt (.indented 2) (.obj (backupManifest host now members)) with
    | .error exc => .error (.other exc)
    | .ok text =>
      match encodeUtf8 text with
      | none => .error (.other Snapshots.unicodeEncodeError)
      | some bytes => .ok (members ++ [(manifestName, bytes)])

/-- The archive of some regular files, as `tarfile` reads it: of several members
of one name it finds the last. -/
def Tar.ofMembers (members : List (Str × ByteArray)) : Tar where
  names := members.map Prod.fst
  read name :=
    match member? members.reverse name with
    | some blob => .ok (some blob)
    | none => .error (.other ⟨.keyError, lit "filename " ++ name ++ lit " not found"⟩)

end DevRepro.Server
