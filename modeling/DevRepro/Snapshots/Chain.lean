import DevRepro.Python.JsonRoundTrip
import DevRepro.Python.JsonPaired

/-!
# The snapshot chain

`snapshots/chain.py` as the code computes it: reading `chain.jsonl`, the
digest of a link, appending a link, and verifying a history directory.

A `Directory` is what these functions see of the file system.  `locate` is
where a name leads, through `..`, symbolic links and hard links; the functions
create and extend files and never move that.  A file that exists can be read
and written: an `OSError` other than the one for a directory in the place of
the chain file is not modelled.  SHA-256 is a parameter.
-/

namespace DevRepro.Snapshots

open DevRepro.Python

/-! ## The directory -/

/-- A place of the file system. -/
abbrev Place := Str

inductive Node where
  | absent
  | directory
  | file (bytes : ByteArray)

/-- A history directory. -/
@[ext] structure Directory where
  /-- Where `directory / name` leads. -/
  locate : Str → Place
  content : Place → Node
  /-- The names in the directory, as `glob` lists them. -/
  names : List Str

/-- Whether a name can be passed to the operating system: no NUL, and no
surrogate but those that stand for undecodable bytes. -/
def isOsName (name : Str) : Bool :=
  name.all fun c => c != 0 && (!isSurrogate c || (0xDC80 ≤ c.val && c.val ≤ 0xDCFF))

/-- `Path.name`: the last part of a path. -/
def pathName (path : Str) : Str :=
  ((path.splitOn (codePoint '/')).filter fun part => part != [] && part != lit ".").getLastD []

namespace Directory

/-- What `directory / name` is. -/
def node (d : Directory) (name : Str) : Node :=
  if isOsName name then d.content (d.locate name) else .absent

/-- The bytes of `directory / name`, when `is_file()` holds of it. -/
def file? (d : Directory) (name : Str) : Option ByteArray :=
  match d.node name with
  | .file bytes => some bytes
  | _ => none

/-- The directory with new bytes in a file, which is created when absent. -/
def write (d : Directory) (name : Str) (bytes : ByteArray) : Directory where
  locate := d.locate
  content := Function.update d.content (d.locate name) (.file bytes)
  names := if name ∈ d.names then d.names else d.names ++ [name]

end Directory

/-! ## Digests -/

/-- A character of a hexadecimal digest. -/
def isHexDigit (c : CodePoint) : Bool :=
  (0x30 ≤ c.val && c.val ≤ 0x39) || (0x61 ≤ c.val && c.val ≤ 0x66)

/-- `hashlib.sha256`. -/
structure Sha256 where
  /-- `sha256(bytes).hexdigest()`. -/
  hexdigest : ByteArray → Str
  hexdigest_hex : ∀ bytes, ∀ c ∈ hexdigest bytes, isHexDigit c = true

/-! ## Links -/

def chainFilename : Str := "chain.jsonl"

/-- `GENESIS`: the `prev` value of the first entry. -/
def genesis : Str := "genesis"

def schema : Str := "devrepro-chain-v1"

/-- One link: which snapshot, its digest, and what came before it. -/
structure ChainEntry where
  seq : Int
  recordedAt : Str
  filename : Str
  digest : Str
  prev : Str
  digestOfEntry : Str
  deriving DecidableEq

def ChainEntry.asDict (e : ChainEntry) : Json :=
  .obj [("schema", .str schema), ("seq", .int e.seq), ("recorded_at", .str e.recordedAt),
    ("filename", .str e.filename), ("digest", .str e.digest), ("prev", .str e.prev),
    ("entry_digest", .str e.digestOfEntry)]

/-- The record whose text `entry_digest` hashes. -/
def entryPayload (seq : Int) (recordedAt filename digest prev : Str) : Json :=
  .obj [("digest", .str digest), ("filename", .str filename), ("prev", .str prev),
    ("recorded_at", .str recordedAt), ("schema", .str schema), ("seq", .int seq)]

/-- Why the chain file cannot be read or appended to. -/
inductive ChainError where
  | cannotReadSnapshot
  | malformed (line : Nat) (cause : Exc)
  | cannotAppend
  deriving DecidableEq

/-- What a call raises: a `ChainError`, or an exception that no handler of
the module catches. -/
inductive Failure where
  | chainError (reason : ChainError)
  | raised (exc : Exc)
  deriving DecidableEq

def unicodeEncodeError : Exc := ⟨.unicodeEncodeError, "surrogates not allowed"⟩
def unicodeDecodeError : Exc := ⟨.unicodeDecodeError, "invalid start byte"⟩

/-- An exception that passes through. -/
def reraise {α : Type} (x : Except Exc α) : Except Failure α := x.mapError .raised

section Functions

variable (H : Sha256) (rt : Runtime)

/-- `entry_digest`: the digest of a link's contents. -/
def entryDigest (seq : Int) (recordedAt filename digest prev : Str) : Except Exc Str := do
  let payload ← dumps rt .compact (entryPayload seq recordedAt filename digest prev)
  match encodeUtf8 payload with
  | some bytes => .ok (H.hexdigest bytes)
  | none => .error unicodeEncodeError

/-! ## Reading -/

/-- One line of the chain file. -/
def readRecord (line : Str) : Except Exc ChainEntry := do
  let record ← loads rt.limits line
  let seq ← (← record.getItem "seq").toInt rt
  let recordedAt ← (← record.getItem "recorded_at").toStr rt
  let filename ← (← record.getItem "filename").toStr rt
  let digest ← (← record.getItem "digest").toStr rt
  let prev ← (← record.getItem "prev").toStr rt
  let digestOfEntry ← (← record.getItem "entry_digest").toStr rt
  return ⟨seq, recordedAt, filename, digest, prev, digestOfEntry⟩

/-- `except (json.JSONDecodeError, KeyError, TypeError, ValueError)`. -/
def isMalformed (e : Exc) : Bool :=
  e.type.isValueError || e.type == .keyError || e.type == .typeError

/-- The lines of the chain file from a number on. -/
def readLines : Nat → List Str → Except Failure (List ChainEntry)
  | _, [] => .ok []
  | number, line :: rest =>
    if strip line = [] then readLines (number + 1) rest
    else
      match readRecord rt line with
      | .error e => .error (if isMalformed e then .chainError (.malformed number e) else .raised e)
      | .ok entry => do
        let entries ← readLines (number + 1) rest
        return entry :: entries

/-- `read_chain`: every link recorded in a history directory, in file order. -/
def readChain (d : Directory) : Except Failure (List ChainEntry) :=
  match d.node chainFilename with
  | .file bytes =>
    match readText bytes with
    | some text => readLines rt 1 (splitlines text)
    | none => .error (.raised unicodeDecodeError)
  | _ => .ok []

/-- `head_digest`. -/
def headDigest (entries : List ChainEntry) : Str :=
  entries.foldl (fun _ entry => entry.digestOfEntry) genesis

/-! ## Appending -/

/-- The link for a snapshot behind the links that are there. -/
def nextEntry (existing : List ChainEntry) (data : ByteArray) (filename recordedAt : Str) :
    Except Exc ChainEntry := do
  let prev := headDigest existing
  let seq : Int := existing.length + 1
  let digest := H.hexdigest data
  let digestOfEntry ← entryDigest H rt seq recordedAt filename digest prev
  return ⟨seq, recordedAt, filename, digest, prev, digestOfEntry⟩

/-- The first half of `append_entry`: the snapshot and the chain are read, and
the new link is computed. -/
def prepareEntry (d : Directory) (snapshotPath recordedAt : Str) : Except Failure ChainEntry :=
  if isOsName snapshotPath then
    match d.file? snapshotPath with
    | none => .error (.chainError .cannotReadSnapshot)
    | some data => do
      let existing ← readChain rt d
      reraise (nextEntry H rt existing data (pathName snapshotPath) recordedAt)
  else .error (.raised unicodeEncodeError)

/-- The line of a link. -/
def entryLine (entry : ChainEntry) : Except Exc Str := do
  let line ← dumps rt .compact entry.asDict
  return line ++ [codePoint '\n']

/-- The second half of `append_entry`: the line is written at the end of the
chain file. -/
def writeEntry (d : Directory) (entry : ChainEntry) : Except Failure Directory := do
  let line ← reraise (entryLine rt entry)
  match d.node chainFilename, encodeUtf8 line with
  | .directory, _ => .error (.chainError .cannotAppend)
  | _, none => .error (.raised unicodeEncodeError)
  | .absent, some bytes => .ok (d.write chainFilename bytes)
  | .file old, some bytes => .ok (d.write chainFilename (old ++ bytes))

/-- `append_entry`: the new link, and the directory behind the call. -/
def appendEntry (d : Directory) (snapshotPath recordedAt : Str) :
    Except Failure (ChainEntry × Directory) := do
  let entry ← prepareEntry H rt d snapshotPath recordedAt
  let d' ← writeEntry rt d entry
  return (entry, d')

/-! ## Verifying -/

inductive ProblemKind where
  | sequenceGap
  | brokenLink
  | entryAltered
  | missingSnapshot
  | snapshotAltered
  | unchainedSnapshot
  deriving DecidableEq

def ProblemKind.text : ProblemKind → Str
  | .sequenceGap => "sequence-gap"
  | .brokenLink => "broken-link"
  | .entryAltered => "entry-altered"
  | .missingSnapshot => "missing-snapshot"
  | .snapshotAltered => "snapshot-altered"
  | .unchainedSnapshot => "unchained-snapshot"

/-- Something wrong with the chain, named precisely enough to act on. -/
structure ChainProblem where
  kind : ProblemKind
  seq : Option Int
  detail : Str
  deriving DecidableEq

/-- The verdict, the head to anchor, and every problem found. -/
structure ChainVerification where
  ok : Bool
  checked : Nat
  head : Str
  problems : List ChainProblem
  deriving DecidableEq

/-- `entry.seq != index`. -/
def checkSequence (index : Nat) (entry : ChainEntry) : Except Exc (List ChainProblem) :=
  if entry.seq = index then .ok []
  else do
    let claimed ← (Json.int entry.seq).toStr rt
    return [⟨.sequenceGap, some entry.seq,
      lit "entry " ++ natStr index ++ lit " in the file claims sequence " ++ claimed ++
        lit "; a record was removed or reordered"⟩]

/-- `entry.prev != expected_prev`. -/
def checkLink (expectedPrev : Str) (entry : ChainEntry) : List ChainProblem :=
  if entry.prev = expectedPrev then []
  else
    [⟨.brokenLink, some entry.seq,
      "this entry does not follow the one before it; the history was edited at or before this point"⟩]

/-- `recomputed != entry.digest_of_entry`. -/
def checkDigest (entry : ChainEntry) : Except Exc (List ChainProblem) := do
  let recomputed ←
    entryDigest H rt entry.seq entry.recordedAt entry.filename entry.digest entry.prev
  return if recomputed = entry.digestOfEntry then []
    else
      [⟨.entryAltered, some entry.seq,
        "the recorded entry digest does not match the entry's own contents"⟩]

/-- The snapshot file of an entry. -/
def checkFile (d : Directory) (entry : ChainEntry) : List ChainProblem :=
  match d.file? entry.filename with
  | none => [⟨.missingSnapshot, some entry.seq, entry.filename ++ lit " is gone"⟩]
  | some data =>
    if H.hexdigest data = entry.digest then []
    else
      [⟨.snapshotAltered, some entry.seq,
        entry.filename ++ lit " does not match the digest recorded for it"⟩]

/-- The problems of the entries from an index on. -/
def checkEntries (d : Directory) : Nat → Str → List ChainEntry → Except Exc (List ChainProblem)
  | _, _, [] => .ok []
  | index, expectedPrev, entry :: rest => do
    let sequence ← checkSequence rt index entry
    let digest ← checkDigest H rt entry
    let more ← checkEntries d (index + 1) entry.digestOfEntry rest
    return sequence ++ checkLink expectedPrev entry ++ digest ++ checkFile H d entry ++ more

/-- `sorted(directory.glob("*" + snapshot_suffix))`, for a suffix without
wildcards. -/
def globSuffix (d : Directory) (snapshotSuffix : Str) : List Str :=
  (d.names.filter fun name => snapshotSuffix.isSuffixOf name).insertionSort fun s t => strLe s t

/-- The snapshot files that the chain does not mention. -/
def checkUnchained (d : Directory) (snapshotSuffix : Str) (entries : List ChainEntry) :
    List ChainProblem :=
  ((globSuffix d snapshotSuffix).filter fun name =>
    !(name == chainFilename || entries.any fun entry => entry.filename == name)).map fun name =>
      ⟨.unchainedSnapshot, none, name ++ lit " is in the history directory but not in the chain"⟩

/-- `verify_chain`: every link, every file digest, and what the chain does not
mention. -/
def verifyChain (d : Directory) (snapshotSuffix : Str) : Except Failure ChainVerification := do
  let entries ← readChain rt d
  let problems ← reraise (checkEntries H rt d 1 genesis entries)
  let unchained := checkUnchained d snapshotSuffix entries
  return ⟨(problems ++ unchained).isEmpty, entries.length, headDigest entries,
    problems ++ unchained⟩

end Functions

end DevRepro.Snapshots
