/-
The warm store of the terminal client.  A session works in a private staging
generation; a commit seals it under a new name and selects it by replacing a small
manifest.  Every step on the file system is durable once it is complete, and the
process may die between any two of them.  A session ends with its commit: the caller hands
the session over to the commit and does not use it afterwards.
-/
import Mathlib.Data.List.Lex
import Mathlib.Data.String.Basic
import AmmSearch.DurableProcess
import AmmSearch.FiniteMap
import AmmSearch.Transitions

open FiniteMap

namespace AmmSearch

open Durable (Process Outcome)
open Durable.Process (step update peek fail attempt forEach)

/-- A directory entry; `special` is a link or a device. -/
inductive FileEntry
  | file (bytes : List UInt8)
  | directory
  | special
deriving DecidableEq

abbrev FilePath := List String

/-- The entries below a directory, by their paths in it. -/
abbrev FileTree := Map FilePath FileEntry

/-- Hash-certified canonical point represented by one committed warm generation. -/
structure WarmCheckpoint where
  chainId : UInt64
  blockNumber : UInt64
  blockHash : BitVec 256
deriving DecidableEq

structure WarmManifest where
  version : UInt32
  chainId : UInt64
  generation : String
  checkpoint : WarmCheckpoint
deriving DecidableEq

/-- The text of a manifest, which is read back as it was written. -/
structure ManifestFormat where
  encode : WarmManifest → List UInt8
  decode : List UInt8 → Option WarmManifest
  decode_encode : ∀ manifest, decode (encode manifest) = some manifest

/-- The files of a chain namespace, the directories of its generations, and the
counter of the process.  `selected` records every replacement of the manifest: the
checkpoint, and the files that its session had staged. -/
structure WarmHost where
  files : Map String (List UInt8)
  generations : Map String FileTree
  selected : List (WarmCheckpoint × FileTree)
  sequence : ℕ

inductive WarmStoreError
  | notFound (name : String)
  | alreadyExists (name : String)
  | directoryNotEmpty (name : String)
  | specialFile
  | noStagingName
  | chainMismatch (expected got : UInt64)
  | cacheDisabled
  | noState
  | noArchive
deriving DecidableEq

/-- A step of the store. -/
abbrev WarmProcess := Process WarmHost WarmStoreError

/-- One private mutable cache generation. -/
structure WarmSession where
  chainId : UInt64
  cacheBase : String
  resumeCheckpoint : Option WarmCheckpoint
  staging : Option String
deriving DecidableEq

def manifestVersion : UInt32 := 1

def manifestFile : String := "amm_manifest.json"

def registrationArchive : String := "amm_registrations.bin"

def stateFile : String := "evm_state.bin"

def chainDirName (chainId : UInt64) : String :=
  "chain_" ++ chainId.toNat.repr

/-- What makes a staging generation unique. -/
def uniqueText (processId nanos sequence : ℕ) : String :=
  processId.repr ++ "-" ++ nanos.repr ++ "-" ++ sequence.repr

def stagingName (unique : String) : String :=
  ".staging-" ++ unique

/-- The first eight digits of a hash in hexadecimal. -/
def hashPrefix (hash : BitVec 256) : String :=
  String.ofList ((List.range 8).map fun index =>
    Nat.digitChar (hash.toNat / 16 ^ (63 - index) % 16))

def generationName (checkpoint : WarmCheckpoint) (unique : String) : String :=
  "gen-" ++ checkpoint.blockNumber.toNat.repr ++ "-" ++ hashPrefix checkpoint.blockHash ++ "-" ++
    unique

def temporaryName (path : String) (sequence : ℕ) : String :=
  "." ++ path ++ ".tmp-" ++ sequence.repr

/-- A text without the copies of a pattern at its start. -/
def trimStart (pattern : List Char) : ℕ → List Char → List Char
  | 0, text => text
  | fuel + 1, text =>
      if pattern.isPrefixOf text then trimStart pattern fuel (text.drop pattern.length) else text

def trimStartMatches (text pattern : String) : String :=
  String.ofList (trimStart pattern.toList text.toList.length text.toList)

/-- The components of a relative path that does not start with a dot. -/
def pathComponents (name : String) : List (List Char) :=
  (name.toList.splitOn '/').filter fun component => component ≠ [] ∧ component ≠ ['.']

def safeGenerationName (name : String) : Bool :=
  "gen-".toList.isPrefixOf name.toList &&
    (pathComponents name).all (fun component => component ≠ ['.', '.']) &&
    (pathComponents name).length = 1

/-- The entry is a file. -/
def FileTree.isFile (tree : FileTree) (path : FilePath) : Bool :=
  match tree.lookup path with
  | some (.file _) => true
  | _ => false

namespace WarmHost

/-- Create a directory among the generations. -/
def createDir (name : String) : WarmProcess Unit :=
  step fun host =>
    if name ∈ host.generations then .error (.alreadyExists name)
    else .ok { host with generations := host.generations.insert name ∅ }

/-- Write an entry at its path below a generation. -/
def put (name : String) (path : FilePath) (entry : FileEntry) : WarmProcess Unit :=
  update fun host =>
    { host with
      generations := host.generations.insert name
        (((host.generations.lookup name).getD ∅).insert path entry) }

/-- Remove an entry below a generation. -/
def unlink (name : String) (path : FilePath) : WarmProcess Unit :=
  step fun host =>
    match host.generations.lookup name with
    | none => .error (.notFound name)
    | some tree =>
        .ok { host with generations := host.generations.insert name (tree.erase path) }

/-- Write a file below a generation, from its first byte to its last. -/
def writeFile (name : String) (path : FilePath) (bytes : List UInt8) : WarmProcess Unit :=
  forEach (fun written => put name path (.file written)) bytes.inits

def removeDir (name : String) : WarmProcess Unit :=
  update fun host => { host with generations := host.generations.erase name }

/-- Remove the entries below a path, the deepest ones first. -/
def removeBelow (name : String) (path : FilePath) : WarmProcess Unit := do
  let tree ← peek fun host => (host.generations.lookup name).getD ∅
  forEach (unlink name) ((ascending tree.keys).filter path.isPrefixOf).reverse

def removeDirAll (name : String) : WarmProcess Unit := do
  let found ← peek fun host => host.generations.lookup name
  match found with
  | none => fail (.notFound name)
  | some _ => do
      removeBelow name []
      removeDir name

/-- Move a directory onto a name that is free or an empty directory. -/
def renameDir (source target : String) : WarmProcess Unit :=
  step fun host =>
    match host.generations.lookup source with
    | none => .error (.notFound source)
    | some tree =>
        if (host.generations.lookup target).getD ∅ = ∅ then
          .ok { host with generations := (host.generations.erase source).insert target tree }
        else .error (.directoryNotEmpty target)

/-- A sync leaves what it makes durable as it is. -/
def sync : WarmProcess Unit :=
  update fun host => host

/-- Take the next number of the process. -/
def fetchSequence : WarmProcess ℕ := do
  let sequence ← peek WarmHost.sequence
  update fun host => { host with sequence := host.sequence + 1 }
  pure sequence

/-- A file that must not exist yet. -/
def createNew (path : String) : WarmProcess Unit :=
  step fun host =>
    if path ∈ host.files then .error (.alreadyExists path)
    else .ok { host with files := host.files.insert path [] }

def write (path : String) (bytes : List UInt8) : WarmProcess Unit :=
  update fun host => { host with files := host.files.insert path bytes }

/-- Move a file onto the manifest, which selects what it describes. -/
def renameToManifest (selects : WarmCheckpoint × FileTree) (source : String) :
    WarmProcess Unit :=
  step fun host =>
    match host.files.lookup source with
    | none => .error (.notFound source)
    | some bytes =>
        .ok { host with
          files := (host.files.erase source).insert manifestFile bytes
          selected := host.selected ++ [selects] }

end WarmHost

open WarmHost

/-- The loop of `unique_staging_path`.  Every turn takes a new number, so it ends
after at most as many turns as there are directories. -/
def uniqueStagingPath (processId : ℕ) (clock : ℕ → ℕ) : ℕ → WarmProcess String
  | 0 => fail .noStagingName
  | fuel + 1 => do
      let sequence ← fetchSequence
      let candidate := stagingName (uniqueText processId (clock sequence) sequence)
      let found ← peek fun host => decide (candidate ∈ host.generations)
      if found then uniqueStagingPath processId clock fuel else pure candidate

def copyLegacyRegistrations (chainId : UInt64) (staging : String) : WarmProcess Unit := do
  let source ← peek fun host => host.files.lookup registrationArchive
  match source with
  | none => pure ()
  | some bytes => do
      put staging [chainDirName chainId] .directory
      writeFile staging [chainDirName chainId, registrationArchive] bytes

/-- Copy one entry of a tree. -/
def copyEntry (tree : FileTree) (target : String) (path : FilePath) : WarmProcess Unit :=
  match tree.lookup path with
  | none => pure ()
  | some .directory => put target path .directory
  | some (.file bytes) => writeFile target path bytes
  | some .special => fail .specialFile

/-- Copy a generation, each directory before its entries. -/
def copyTree (source target : String) : WarmProcess Unit := do
  let found ← peek fun host => host.generations.lookup source
  match found with
  | none => fail (.notFound source)
  | some tree => forEach (copyEntry tree target) (ascending tree.keys)

/-- Sync one entry of a tree. -/
def syncEntry (tree : FileTree) (path : FilePath) : WarmProcess Unit :=
  match tree.lookup path with
  | some .special => fail .specialFile
  | _ => sync

def syncTree (name : String) : WarmProcess Unit := do
  let found ← peek fun host => host.generations.lookup name
  match found with
  | none => fail (.notFound name)
  | some tree => forEach (syncEntry tree) (ascending tree.keys)

def atomicWriteSynced (selects : WarmCheckpoint × FileTree) (bytes : List UInt8) :
    WarmProcess Unit := do
  let sequence ← fetchSequence
  let temporary := temporaryName manifestFile sequence
  createNew temporary
  forEach (write temporary) bytes.inits
  sync
  renameToManifest selects temporary
  sync

/-- Remove one generation unless it is the active one; a failure is ignored. -/
def pruneGeneration (active name : String) : WarmProcess Unit :=
  if name = active then pure ()
  else do
    let _ ← attempt (removeDirAll name)
    pure ()

def pruneGenerations (active : String) : WarmProcess Unit := do
  let names ← peek fun host => ascending host.generations.keys
  forEach (pruneGeneration active) names

namespace WarmStore

variable (format : ManifestFormat) (chainId : UInt64)

/-- The generation that the manifest selects, and its checkpoint. -/
def loadCommitted (host : WarmHost) : Option (String × WarmCheckpoint) :=
  (host.files.lookup manifestFile).bind fun bytes =>
    (format.decode bytes).bind fun manifest =>
      if manifest.version ≠ manifestVersion ∨ manifest.chainId ≠ chainId ∨
          manifest.checkpoint.chainId ≠ chainId ∨ ¬ safeGenerationName manifest.generation then
        none
      else
        let tree := (host.generations.lookup manifest.generation).getD ∅
        if tree.isFile [chainDirName chainId, stateFile] ∧
            tree.isFile [chainDirName chainId, registrationArchive] then
          some (manifest.generation, manifest.checkpoint)
        else none

/-- The checkpoint of a new session, whose staging generation is seeded from the
committed one. -/
def seed (staging : String) :
    Option (String × WarmCheckpoint) → WarmProcess (Option WarmCheckpoint)
  | none => do
      copyLegacyRegistrations chainId staging
      pure none
  | some (source, checkpoint) => do
      let copied ← attempt (copyTree source staging)
      match copied with
      | .ok _ => pure (some checkpoint)
      | .error _ => do
          removeDirAll staging
          createDir staging
          copyLegacyRegistrations chainId staging
          pure none

/-- Start a mutable generation seeded from the last committed manifest, as `begin`
does for a persistent cache.  `clock` is the time at each number that is taken. -/
def begin (processId : ℕ) (clock : ℕ → ℕ) : WarmProcess WarmSession := do
  let committed ← peek (loadCommitted format chainId)
  let fuel ← peek fun host => host.generations.keys.card + 1
  let staging ← uniqueStagingPath processId clock fuel
  createDir staging
  let resumeCheckpoint ← seed chainId staging committed
  pure ⟨chainId, staging, resumeCheckpoint, some staging⟩

end WarmStore

namespace WarmSession

/-- The name of an entry of the chain directory that is discarded. -/
def discarded (chainDir : String) : FilePath → Option String
  | [parent, name] =>
      if parent = chainDir ∧ name ≠ registrationArchive then some name else none
  | _ => none

/-- Stop trusting state whose checkpoint failed canonical verification. -/
def discardUnverifiedCache (session : WarmSession) : WarmProcess WarmSession := do
  let tree ← peek fun host => (host.generations.lookup session.cacheBase).getD ∅
  let chainDir := chainDirName session.chainId
  if tree.lookup [chainDir] = some .directory then
    forEach (fun name => removeBelow session.cacheBase [chainDir, name])
      ((ascending tree.keys).filterMap (discarded chainDir))
  pure { session with resumeCheckpoint := none }

/-- Select the staged generation: seal it, then replace the manifest. -/
def commit (format : ManifestFormat) (session : WarmSession) (checkpoint : WarmCheckpoint) :
    WarmProcess WarmSession :=
  if checkpoint.chainId ≠ session.chainId then
    fail (.chainMismatch session.chainId checkpoint.chainId)
  else
    match session.staging with
    | none => fail .cacheDisabled
    | some staging => do
        let tree ← peek fun host => (host.generations.lookup session.cacheBase).getD ∅
        if tree.isFile [chainDirName session.chainId, stateFile] then
          if tree.isFile [chainDirName session.chainId, registrationArchive] then do
            syncTree staging
            let generation := generationName checkpoint (trimStartMatches staging ".staging-")
            renameDir staging generation
            sync
            atomicWriteSynced (checkpoint, tree)
              (format.encode ⟨manifestVersion, session.chainId, generation, checkpoint⟩)
            pruneGenerations generation
            pure ⟨session.chainId, generation, some checkpoint, none⟩
          else fail .noArchive
        else fail .noState

/-- A session that ends without a commit removes what it staged. -/
def drop (session : WarmSession) : WarmProcess Unit :=
  match session.staging with
  | none => pure ()
  | some staging => do
      let _ ← attempt (removeDirAll staging)
      pure ()

end WarmSession

/-- The host, the process that runs, and its session. -/
structure WarmWorld where
  host : WarmHost
  processId : Option ℕ
  session : Option WarmSession

/-- What the single writer does.  With a number, it dies after that many steps. -/
inductive WarmAction
  | start (processId : ℕ)
  | begin (clock : ℕ → ℕ) (death : Option ℕ)
  | write (path : FilePath) (entry : FileEntry)
  | remove (path : FilePath)
  | discard (death : Option ℕ)
  | commit (checkpoint : WarmCheckpoint) (death : Option ℕ)
  | drop (death : Option ℕ)

namespace WarmWorld

/-- The world on what is on disk, before the first process. -/
def initial (files : Map String (List UInt8)) (generations : Map String FileTree) : WarmWorld :=
  ⟨⟨files, generations, [], 0⟩, none, none⟩

/-- A process ran to its end, or died on the way; `next` is the session that its
result leaves. -/
def after {α : Type} (world : WarmWorld) (process : WarmProcess α) (death : Option ℕ)
    (next : Except WarmStoreError α → Option WarmSession) : WarmWorld :=
  let outcome := process world.host
  match death with
  | some steps => ⟨outcome.crashed world.host steps, none, none⟩
  | none => ⟨outcome.last, world.processId, next outcome.result⟩

/-- A session that was committed is over; one that was not stays. -/
def afterCommit (session : WarmSession) :
    Except WarmStoreError WarmSession → Option WarmSession
  | .ok _ => none
  | .error _ => some session

def afterDiscard (session : WarmSession) :
    Except WarmStoreError WarmSession → Option WarmSession
  | .ok discarded => some discarded
  | .error _ => some session

def step (format : ManifestFormat) (chainId : UInt64) (world : WarmWorld) :
    WarmAction → Option WarmWorld
  | .start processId => some ⟨{ world.host with sequence := 0 }, some processId, none⟩
  | .begin clock death =>
      match world.processId, world.session with
      | some processId, none =>
          some (world.after (WarmStore.begin format chainId processId clock) death
            Except.toOption)
      | _, _ => none
  | .write path entry =>
      world.session.map fun session =>
        world.after (put session.cacheBase path entry) none fun _ => some session
  | .remove path =>
      world.session.map fun session =>
        world.after (unlink session.cacheBase path) none fun _ => some session
  | .discard death =>
      world.session.map fun session =>
        world.after session.discardUnverifiedCache death (afterDiscard session)
  | .commit checkpoint death =>
      world.session.map fun session =>
        world.after (session.commit format checkpoint) death (afterCommit session)
  | .drop death =>
      world.session.map fun session => world.after session.drop death fun _ => none

end WarmWorld

end AmmSearch
