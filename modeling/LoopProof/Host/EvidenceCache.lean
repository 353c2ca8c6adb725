import LoopProof.Host.Rpc
import LoopProof.Lib.Machine

/-!
# The cache directory

Several calls work on one directory of cached evidence. A worker looks for the file of exactly its
request, reads the other files of its block one after another, or asks the node; what it found is
written beside its place and renamed. Any of its steps may come between those of others, and a
process may stop at any of them.
-/

namespace LoopProof.Host

/-- The name of a file of the directory. -/
inductive FileName where
  /-- Evidence of a block, named by the digest of its targets. -/
  | evidence (number : U64) (digest : B256)
  /-- A file that is not published yet: a dot, the name it will have, a process and a count. -/
  | temporary (number : U64) (digest : B256) (process counter : ℕ)
  deriving DecidableEq, Repr

/-- The block that a file is indexed under. -/
def FileName.block : FileName → Option U64
  | .evidence number _ => some number
  -- What precedes the first hyphen begins with a dot, and reads as no number.
  | .temporary _ _ _ _ => none

/-- What a file holds, if it can be decoded. -/
abbrev FileContent := Option CachedBlockEvidence

/-- The files of the directory. -/
abbrev Directory := List (FileName × FileContent)

namespace Directory

variable (directory : Directory)

/-- The content of a file. -/
def read (name : FileName) : Option FileContent :=
  (directory.find? (·.1 = name)).map Prod.snd

/-- The directory without a file. -/
def remove (name : FileName) : Directory := directory.filter (·.1 ≠ name)

/-- The directory with a file. -/
def write (name : FileName) (content : FileContent) : Directory :=
  (name, content) :: directory.remove name

/-- A file takes the place of another. -/
def rename (source target : FileName) : Directory :=
  match directory.read source with
  | none => directory
  | some content => (directory.remove source).write target content

end Directory

/-- What is asked for one block. -/
structure Request where
  number : U64
  receiptTargets : List U64
  transactionTargets : List U64
  deriving DecidableEq, Repr

namespace Request

variable (request : Request)

/-- The receipts asked for, each once and in order. -/
def receipts : List U64 := canonicalTargets request.receiptTargets

/-- The transactions asked for, each once and in order. -/
def transactions : List U64 := canonicalTargets request.transactionTargets

end Request

/-- How far the work on a request is. -/
inductive Task where
  | waiting (request : Request) (paths : List FileName)
  /-- Some of the block's files were read, the others are still to be read. -/
  | collecting (request : Request) (paths : List FileName) (seen : List CachedBlockEvidence)
  | writing (request : Request) (cached : CachedBlockEvidence)
  | filling (request : Request) (cached : CachedBlockEvidence) (temporary : FileName)
  | publishing (request : Request) (cached : CachedBlockEvidence) (temporary : FileName)
  | published (request : Request) (cached : CachedBlockEvidence)
  | ended

/-- The files, the tasks that are under way, and what the tasks have returned. -/
structure CacheState where
  directory : Directory
  tasks : List Task
  returned : List (Request × EvidenceBlock × LogPositionMap)

/-- A call of the host, or the next step of a task. -/
inductive CacheEvent where
  /-- A call lists the directory once, in some order. -/
  | call (targets : List (U64 × List U64 × List U64)) (listing : List FileName)
  | load (task : ℕ)
  | read (task : ℕ)
  | merge (task : ℕ)
  | fetch (task time : ℕ)
  | create (task process counter : ℕ)
  | fill (task : ℕ)
  | publish (task : ℕ)
  | finish (task : ℕ)
  /-- An error: the unpublished file is removed. -/
  | fail (task : ℕ)
  /-- The process stops: its unpublished file stays. -/
  | stop (task : ℕ)

namespace CacheState

variable (state : CacheState)

/-- A task goes on. -/
def proceed (i : ℕ) (task : Task) : CacheState := { state with tasks := state.tasks.set i task }

/-- A task returns its evidence. -/
def give (i : ℕ) (request : Request) (cached : CachedBlockEvidence) : CacheState :=
  { state.proceed i .ended with
    returned := (request, cached.evidence, cached.logPositionMap) :: state.returned }

end CacheState

/-- The file that a task has not published yet. -/
def Task.temporary? : Task → Option FileName
  | .filling _ _ temporary => some temporary
  | .publishing _ _ temporary => some temporary
  | _ => none

section Step

variable (lib : HostLib) (node : ℕ → Node lib.Body) (digest : U64 → List U64 → List U64 → B256)

namespace Request

variable (request : Request)

/-- The place of exactly this evidence. -/
def path : FileName :=
  .evidence request.number (digest request.number request.receipts request.transactions)

/-- The file that a process stages its evidence in. -/
def temporary (process counter : ℕ) : FileName :=
  .temporary request.number (digest request.number request.receipts request.transactions) process
    counter

/-- The evidence in a file, if it is what the request asks for. -/
def load (content : FileContent) : Option CachedBlockEvidence :=
  content.bind fun cached =>
    loadCachedBlockEvidence cached request.number request.receipts request.transactions

/-- The evidence of several files, if together they hold what the request asks for. -/
def merge (seen : List CachedBlockEvidence) : Option CachedBlockEvidence :=
  mergeCachedBlockEvidence lib request.number request.receipts request.transactions seen
    ⟨none, ∅, ∅, ∅⟩

/-- What is cached of a fetched block. -/
def cached (evidence : EvidenceBlock) (positions : LogPositionMap) : CachedBlockEvidence :=
  ⟨blockEvidenceCacheVersion, request.number, request.receipts, request.transactions, evidence,
    positions⟩

end Request

/-- The tasks of a call: each knows the files of its block that were there when the call began. -/
def callTasks (targets : List (U64 × List U64 × List U64)) (listing : List FileName) : List Task :=
  targets.map fun (number, receiptTargets, transactionTargets) =>
    .waiting ⟨number, receiptTargets, transactionTargets⟩
      (listing.filter (·.block = some number))

/-- One step of the directory and the tasks. -/
def cacheStep (state : CacheState) : CacheEvent → Option CacheState
  | .call targets listing =>
    if listing.Perm (state.directory.map Prod.fst) then
      some { state with tasks := state.tasks ++ callTasks targets listing }
    else none
  | .load i =>
    match state.tasks[i]? with
    | some (.waiting request paths) =>
      match (state.directory.read (request.path digest)).bind request.load with
      | some cached => some (state.give i request cached)
      | none => some (state.proceed i (.collecting request paths []))
    | _ => none
  | .read i =>
    match state.tasks[i]? with
    | some (.collecting request (path :: paths) seen) =>
      if (request.merge lib seen).isSome then none
      else
        some (state.proceed i
          (.collecting request paths (seen ++ (state.directory.read path).join.toList)))
    | _ => none
  | .merge i =>
    match state.tasks[i]? with
    | some (.collecting request _ seen) =>
      (request.merge lib seen).map fun cached => state.proceed i (.writing request cached)
    | _ => none
  | .fetch i time =>
    match state.tasks[i]? with
    | some (.collecting request [] seen) =>
      if (request.merge lib seen).isSome then none
      else
        match blockEvidence lib (node time) request.number request.receipts
            request.transactions with
        | .ok (evidence, positions) =>
          some (state.proceed i (.writing request (request.cached evidence positions)))
        | .error _ => some (state.proceed i .ended)
    | _ => none
  | .create i process counter =>
    match state.tasks[i]? with
    | some (.writing request cached) =>
      let temporary := request.temporary digest process counter
      some { state.proceed i (.filling request cached temporary) with
        directory := state.directory.write temporary none }
    | _ => none
  | .fill i =>
    match state.tasks[i]? with
    | some (.filling request cached temporary) =>
      some { state.proceed i (.publishing request cached temporary) with
        directory := state.directory.write temporary (some cached) }
    | _ => none
  | .publish i =>
    match state.tasks[i]? with
    | some (.publishing request cached temporary) =>
      some { state.proceed i (.published request cached) with
        directory := state.directory.rename temporary (request.path digest) }
    | _ => none
  | .finish i =>
    match state.tasks[i]? with
    | some (.published request cached) => some (state.give i request cached)
    | _ => none
  | .fail i =>
    state.tasks[i]?.map fun task =>
      { state.proceed i .ended with
        directory := task.temporary?.elim state.directory state.directory.remove }
  | .stop i => state.tasks[i]?.map fun _ => state.proceed i .ended

end Step

end LoopProof.Host
