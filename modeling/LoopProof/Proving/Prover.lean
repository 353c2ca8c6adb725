import LoopProof.Core.Foundation

/-!
# The production prover

One production run of the seller prover over its output files: it resumes the request of a
saved checkpoint, or creates a request on the network and saves its identifier afterwards.
Every file is published by a rename. The run can end with an error, or be killed, anywhere.
-/

namespace LoopProof.Proving

/-- What proving reads from outside: the digest function, and the proof the network delivers
for a request. -/
structure ProvingLib where
  sha256 : Bytes → B256
  proofOf : B256 → Bytes

/-- The measured execution of one seller input, as estimates and artifacts record it. -/
structure SellerReport where
  seller : Address
  sellerProgramVKey : B256
  periodStartBlock : U64
  periodEndBlock : U64
  publicValues : Bytes
  evidenceDigest : B256
  provenWashVolumeRaw : U128
  totalSellerVolumeRaw : U128
  proverGasUnits : U64
  deriving DecidableEq, Repr

/-- Whether proofs are made for production. -/
inductive SecurityMode where
  | development
  | production
  deriving DecidableEq, Repr

/-- The version of the artifacts of sellers. -/
def artifactVersion : ℕ := 3

/-- The saved identifier of a created request. -/
structure RequestCheckpoint where
  version : ℕ
  artifactVersion : ℕ
  kind : String
  securityMode : SecurityMode
  seller : Address
  sellerProgramVKey : B256
  requestId : B256
  expectedPublicValuesSha256 : B256
  deriving DecidableEq, Repr

/-- The published proof of one seller. -/
structure SellerArtifact where
  version : ℕ
  kind : String
  proofArchitecture : String
  evidenceFormat : String
  claimCount : ℕ
  securityMode : SecurityMode
  proverNetworkSubmitted : Bool
  report : SellerReport
  proofBytes : Bytes
  requestId : Option B256
  proved : Bool
  verified : Bool
  deriving DecidableEq, Repr

/-- The files of one output with their temporaries, and the log of the network requests ever
created for it. -/
structure Output where
  checkpoint : Option RequestCheckpoint
  checkpointTemp : Option RequestCheckpoint
  artifact : Option SellerArtifact
  artifactTemp : Option SellerArtifact
  requests : List B256
  deriving DecidableEq, Repr

/-- An output nothing was written to. -/
def Output.empty : Output := ⟨none, none, none, none, []⟩

section Files

variable (lib : ProvingLib)

/-- The checkpoint of a request. -/
def requestCheckpoint (report : SellerReport) (requestId : B256) : RequestCheckpoint where
  version := 2
  artifactVersion := artifactVersion
  kind := "antseed-wash-trading-seller-proof-request"
  securityMode := .production
  seller := report.seller
  sellerProgramVKey := report.sellerProgramVKey
  requestId := requestId
  expectedPublicValuesSha256 := lib.sha256 report.publicValues

/-- The request of a checkpoint that belongs to this execution. -/
def loadRequestCheckpoint (report : SellerReport) (checkpoint : RequestCheckpoint) :
    Except String B256 :=
  if checkpoint.version ≠ 2 ∨ checkpoint.artifactVersion ≠ artifactVersion ∨
      checkpoint.kind ≠ "antseed-wash-trading-seller-proof-request" ∨
      checkpoint.securityMode ≠ .production ∨ checkpoint.seller ≠ report.seller ∨
      checkpoint.sellerProgramVKey ≠ report.sellerProgramVKey ∨
      checkpoint.expectedPublicValuesSha256 ≠ lib.sha256 report.publicValues then
    .error "stale or invalid direct seller request checkpoint"
  else .ok checkpoint.requestId

/-- The artifact of a production proof. -/
def proofArtifact (report : SellerReport) (requestId : B256) : SellerArtifact where
  version := artifactVersion
  kind := "antseed-wash-trading-seller-proof"
  proofArchitecture := "direct-seller-v1"
  evidenceFormat := "single-bundle-v1"
  claimCount := 1
  securityMode := .production
  proverNetworkSubmitted := true
  report := report
  proofBytes := lib.proofOf requestId
  requestId := some requestId
  proved := true
  verified := true

/-- A checkpoint leads back to its own request, and only to it. -/
theorem loadRequestCheckpoint_eq_ok {lib : ProvingLib} {report : SellerReport}
    {checkpoint : RequestCheckpoint} {requestId : B256}
    (h : loadRequestCheckpoint lib report checkpoint = .ok requestId) :
    checkpoint.requestId = requestId := by
  unfold loadRequestCheckpoint at h
  split at h
  · cases h
  · exact Except.ok.inj h

/-- An execution resumes the checkpoint it saved. -/
theorem loadRequestCheckpoint_requestCheckpoint (report : SellerReport) (requestId : B256) :
    loadRequestCheckpoint lib report (requestCheckpoint lib report requestId) = .ok requestId := by
  simp [loadRequestCheckpoint, requestCheckpoint]

end Files

/-! ## Steps -/

/-- How far a prover came. -/
inductive ProverState where
  /-- Verified and executed; the checkpoint was not looked for yet. -/
  | ready
  /-- No checkpoint was found; a request is about to be created. -/
  | absent
  /-- The network accepted the request; nothing was saved yet. -/
  | accepted (requestId : B256)
  /-- The checkpoint is in its temporary file. -/
  | staged (requestId : B256)
  /-- The request is known and its proof awaited. -/
  | waiting (requestId : B256)
  /-- The proof was delivered and verified. -/
  | proved (requestId : B256)
  /-- The artifact is in its temporary file. -/
  | artifactStaged (requestId : B256)
  | done
  /-- Ended with an error, or killed. -/
  | failed
  deriving DecidableEq, Repr

/-- What a prover does, and what the network answers. -/
inductive ProverEvent where
  | testCheckpoint
  | request (requestId : B256)
  /-- The network created the request but the call failed. -/
  | requestLost (requestId : B256)
  | stageCheckpoint
  | publishCheckpoint
  | receiveProof
  | stageArtifact
  | publishArtifact
  /-- An error exit or a kill. -/
  | abort
  deriving DecidableEq, Repr

/-- The request a prover works on. -/
def ProverState.requestId? : ProverState → Option B256
  | .accepted id | .staged id | .waiting id | .proved id | .artifactStaged id => some id
  | .ready | .absent | .done | .failed => none

/-- Whether a prover found no checkpoint and has not published one. -/
def ProverState.unsaved : ProverState → Bool
  | .absent | .accepted _ | .staged _ => true
  | _ => false

/-- One step of a prover on its output. -/
def proverStep (lib : ProvingLib) (report : SellerReport) (out : Output) :
    ProverState → ProverEvent → Option (Output × ProverState)
  | .ready, .testCheckpoint =>
    match out.checkpoint with
    | some checkpoint =>
      match loadRequestCheckpoint lib report checkpoint with
      | .ok id => some (out, .waiting id)
      | .error _ => some (out, .failed)
    | none => some (out, .absent)
  | .absent, .request id => some ({ out with requests := out.requests ++ [id] }, .accepted id)
  | .absent, .requestLost id => some ({ out with requests := out.requests ++ [id] }, .failed)
  | .accepted id, .stageCheckpoint =>
    some ({ out with checkpointTemp := some (requestCheckpoint lib report id) }, .staged id)
  | .staged id, .publishCheckpoint =>
    match out.checkpointTemp with
    | some checkpoint =>
      some ({ out with checkpoint := some checkpoint, checkpointTemp := none }, .waiting id)
    | none => some (out, .failed)
  | .waiting id, .receiveProof => some (out, .proved id)
  | .proved id, .stageArtifact =>
    if lib.proofOf id = [] then some (out, .failed)
    else some ({ out with artifactTemp := some (proofArtifact lib report id) }, .artifactStaged id)
  | .artifactStaged _, .publishArtifact =>
    match out.artifactTemp with
    | some artifact =>
      some ({ out with artifact := some artifact, artifactTemp := none }, .done)
    | none => some (out, .failed)
  | .done, .abort | .failed, .abort => none
  | _, .abort => some (out, .failed)
  | _, _ => none

/-- Every file of an output belongs to the only request created for it. -/
structure OneRequest (lib : ProvingLib) (out : Output) : Prop where
  checkpoint : ∀ c, out.checkpoint = some c → out.requests = [c.requestId]
  checkpointTemp : ∀ c, out.checkpointTemp = some c → out.requests = [c.requestId]
  artifact : ∀ a, out.artifact = some a →
    ∃ id, out.requests = [id] ∧ a.requestId = some id ∧ a.proofBytes = lib.proofOf id
  artifactTemp : ∀ a, out.artifactTemp = some a →
    ∃ id, out.requests = [id] ∧ a.requestId = some id ∧ a.proofBytes = lib.proofOf id
  count : out.requests.length ≤ 1

/-- A prover works on the only request of its output. -/
def WorksOn (out : Output) (state : ProverState) : Prop :=
  ∀ id, state.requestId? = some id → out.requests = [id]

/-- What a step of a prover does to its output. -/
structure ProverMoves (lib : ProvingLib) (out out' : Output) (state state' : ProverState) :
    Prop where
  output : OneRequest lib out'
  worksOn : WorksOn out' state'
  /-- Requests are created by provers that found no checkpoint. -/
  requests : out'.requests = out.requests ∨
    state = .absent ∧ out.requests = [] ∧ ∃ id, out'.requests = [id]
  /-- A published checkpoint stays. -/
  checkpoint : out.checkpoint ≠ none → out'.checkpoint ≠ none
  /-- A prover finds no checkpoint only where there is none. -/
  absent : state' = .absent → state = .ready ∧ out' = out ∧ out.checkpoint = none
  started : state' ≠ .ready

/-- A request that exists stays the only one. -/
theorem ProverMoves.keeps {lib : ProvingLib} {out out' : Output} {state state' : ProverState}
    (h : ProverMoves lib out out' state state') {id : B256} (hid : out.requests = [id]) :
    out'.requests = [id] := by
  rcases h.requests with heq | ⟨_, hnone, _⟩
  · rw [heq, hid]
  · rw [hnone] at hid
    cases hid

/-- Nothing but the state of the prover changed, and it works on nothing new. -/
private theorem proverMoves_same {lib : ProvingLib} {out : Output} {state state' : ProverState}
    (hout : OneRequest lib out) (hworks : WorksOn out state') (habsent : state' ≠ .absent)
    (hstarted : state' ≠ .ready) : ProverMoves lib out out state state' :=
  ⟨hout, hworks, .inl rfl, id, fun h => absurd h habsent, hstarted⟩

private theorem worksOn_none {out : Output} {state : ProverState} (h : state.requestId? = none) :
    WorksOn out state := by
  intro id hid
  rw [h] at hid
  cases hid

/-- A created request is the only one of an output that had none. -/
private theorem oneRequest_created {lib : ProvingLib} {out : Output} (hout : OneRequest lib out)
    (hnone : out.requests = []) (id : B256) :
    OneRequest lib { out with requests := out.requests ++ [id] } := by
  obtain ⟨hcheckpoint, htemp, hartifact, hartifactTemp, _⟩ := hout
  rw [hnone] at hcheckpoint htemp hartifact hartifactTemp
  refine ⟨fun c hc => ?_, fun c hc => ?_, fun a ha => ?_, fun a ha => ?_, ?_⟩
  · cases hcheckpoint c hc
  · cases htemp c hc
  · obtain ⟨_, hempty, _⟩ := hartifact a ha
    cases hempty
  · obtain ⟨_, hempty, _⟩ := hartifactTemp a ha
    cases hempty
  · rw [hnone, List.nil_append, List.length_singleton]

/-- On an output with at most one request, a prover that creates requests only where there is
none keeps it so. -/
theorem proverStep_moves {lib : ProvingLib} {report : SellerReport} {out out' : Output}
    {state state' : ProverState} {event : ProverEvent} (hout : OneRequest lib out)
    (hworks : WorksOn out state) (habsent : state = .absent → out.requests = [])
    (h : proverStep lib report out state event = some (out', state')) :
    ProverMoves lib out out' state state' := by
  unfold proverStep at h
  split at h
  · -- the checkpoint is looked for
    split at h
    · rename_i checkpoint hcheckpoint
      split at h
      · rename_i id hload
        cases h
        refine proverMoves_same hout ?_ nofun nofun
        intro id' hid
        cases hid
        rw [hout.checkpoint checkpoint hcheckpoint, loadRequestCheckpoint_eq_ok hload]
      · cases h
        exact proverMoves_same hout (worksOn_none rfl) nofun nofun
    · rename_i hcheckpoint
      cases h
      exact ⟨hout, worksOn_none rfl, .inl rfl, id, fun _ => ⟨rfl, rfl, hcheckpoint⟩, nofun⟩
  · rename_i id
    cases h
    have hnone := habsent rfl
    refine ⟨oneRequest_created hout hnone id, ?_, .inr ⟨rfl, hnone, id, ?_⟩, fun hc => hc, nofun,
      nofun⟩
    · intro id' hid
      cases hid
      rw [hnone]
      rfl
    · rw [hnone]
      rfl
  · rename_i id
    cases h
    have hnone := habsent rfl
    refine ⟨oneRequest_created hout hnone id, worksOn_none rfl, .inr ⟨rfl, hnone, id, ?_⟩,
      fun hc => hc, nofun,
      nofun⟩
    rw [hnone]
    rfl
  · rename_i id
    cases h
    have hid := hworks id rfl
    refine ⟨⟨hout.checkpoint, ?_, hout.artifact, hout.artifactTemp, hout.count⟩, ?_, .inl rfl,
      fun hc => hc, nofun,
      nofun⟩
    · intro c hc
      cases hc
      exact hid
    · intro id' hid'
      cases hid'
      exact hid
  · rename_i id
    have hid := hworks id rfl
    split at h
    · rename_i checkpoint htemp
      cases h
      refine ⟨⟨?_, nofun, hout.artifact, hout.artifactTemp, hout.count⟩, ?_, .inl rfl, nofun,
        nofun, nofun⟩
      · intro c hc
        cases hc
        exact hout.checkpointTemp checkpoint htemp
      · intro id' hid'
        cases hid'
        exact hid
    · cases h
      exact proverMoves_same hout (worksOn_none rfl) nofun nofun
  · rename_i id
    cases h
    refine proverMoves_same hout ?_ nofun nofun
    intro id' hid'
    cases hid'
    exact hworks id rfl
  · rename_i id
    have hid := hworks id rfl
    split at h
    · cases h
      exact proverMoves_same hout (worksOn_none rfl) nofun nofun
    · cases h
      refine ⟨⟨hout.checkpoint, hout.checkpointTemp, hout.artifact, ?_, hout.count⟩, ?_, .inl rfl,
        fun hc => hc, nofun,
      nofun⟩
      · intro a ha
        cases ha
        exact ⟨id, hid, rfl, rfl⟩
      · intro id' hid'
        cases hid'
        exact hid
  · split at h
    · rename_i artifact htemp
      cases h
      refine ⟨⟨hout.checkpoint, hout.checkpointTemp, ?_, nofun, hout.count⟩, worksOn_none rfl,
        .inl rfl, fun hc => hc, nofun,
      nofun⟩
      intro a ha
      cases ha
      exact hout.artifactTemp artifact htemp
    · cases h
      exact proverMoves_same hout (worksOn_none rfl) nofun nofun
  · cases h
  · cases h
  · cases h
    exact proverMoves_same hout (worksOn_none rfl) nofun nofun
  · cases h

/-! ## Saving the request -/

/-- A step that ends neither with a lost answer nor between an accepted request and its
published checkpoint. -/
def Saves (state : ProverState) : ProverEvent → Prop
  | .requestLost _ => False
  | .abort => ∀ id, state ≠ .accepted id ∧ state ≠ .staged id
  | _ => True

/-- What a step of a prover says about the checkpoint. -/
structure ProverSaves (out out' : Output) (state state' : ProverState) (event : ProverEvent) :
    Prop where
  /-- A prover is without a published checkpoint from its test on. -/
  unsaved : state'.unsaved = true →
    state.unsaved = true ∨ event = .testCheckpoint ∧ state' = .absent
  /-- It stops being so by publishing one, or by ending without a request. -/
  saved : state.unsaved = true → state'.unsaved = false →
    out'.checkpoint ≠ none ∨ state = .absent ∧ out' = out
  staged : ∀ id, state' = .staged id → out'.checkpointTemp ≠ none
  /-- Nobody else touches the temporary checkpoint. -/
  temp : state.unsaved = false → out'.checkpointTemp = out.checkpointTemp

private theorem proverSaves_saved {out out' : Output} {state state' : ProverState}
    {event : ProverEvent} (hwas : state.unsaved = false) (his : state'.unsaved = false)
    (htemp : out'.checkpointTemp = out.checkpointTemp) :
    ProverSaves out out' state state' event := by
  refine ⟨fun h => ?_, fun h _ => ?_, fun id h => ?_, fun _ => htemp⟩
  · rw [his] at h
    cases h
  · rw [hwas] at h
    cases h
  · rw [h] at his
    cases his

theorem proverStep_saves {lib : ProvingLib} {report : SellerReport} {out out' : Output}
    {state state' : ProverState} {event : ProverEvent} (hsaves : Saves state event)
    (htemp : ∀ id, state = .staged id → out.checkpointTemp ≠ none)
    (h : proverStep lib report out state event = some (out', state')) :
    ProverSaves out out' state state' event := by
  unfold proverStep at h
  split at h
  · split at h
    · split at h
      · cases h
        exact proverSaves_saved rfl rfl rfl
      · cases h
        exact proverSaves_saved rfl rfl rfl
    · cases h
      exact ⟨fun _ => .inr ⟨rfl, rfl⟩, nofun, nofun, fun _ => rfl⟩
  · cases h
    exact ⟨fun _ => .inl rfl, nofun, nofun, nofun⟩
  · exact hsaves.elim
  · cases h
    exact ⟨fun _ => .inl rfl, nofun, nofun, nofun⟩
  · rename_i id
    split at h
    · cases h
      exact ⟨nofun, fun _ _ => .inl nofun, nofun, nofun⟩
    · rename_i hnone
      exact absurd hnone (htemp id rfl)
  · cases h
    exact proverSaves_saved rfl rfl rfl
  · split at h
    · cases h
      exact proverSaves_saved rfl rfl rfl
    · cases h
      exact proverSaves_saved rfl rfl rfl
  · split at h
    · cases h
      exact proverSaves_saved rfl rfl rfl
    · cases h
      exact proverSaves_saved rfl rfl rfl
  · cases h
  · cases h
  · cases h
    refine ⟨nofun, fun hunsaved _ => .inr ⟨?_, rfl⟩, nofun, fun _ => rfl⟩
    -- of the provers without a checkpoint, only one without a request may end
    cases state with
    | absent => rfl
    | accepted id => exact absurd rfl (hsaves id).1
    | staged id => exact absurd rfl (hsaves id).2
    | ready => cases hunsaved
    | waiting id => cases hunsaved
    | proved id => cases hunsaved
    | artifactStaged id => cases hunsaved
    | done => cases hunsaved
    | failed => cases hunsaved
  · cases h

/-! ## Resuming -/

/-- The checkpoints of an output are those that this execution saves. -/
structure OwnCheckpoints (lib : ProvingLib) (report : SellerReport) (out : Output) : Prop where
  checkpoint : ∀ c, out.checkpoint = some c → c = requestCheckpoint lib report c.requestId
  checkpointTemp : ∀ c, out.checkpointTemp = some c → c = requestCheckpoint lib report c.requestId

/-- Provers of one execution leave no checkpoint of another one. -/
theorem proverStep_ownCheckpoints {lib : ProvingLib} {report : SellerReport} {out out' : Output}
    {state state' : ProverState} {event : ProverEvent} (h : OwnCheckpoints lib report out)
    (hstep : proverStep lib report out state event = some (out', state')) :
    OwnCheckpoints lib report out' := by
  unfold proverStep at hstep
  split at hstep
  · -- a look at the checkpoint changes nothing
    split at hstep
    · split at hstep <;> cases hstep <;> exact h
    · cases hstep
      exact h
  · cases hstep
    exact ⟨h.checkpoint, h.checkpointTemp⟩
  · cases hstep
    exact ⟨h.checkpoint, h.checkpointTemp⟩
  · cases hstep
    refine ⟨h.checkpoint, ?_⟩
    intro c hc
    cases hc
    rfl
  · split at hstep
    · rename_i checkpoint htemp
      cases hstep
      refine ⟨?_, nofun⟩
      intro c hc
      cases hc
      exact h.checkpointTemp checkpoint htemp
    · cases hstep
      exact h
  · cases hstep
    exact h
  · split at hstep
    · cases hstep
      exact h
    · cases hstep
      exact ⟨h.checkpoint, h.checkpointTemp⟩
  · split at hstep
    · cases hstep
      exact ⟨h.checkpoint, h.checkpointTemp⟩
    · cases hstep
      exact h
  · cases hstep
  · cases hstep
  · cases hstep
    exact h
  · cases hstep

/-- A prover that finds a checkpoint of its own execution goes on with the request it names. -/
theorem proverStep_resumes {lib : ProvingLib} {report : SellerReport} {out : Output}
    {checkpoint : RequestCheckpoint} (h : OwnCheckpoints lib report out)
    (hcheckpoint : out.checkpoint = some checkpoint) :
    proverStep lib report out .ready .testCheckpoint =
      some (out, .waiting checkpoint.requestId) := by
  have hload : loadRequestCheckpoint lib report checkpoint = .ok checkpoint.requestId := by
    rw [h.checkpoint checkpoint hcheckpoint]
    exact loadRequestCheckpoint_requestCheckpoint lib report checkpoint.requestId
  simp only [proverStep, hcheckpoint, hload]

end LoopProof.Proving
