import Tenkai.Compatibility
import Tenkai.Deployment
import Tenkai.HostPolicy
import Tenkai.StepLifecycle

/-!
# Host requests and the applied-state record

`verify_request` checks what does not depend on what is applied: the plan and its step, the signed
manifest, and the approvals. `AppliedStateRecord::admit` checks the step against the record of its
product and says what to write before the command runs; `startStep` is the two checks
`store::admit` makes there (`quorum_of_startStep`).
-/

namespace Tenkai.HostApply

open Framing (Bytes lenPrefixed utf8 beBytes)
open StepLifecycle (ProductTarget HostApplyOutcome)

/-! ### Release signatures -/

structure Provenance where
  sourceUri : String
  revision : String
  builder : String
  builtAtUnixMs : Int64
  /-- A map: the entries, by their keys in order. -/
  materials : List (String × String)
  deriving DecidableEq

structure ReleaseStatement where
  manifestDigest : String
  artifactDigest : String
  provenance : Provenance

structure SignatureEnvelope where
  keyId : String
  statement : ReleaseStatement
  signature : String

structure ReleaseSigner where
  keyId : String
  identity : String
  publicKey : String
  notBefore : Option Int64
  notAfter : Option Int64

inductive SoftwareExecutorKind
  | shell
  | host
  | helm
  | kubernetes
  | kubernetesInProcess
  | docker
  deriving DecidableEq

/-- What the host side reads of a release manifest. -/
structure HostManifest where
  name : String
  version : String
  target : ProductTarget
  executor : Option SoftwareExecutorKind
  /-- The OCI artifacts it declares. -/
  artifacts : List String
  install : String
  uninstall : Option String
  health : Option String
  immutableInputs : List String

/-- Code outside the model: parsing, SHA-256, and checks of form. -/
structure HostExternals where
  signatures : Signatures
  semver : SemverCrate
  parseManifest : String → Except String HostManifest
  manifestDigest : String → String
  instanceKey : String → String → HostAction → String
  validateInstanceName : String → Except String Unit
  validateIdentifier : String → String → Except String Unit
  /-- The checks of an envelope but those of its digests. -/
  validateEnvelope : SignatureEnvelope → Except String Unit
  validateRoots : List ReleaseSigner → Except String Unit

def withContext {α : Type} (context : String) : Except String α → Except String α
  | .error error => throw s!"{context}: {error}"
  | .ok a => pure a

def validateHexDigest (label value : String) : Except String Unit := do
  refuseIf (value.toList.length ≠ 64 ∨
      ¬ value.toList.all fun c => isHexDigit c || ('A' ≤ c && c ≤ 'F'))
    s!"{label} must be a 64-character hexadecimal sha256 digest"
  refuseIf (value.toList.any Char.isUpper) s!"{label} must use lowercase hexadecimal"

def releaseBytes (statement : ReleaseStatement) : Bytes :=
  utf8 "TENKAI-RELEASE-SIGNATURE-V1" ++ 0 :: (lenPrefixed (utf8 statement.manifestDigest) ++
    (lenPrefixed (utf8 statement.artifactDigest) ++
    (lenPrefixed (utf8 statement.provenance.sourceUri) ++
    lenPrefixed (utf8 statement.provenance.revision) ++
    lenPrefixed (utf8 statement.provenance.builder) ++
    int64Bytes statement.provenance.builtAtUnixMs ++
    beBytes 8 statement.provenance.materials.length ++
    statement.provenance.materials.flatMap fun material =>
      lenPrefixed (utf8 material.1) ++ lenPrefixed (utf8 material.2))))

def signedAtClockSkewMs : Int := 5 * 60 * 1000

def validateDigests (statement : ReleaseStatement) : Except String Unit := do
  validateHexDigest "manifest_digest" statement.manifestDigest
  validateHexDigest "artifact_digest" statement.artifactDigest

def releaseSigner (roots : List ReleaseSigner) (keyId : String) : Except String ReleaseSigner :=
  match roots.find? (·.keyId = keyId) with
  | some signer => pure signer
  | none => throw s!"signer {keyId} is not trusted"

def SignatureEnvelope.authenticateAt (ext : HostExternals) (envelope : SignatureEnvelope)
    (roots : List ReleaseSigner) (now : Int) : Except String ReleaseSigner := do
  ext.validateEnvelope envelope
  validateDigests envelope.statement
  ext.validateRoots roots
  let signedAt := envelope.statement.provenance.builtAtUnixMs.toInt
  let signer ← releaseSigner roots envelope.keyId
  refuseIf (saturatingAdd now signedAtClockSkewMs < signedAt)
    s!"artifact signed by {signer.identity} carries a signed time in the future"
  checkWindow signer.identity signer.notBefore signer.notAfter signedAt
  ext.signatures.trustedKey "trusted signer public_key" signer.publicKey signer.keyId
  ext.signatures.verifyStrict signer.publicKey "release signature" envelope.signature
    (releaseBytes envelope.statement)
  pure signer

/-- The holder of a key signed bytes that name this manifest and these artifacts, and no
    others. -/
def Released (signed : String → Bytes → Prop) (publicKey : String) (statement : ReleaseStatement) :
    Prop :=
  signed publicKey (releaseBytes statement) ∧
    ∀ other, validateDigests other = .ok () → releaseBytes other = releaseBytes statement →
      other.manifestDigest = statement.manifestDigest ∧
        other.artifactDigest = statement.artifactDigest

/-! ### Requests -/

structure HostTrust where
  releaseRoots : List ReleaseSigner
  policy : HostApprovalPolicy

/-- One release as the applied-state record names it. -/
structure HostRelease where
  version : String
  manifestDigest : String
  deriving DecidableEq

/-- One host step, as the server spools it; nothing in it is trusted. -/
structure HostApplyRequest where
  plan : Plan
  stepId : String
  action : HostAction
  manifest : String
  signature : SignatureEnvelope
  approvals : List ApprovalEnvelope

structure VerifiedHostStep where
  «instance» : String
  planId : String
  planDigest : String
  environment : String
  product : String
  productInstance : String
  stepId : String
  stepAction : Action
  action : HostAction
  expectedGeneration : Nat
  /-- The release the record must hold, or `none` for nothing applied. -/
  fromVersion : Option String
  release : HostRelease
  artifactDigest : String
  inputs : List String
  command : String
  signerIdentity : String
  approvals : HostApprovals
  purposes : List QuorumPurpose
  deriving DecidableEq

def namedStep (plan : Plan) (stepId : String) : Except String Step :=
  match plan.steps.find? (·.id = stepId) with
  | some step => pure step
  | none => throw s!"plan {plan.id} has no step {stepId}"

def hostStep (step : Step) : Except String HostStep :=
  match step.host with
  | some host => pure host
  | none => throw s!"plan step {step.id} is not a host step"

def HostManifest.declared (manifest : HostManifest) : HostAction → Option String
  | .install => some manifest.install
  | .uninstall => manifest.uninstall
  | .health => manifest.health

/-- The declared command, if it is not blank. -/
def HostManifest.command (ext : HostExternals) (manifest : HostManifest) (action : HostAction) :
    Except String String :=
  match (manifest.declared action).filter fun command =>
      !(ext.signatures.trim command).isEmpty with
  | some command => pure command
  | none => throw s!"the signed manifest declares no deploy.{action} command"

section Requests

variable (ext : HostExternals)

/-- The checks that a manifest is one of a host release, and of the release the step names. -/
def verifyManifest (step : Step) (host : HostStep) (manifest : HostManifest) :
    Except String Unit := do
  refuseIf (manifest.target ≠ .software) "host releases must be software products"
  refuseIf (manifest.executor ≠ some .host)
    "the signed manifest does not declare deploy.executor = \"host\""
  refuseIf (manifest.artifacts ≠ [])
    "host releases cannot declare OCI artifacts; ship them as deploy inputs"
  ext.validateIdentifier "product" manifest.name
  refuseIf (step.product ≠ manifest.name ∨ step.toVersion ≠ manifest.version ∨
      step.releaseId ≠ releaseId manifest.name manifest.version)
    (s!"plan step {step.id} names {step.product} {step.toVersion}, but the signed manifest is " ++
      s!"{manifest.name} {manifest.version}")
  let installed := repr step.fromVersion
  refuseIf ((host.action = .uninstall ∨ host.action = .health) ∧
      step.fromVersion ≠ some manifest.version)
    (s!"a host {host.action} step must act on the installed release: from {installed} is not " ++
      s!"{manifest.version}")

def verifyRequest (request : HostApplyRequest) (inst : String) (trust : HostTrust)
    (now : Int) : Except String VerifiedHostStep := do
  ext.validateInstanceName inst
  ext.validateIdentifier "environment" request.plan.environment
  let planDigest := ext.signatures.planDigest request.plan
  let expectedInstance := ext.instanceKey planDigest request.stepId request.action
  let name := inst
  refuseIf (name ≠ expectedInstance)
    (s!"instance name {name} does not match the request's plan digest, step, and action " ++
      s!"({expectedInstance})")
  let step ← namedStep request.plan request.stepId
  let host ← hostStep step
  refuseIf (host.action ≠ request.action)
    s!"plan step {step.id} authorizes {host.action}, not {request.action}"
  let manifest ← withContext "host release manifest is not valid"
    (ext.parseManifest request.manifest)
  verifyManifest ext step host manifest
  let command ← manifest.command ext host.action
  let signer ← withContext "host release signature"
    (request.signature.authenticateAt ext trust.releaseRoots now)
  let manifestDigest := ext.manifestDigest request.manifest
  refuseIf (request.signature.statement.manifestDigest ≠ manifestDigest ∨
      step.releaseDigest ≠ manifestDigest)
    "the release manifest does not match its signed digest or the plan step"
  refuseIf (request.signature.statement.artifactDigest ≠ step.artifactDigest)
    "the release signature and the plan step name different artifact digests"
  let approvals := trust.policy.evaluate ext.signatures request.plan request.approvals now
  let purposes := planPurposes request.plan
  approvals.requireAll purposes
  pure
    { «instance» := name
      planId := request.plan.id
      planDigest
      environment := request.plan.environment
      product := manifest.name
      productInstance := step.instanceName
      stepId := step.id
      stepAction := step.action
      action := host.action
      expectedGeneration := host.expectedGeneration
      fromVersion := step.fromVersion
      release := ⟨manifest.version, manifestDigest⟩
      artifactDigest := step.artifactDigest
      inputs := manifest.immutableInputs
      command
      signerIdentity := signer.identity
      approvals
      purposes }

end Requests

/-! ### The applied-state record -/

inductive AppliedState
  | empty
  | applied (release : HostRelease)
  /-- An install (with a target) or an uninstall (without) started and did not succeed. -/
  | dirty (source target : Option HostRelease)
  deriving DecidableEq

/-- Written before a command runs. -/
structure HostApplyStarted where
  «instance» : String
  planId : String
  planDigest : String
  stepId : String
  environment : String
  product : String
  action : HostAction
  release : HostRelease
  /-- The record's generation once this step started. -/
  generation : Nat
  startedAt : Int
  deriving DecidableEq

/-- The terminal record of one instance. -/
structure HostApplyResult where
  «instance» : String
  environment : String
  product : String
  action : HostAction
  releaseDigest : String
  outcome : HostApplyOutcome
  exitStatus : Option Int
  detail : String
  generation : Nat
  startedAt : Int
  finishedAt : Int
  deriving DecidableEq

/-- The applier's record for one environment and product. -/
structure AppliedStateRecord where
  environment : String
  product : String
  generation : Nat
  state : AppliedState
  /-- The newest release ever applied. -/
  highWater : Option HostRelease
  lastStarted : Option HostApplyStarted
  lastResult : Option HostApplyResult
  deriving DecidableEq

def HostApplyStarted.result (started : HostApplyStarted) (outcome : HostApplyOutcome)
    (exitStatus : Option Int) (detail : String) (finishedAt : Int) : HostApplyResult where
  «instance» := started.instance
  environment := started.environment
  product := started.product
  action := started.action
  releaseDigest := started.release.manifestDigest
  outcome
  exitStatus
  detail
  generation := started.generation
  startedAt := started.startedAt
  finishedAt

def isNewer (semver : SemverCrate) (candidate than : String) : Bool :=
  match semver.parse candidate, semver.parse than with
  | some candidate, some than => semver.lt than candidate
  | _, _ => false

namespace AppliedStateRecord

def untouched (environment product : String) : AppliedStateRecord where
  environment
  product
  generation := 0
  state := .empty
  highWater := none
  lastStarted := none
  lastResult := none

variable (semver : SemverCrate) (record : AppliedStateRecord)

def describe : String :=
  let name : Option HostRelease → String := fun release =>
    (release.map (·.version)).getD "nothing"
  match record.state with
  | .empty => "nothing"
  | .applied release => release.version
  | .dirty source target => "dirty(" ++ name source ++ ", " ++ name target ++ ")"

/-- The release a step from `source` starts at: the applied release, either side of a dirty
    pair, or nothing. -/
def source (fromVersion : Option String) : Except String (Option HostRelease) :=
  let candidates : List (Option HostRelease) := match record.state with
    | .empty => [none]
    | .applied release => [some release]
    | .dirty source target => [source, target]
  match candidates.find? fun candidate => candidate.map (·.version) = fromVersion with
  | some candidate => pure candidate
  | none =>
    let asked := fromVersion.getD "nothing"
    throw s!"step starts from {asked}, but the record holds {record.describe}"

/-- The approvals an install needs whose target is not newer than the high-water release. -/
def requireAbove (step : VerifiedHostStep) : Except String Unit :=
  match record.highWater with
  | none => pure ()
  | some highWater =>
    if step.action = .install ∧ ¬ isNewer semver step.release.version highWater.version then
      let version := step.release.version
      let purpose := if step.stepAction = .rollback then .rollback else .downgrade
      withContext s!"{version} is not newer than the high-water release {highWater.version}"
        (step.approvals.require purpose)
    else pure ()

/-- The generation a step starts at; an install or an uninstall advances it. -/
def advance (action : HostAction) : Except String Nat :=
  match action with
  | .health => pure record.generation
  | .install | .uninstall => do
    refuseIf (record.generation + 1 ≥ 2 ^ 64) "generation overflow"
    pure (record.generation + 1)

def admitted (step : VerifiedHostStep) (source : Option HostRelease) (generation : Nat)
    (now : Int) : HostApplyStarted × AppliedStateRecord :=
  let started : HostApplyStarted :=
    { «instance» := step.instance
      planId := step.planId
      planDigest := step.planDigest
      stepId := step.stepId
      environment := step.environment
      product := step.product
      action := step.action
      release := step.release
      generation
      startedAt := now }
  (started,
    { record with
      generation
      state := match step.action with
        | .health => record.state
        | .install => .dirty source (some step.release)
        | .uninstall => .dirty source none
      lastStarted := some started
      lastResult := none })

/-- `AppliedStateRecord::admit`: the started record, and the record to write before the command
    runs. -/
def admitStep (step : VerifiedHostStep) (now : Int) :
    Except String (HostApplyStarted × AppliedStateRecord) := do
  refuseIf (record.environment ≠ step.environment ∨ record.product ≠ step.product)
    "applied-state record belongs to another environment or product"
  refuseIf (step.expectedGeneration ≠ record.generation)
    (s!"step expects generation {step.expectedGeneration} of {record.product} in " ++
      s!"{record.environment}, but the record is at generation {record.generation}")
  let source ← record.source step.fromVersion
  refuseIf ((step.action = .uninstall ∨ step.action = .health) ∧ source ≠ some step.release)
    s!"the record's release {step.release.version} is not the signed release this step acts on"
  refuseIf (step.action = .health ∧ record.state ≠ .applied step.release)
    "health runs only on an applied release"
  record.requireAbove semver step
  let generation ← record.advance step.action
  pure (record.admitted step source generation now)

def complete (started : HostApplyStarted) (result : HostApplyResult) : AppliedStateRecord :=
  let completed : AppliedStateRecord :=
    if result.outcome = .succeeded then
      match started.action with
      | .install =>
        { record with
          state := .applied started.release
          -- only a provably newer release raises the mark
          highWater := if record.highWater.all fun highWater =>
              isNewer semver started.release.version highWater.version
            then some started.release else record.highWater }
      | .uninstall => { record with state := .empty }
      | .health => record
    else record
  { completed with lastResult := some result }

end AppliedStateRecord

/-- What `store::admit` decides under the product's lock, once nothing of the product is
    unsettled: the approvals still valid are counted again, then the record is asked. -/
def startStep (semver : SemverCrate) (record : AppliedStateRecord) (step : VerifiedHostStep)
    (now : Int) : Except String (HostApplyStarted × AppliedStateRecord) := do
  let step := { step with approvals := step.approvals.at_ now }
  step.approvals.requireAll step.purposes
  record.admitStep semver step now

/-! ### What starts -/

section Starts

variable {ext : HostExternals} {signed : String → Bytes → Prop} {request : HostApplyRequest}
  {trust : HostTrust} {now at_ : Int}

theorem ensures_withContext {α : Type} {P : α → Prop} {context : String} {x : Except String α}
    (h : Ensures x P) : Ensures (withContext context x) P := by
  cases x with
  | error error => exact .throw
  | ok a => exact .pure (h a rfl)

theorem length_utf8_of_validateHexDigest {label value : String} :
    Ensures (validateHexDigest label value) fun _ => (utf8 value).length < 2 ^ 64 := by
  refine Ensures.refuseIf.bind fun _ _ => Ensures.refuseIf.mono fun _ _ => ?_
  have hbytes := Framing.length_utf8_le value
  omega

theorem length_utf8_of_validateDigests {statement : ReleaseStatement} :
    Ensures (validateDigests statement) fun _ => (utf8 statement.manifestDigest).length < 2 ^ 64 ∧
      (utf8 statement.artifactDigest).length < 2 ^ 64 :=
  length_utf8_of_validateHexDigest.bind fun _ hman =>
    length_utf8_of_validateHexDigest.mono fun _ hartifact => ⟨hman, hartifact⟩

theorem digests_of_releaseBytes {statement other : ReleaseStatement}
    (hvld : validateDigests statement = .ok ()) (hoth : validateDigests other = .ok ())
    (h : releaseBytes other = releaseBytes statement) :
    other.manifestDigest = statement.manifestDigest ∧
      other.artifactDigest = statement.artifactDigest := by
  obtain ⟨hman, hartifact⟩ := length_utf8_of_validateDigests _ hvld
  obtain ⟨hman', hartifact'⟩ := length_utf8_of_validateDigests _ hoth
  have h := List.tail_eq_of_cons_eq (List.append_cancel_left h)
  obtain ⟨hsame, h⟩ := Framing.lenPrefixed_append_inj hman' hman h
  obtain ⟨hsame', -⟩ := Framing.lenPrefixed_append_inj hartifact' hartifact h
  exact ⟨Framing.utf8_inj.mp hsame, Framing.utf8_inj.mp hsame'⟩

theorem released_of_authenticateAt (hunf : Unforgeable ext.signatures signed)
    {envelope : SignatureEnvelope} {roots : List ReleaseSigner} :
    Ensures (envelope.authenticateAt ext roots now) fun signer =>
      signer ∈ roots ∧ Released signed signer.publicKey envelope.statement := by
  refine .after fun _ => ?_
  refine (Ensures.returned _).bind fun _ hdigests => ?_
  refine .after fun _ => ?_
  have htrusted : Ensures (releaseSigner roots envelope.keyId) fun signer => signer ∈ roots := by
    unfold releaseSigner
    split
    next signer hfd => exact .pure (List.mem_of_find?_eq_some hfd)
    · exact .throw
  refine htrusted.bind fun signer hsgn => ?_
  refine .after fun _ => .after fun _ => .after fun _ => ?_
  refine (Ensures.returned _).bind fun _ hvfd => ?_
  refine .pure ⟨hsgn, hunf _ _ _ _ hvfd, ?_⟩
  intro _ hoth hsame
  exact digests_of_releaseBytes hdigests hoth hsame

/-- What a verified step is made of: a step of the plan, and the manifest it pins. -/
structure MadeOf (ext : HostExternals) (signed : String → Bytes → Prop) (request : HostApplyRequest)
    (trust : HostTrust) (step : VerifiedHostStep) (planStep : Step) (host : HostStep)
    (manifest : HostManifest) (signer : ReleaseSigner) : Prop where
  planned : planStep ∈ request.plan.steps
  ofHost : planStep.host = some host
  environment : step.environment = request.plan.environment
  product : step.product = planStep.product
  version : step.release.version = planStep.toVersion
  fromVersion : step.fromVersion = planStep.fromVersion
  expectedGeneration : step.expectedGeneration = host.expectedGeneration
  action : step.action = host.action
  stepAction : step.stepAction = planStep.action
  parsed : ext.parseManifest request.manifest = .ok manifest
  named : manifest.name = step.product ∧ manifest.version = step.release.version
  command : manifest.declared host.action = some step.command
  pinned : planStep.releaseDigest = ext.manifestDigest request.manifest
  trusted : signer ∈ trust.releaseRoots
  digest : request.signature.statement.manifestDigest = ext.manifestDigest request.manifest
  released : Released signed signer.publicKey request.signature.statement

theorem verifyManifest_spec {step : Step} {host : HostStep} {manifest : HostManifest} :
    Ensures (verifyManifest ext step host manifest) fun _ =>
      manifest.name = step.product ∧ manifest.version = step.toVersion := by
  refine .after fun _ => .after fun _ => .after fun _ => ?_
  refine .after fun _ => ?_
  refine Ensures.refuseIf.bind fun _ hnam => ?_
  simp only [not_or, not_not] at hnam
  exact (Ensures.trivial _).mono fun _ _ => ⟨hnam.1.symm, hnam.2.1.symm⟩

theorem HostManifest.declared_of_command {manifest : HostManifest} {action : HostAction} :
    Ensures (manifest.command ext action) fun command => manifest.declared action = some command :=
      by
  unfold HostManifest.command
  split
  next command hsome => exact .pure (Option.filter_eq_some_iff.mp hsome).1
  next => exact .throw

theorem madeOf_of_verifyRequest (hunf : Unforgeable ext.signatures signed) {inst : String} :
    Ensures (verifyRequest ext request inst trust now) fun step => (∃ planStep host manifest signer,
      MadeOf ext signed request trust step planStep host manifest signer) ∧
      step.approvals = trust.policy.evaluate ext.signatures request.plan request.approvals now ∧
      step.purposes = planPurposes request.plan := by
  refine .after fun _ => .after fun _ => .after fun _ => ?_
  have hplan : Ensures (namedStep request.plan request.stepId) fun planStep =>
      planStep ∈ request.plan.steps := by
    unfold namedStep
    split
    next planStep hfd => exact .pure (List.mem_of_find?_eq_some hfd)
    · exact .throw
  refine hplan.bind fun planStep hplan => ?_
  have hhost : Ensures (hostStep planStep) fun host => planStep.host = some host := by
    unfold hostStep
    split
    next host hsome => exact .pure hsome
    · exact .throw
  refine hhost.bind fun host hhost => ?_
  refine .after fun _ => ?_
  refine (ensures_withContext (.returned _)).bind fun manifest hparsed => ?_
  refine verifyManifest_spec.bind fun _ hnam => ?_
  refine HostManifest.declared_of_command.bind fun _ hcommand => ?_
  refine (ensures_withContext (released_of_authenticateAt hunf)).bind fun signer hsgn => ?_
  refine Ensures.refuseIf.bind fun _ hdigests => ?_
  simp only [not_or, not_not] at hdigests
  refine .after fun _ => .after fun _ => .pure ⟨?_, rfl, rfl⟩
  exact ⟨planStep, host, manifest, signer, hplan, hhost, rfl, hnam.1, hnam.2, rfl, rfl, rfl,
    rfl, hparsed, ⟨rfl, rfl⟩, hcommand, hdigests.2, hsgn.1, hdigests.1, hsgn.2⟩

/-- The purposes a start calls for: those of the plan, and one more for an install whose
    target is not newer than the newest release ever applied. -/
inductive Required (semver : SemverCrate) (plan : Plan) (record : AppliedStateRecord)
    (step : VerifiedHostStep) : QuorumPurpose → Prop
  | executePlan : Required semver plan record step .executePlan
  | skipGates : Required semver plan record step .skipGates
  | rollback (h : ∃ planStep ∈ plan.steps, planStep.action = .rollback) :
      Required semver plan record step .rollback
  | downgrade (h : ∃ planStep ∈ plan.steps, planStep.action = .downgrade) :
      Required semver plan record step .downgrade
  | notNewer {highWater : HostRelease} (hmark : record.highWater = some highWater)
      (hinstall : step.action = .install)
      (hversion : isNewer semver step.release.version highWater.version = false) :
      Required semver plan record step
        (if step.stepAction = .rollback then .rollback else .downgrade)

theorem mem_planPurposes {plan : Plan} {purpose : QuorumPurpose} :
    purpose ∈ planPurposes plan ↔ purpose = .executePlan ∨ purpose = .skipGates ∨
      (purpose = .rollback ∧ ∃ planStep ∈ plan.steps, planStep.action = .rollback) ∨
      (purpose = .downgrade ∧ ∃ planStep ∈ plan.steps, planStep.action = .downgrade) := by
  unfold planPurposes
  by_cases hback : ∃ planStep ∈ plan.steps, planStep.action = .rollback <;>
    by_cases hdowngrade : ∃ planStep ∈ plan.steps, planStep.action = .downgrade <;>
      simp [hback, hdowngrade]

theorem AppliedStateRecord.require_of_admitStep {semver : SemverCrate}
    {r : AppliedStateRecord} {step : VerifiedHostStep} :
    Ensures (r.admitStep semver step at_) fun _ => ∀ highWater, r.highWater = some highWater →
      step.action = .install → isNewer semver step.release.version highWater.version = false →
      step.approvals.require (if step.stepAction = .rollback then .rollback else .downgrade) =
      .ok () := by
  refine .after fun _ => .after fun _ => .after fun _ => ?_
  refine .after fun _ => .after fun _ => ?_
  refine .bind (P := fun _ => ∀ highWater, r.highWater = some highWater →
    step.action = .install → isNewer semver step.release.version highWater.version = false →
      step.approvals.require (if step.stepAction = .rollback then .rollback else .downgrade) =
        .ok ()) ?_ (fun _ hreq => .after fun _ => .pure hreq)
  unfold AppliedStateRecord.requireAbove
  split
  next hnone =>
    refine .pure ?_
    intro highWater hsome
    rw [hnone] at hsome
    cases hsome
  next highWater hmark =>
    refine .ite (fun _ => ?_) (fun habove => .pure ?_)
    · refine (ensures_withContext (.returned _)).mono ?_
      intro _ hreq _ _ _ _
      exact hreq
    · intro highWater' hsome hins hver
      cases hmark.symm.trans hsome
      exact absurd ⟨hins, by simp [hver]⟩ habove

/-- What starts is made of signed and approved content, and every rule for every purpose required
    of it is met when it starts. -/
theorem quorum_of_startStep (hunf : Unforgeable ext.signatures signed)
    (hkeys : ext.signatures.KeyIdsDerived) {inst : String} {step : VerifiedHostStep}
    (hvfd : verifyRequest ext request inst trust now = .ok step) (hclock : now ≤ at_)
    {record : AppliedStateRecord} {started : HostApplyStarted} {advanced : AppliedStateRecord}
    (hstd : startStep ext.semver record step at_ = .ok (started, advanced)) :
    (∃ planStep host manifest signer,
      MadeOf ext signed request trust step planStep host manifest signer) ∧ ∀ purpose,
      Required ext.semver request.plan record step purpose → ∀ rule ∈ trust.policy.rules purpose,
      QuorumMet ext.signatures signed trust.policy request.plan at_ rule := by
  obtain ⟨hmade, happrovals, hpurposes⟩ := madeOf_of_verifyRequest hunf _ hvfd
  refine ⟨hmade, ?_⟩
  -- the two counts under the lock, of what intake evaluated
  obtain ⟨_, hall, hadmd⟩ := Returns.of_bind (Q := fun _ => True) ⟨_, hstd, trivial⟩
  obtain ⟨_, hadmd, -⟩ := hadmd
  have hcnt : ∀ purpose, (step.approvals.at_ at_).require purpose = .ok () →
      ∀ rule ∈ trust.policy.rules purpose,
        QuorumMet ext.signatures signed trust.policy request.plan at_ rule := by
    intro purpose hreq
    rw [happrovals] at hreq
    exact quorumMet_of_require hunf hkeys hclock _ hreq
  have hplan : ∀ purpose ∈ planPurposes request.plan, ∀ rule ∈ trust.policy.rules purpose,
      QuorumMet ext.signatures signed trust.policy request.plan at_ rule := by
    intro purpose hpurp
    rw [← hpurposes] at hpurp
    exact hcnt purpose (HostApprovals.require_of_requireAll hall purpose hpurp)
  intro purpose hreq
  cases hreq with
  | executePlan => exact hplan _ (mem_planPurposes.mpr (.inl rfl))
  | skipGates => exact hplan _ (mem_planPurposes.mpr (.inr (.inl rfl)))
  | rollback h => exact hplan _ (mem_planPurposes.mpr (.inr (.inr (.inl ⟨rfl, h⟩))))
  | downgrade h => exact hplan _ (mem_planPurposes.mpr (.inr (.inr (.inr ⟨rfl, h⟩))))
  | notNewer hmark hins hver =>
    exact hcnt _ (AppliedStateRecord.require_of_admitStep _ hadmd _ hmark hins hver)

end Starts

end Tenkai.HostApply
