import Tenkai.Lease
import Tenkai.Plan
import Tenkai.Pool

/-!
# Connectivity-class upgrades

One upgrade takes a release to a cohort of environments (`connectivity.rs`). An operation leases
the environments it works on, reads the record, changes its copy and merges what it changed into
what is stored by then (`persist`). This file is the code: the store, its operations, and the
calls.
-/

namespace Tenkai.Connectivity

open Prog (bailIf)

/-! ### Records -/

inductive ConnectivityClass
  | connected
  | intermittent
  | isolated
  deriving DecidableEq

inductive UpgradeStatus
  | admitted
  | running
  | interrupted
  | succeeded
  | failed
  | conflicted
  | rolledBack
  | recoveryRequired
  deriving DecidableEq

inductive UpgradeEnvironmentStatus
  | pending
  | interrupted
  | applied
  | conflicted
  | rolledBack
  | recoveryRequired
  deriving DecidableEq

structure TransferCheckpoint where
  planId : String
  planDigest : String
  releaseDigest : String
  artifactDigest : String
  generation : Nat
  verified : Bool
  deriving DecidableEq

/-- What of a signed receipt is looked at. -/
structure ReceiptEnvelope where
  keyId : String
  digest : String
  succeeded : Bool
  deriving DecidableEq

structure IsolatedEvidence where
  bundleDigest : String
  receiptDigest : Option String
  planDigest : Option String
  approvalDigest : Option String
  scan : Option String
  receipt : Option ReceiptEnvelope
  deriving DecidableEq

structure UpgradeEnvironmentRecord where
  name : String
  class_ : ConnectivityClass
  status : UpgradeEnvironmentStatus
  planId : Option String
  detail : String
  transfer : Option TransferCheckpoint
  isolated : Option IsolatedEvidence
  deriving DecidableEq

structure UpgradeSpec where
  name : String
  product : String
  version : String
  channel : String
  environments : List String
  deriving DecidableEq

/-- The release an upgrade is pinned to. -/
structure UpgradePin where
  releaseId : String
  releaseDigest : String
  artifactDigest : String
  deriving DecidableEq

/-- What `identity_digest` hashes. -/
structure UpgradeIdentity where
  spec : UpgradeSpec
  pin : UpgradePin
  deriving DecidableEq

structure UpgradeRecord where
  name : String
  identity : UpgradeIdentity
  product : String
  version : String
  channel : String
  releaseId : String
  releaseDigest : String
  artifactDigest : String
  status : UpgradeStatus
  environments : List UpgradeEnvironmentRecord

namespace UpgradeRecord

def edit (record : UpgradeRecord) (index : Nat)
    (f : UpgradeEnvironmentRecord → UpgradeEnvironmentRecord) : UpgradeRecord :=
  { record with environments := record.environments.modify index f }

def markApplied (record : UpgradeRecord) (index : Nat) (detail : String) : UpgradeRecord :=
  record.edit index fun environment => { environment with status := .applied, detail }

def detailAt (record : UpgradeRecord) (index : Nat) : String :=
  (record.environments[index]?.map (·.detail)).getD ""

end UpgradeRecord

def position (p : UpgradeEnvironmentRecord → Bool) :
    List UpgradeEnvironmentRecord → Option (Nat × UpgradeEnvironmentRecord)
  | [] => none
  | entry :: entries =>
    if p entry then some (0, entry)
    else (position p entries).map fun found => (found.1 + 1, found.2)

def UpgradeEnvironmentRecord.needsWork (entry : UpgradeEnvironmentRecord) : Bool :=
  entry.status = .pending || entry.status = .interrupted

def summarize (record : UpgradeRecord) : UpgradeStatus :=
  if record.environments.any (·.status = .recoveryRequired) then .recoveryRequired
  else if record.environments.any (·.status = .conflicted) then .conflicted
  else if record.environments.any (·.status = .interrupted) then .interrupted
  else if record.environments.all (·.status = .applied) then .succeeded
  else if record.environments.all (·.status = .rolledBack) then .rolledBack
  else .running

/-- The entries of a merge: what was changed since `base`, and else what is stored. -/
def mergeEntries (base modified current : List UpgradeEnvironmentRecord) :
    List UpgradeEnvironmentRecord :=
  (modified.zip (base.zip current)).map fun entry =>
    if entry.1 ≠ entry.2.1 then entry.1 else entry.2.2

def mergeUpgrade (base modified current : UpgradeRecord) : Except String UpgradeRecord :=
  if base.environments.length ≠ modified.environments.length ∨
      current.environments.length ≠ base.environments.length then
    .error s!"upgrade {base.name} environments changed shape"
  else
    let merged := { current with
      environments := mergeEntries base.environments modified.environments current.environments }
    .ok <|
      -- another writer changed some environment since `base`
      if current.environments ≠ base.environments then
        if modified.status ≠ base.status ∨ merged.status ≠ base.status then
          { merged with status := summarize merged }
        else merged
      else if modified.status ≠ base.status then
        { merged with status := modified.status }
      else merged

/-- What of a verified offline bundle is looked at. -/
structure BundleEnvelope where
  keyId : String
  digest : String
  planId : String
  planDigest : String
  approvalDigest : String
  deriving DecidableEq

/-! ### The store -/

/-- The state of a stored plan. A running plan is at work in the last attempt that started it: an
    earlier one has lost the environment's lease and its writes are refused. -/
inductive PlanProgress
  | computed
  | running (attempt : Nat)
  | blocked
  | succeeded
  | failed
  deriving DecidableEq

def PlanProgress.state : PlanProgress → PlanState
  | .computed => .computed
  | .running _ => .running
  | .blocked => .blocked
  | .succeeded => .succeeded
  | .failed => .failed

/-- A stored plan: of which environment, the product it rolls back if that is what it is for, and
    how far it is. -/
structure PlanRow where
  environment : String
  rollbackOf : Option String
  progress : PlanProgress
  deriving DecidableEq

/-- A stored version of the record, and the environments its writer had leased. -/
structure Version where
  record : UpgradeRecord
  locked : List String

/-- Account of a plan that began to execute, and whether the upgrade had been rolled back. -/
structure BegunPlan where
  planId : String
  afterRollback : Bool

structure Hub where
  /-- Every version of the record that was stored, the stored one first. -/
  history : List Version
  plans : String → Option PlanRow
  /-- The leases `UPGRADE_ENVIRONMENT_NAMESPACE`. -/
  envLease : String → LeaseRow
  /-- The lease `UPGRADE_WRITE_NAMESPACE`. -/
  writeLease : LeaseRow
  /-- When the last operation took place. -/
  clock : Int
  /-- Account: the plans that succeeded, the last one first. -/
  finished : List String
  begun : List BegunPlan

def Hub.empty : Hub where
  history := []
  plans _ := none
  envLease _ := .vacant
  writeLease := .vacant
  clock := 0
  finished := []
  begun := []

def Hub.record? (s : Hub) : Option UpgradeRecord := s.history.head?.map (·.record)

def Hub.rolledBack (s : Hub) : Bool := s.history.any (·.record.status = .rolledBack)

/-! ### Operations -/

/-- What is decided outside the upgrade's record, its plans and its leases. -/
inductive Question
  | schemaReady
  | environmentKnown (environment : String)
  /-- The leases are held, and will be for a while. -/
  | stillHeld
  | renewalStarted
  | executorsSelected
  | planAdmitted (planId : String)
  | bundleVerified (bundle : BundleEnvelope)
  | receiptVerified (receipt : ReceiptEnvelope) (bundle : BundleEnvelope)
  | contentImported (bundle : BundleEnvelope)
  | exposureImported (bundle : BundleEnvelope)
  | importRecorded (environment : String)
  deriving DecidableEq

/-- How an execution begins: it is refused, a gate or the maintenance window holds the plan back,
    or it runs. -/
inductive Start
  | refused (error : String)
  | heldBack
  | running
  deriving DecidableEq

/-- The state an execution leaves its plan in. -/
inductive Ending
  | running
  | blocked
  | succeeded
  | failed
  deriving DecidableEq

def Ending.progress (thread : Nat) : Ending → PlanProgress
  | .running => .running thread
  | .blocked => .blocked
  | .succeeded => .succeeded
  | .failed => .failed

/-- How an execution ends: the state its plan is left in, and what the call returns. -/
structure Finish where
  ending : Ending
  result : Except String Unit

/-- What a record is read for. -/
inductive Purpose
  | look
  | rollback
  | merge

inductive Op
  | decide (question : Question)
  | scan (bundle : BundleEnvelope)
  | connectivityClass (environment : String)
  | resolveReleasePin (spec : UpgradeSpec)
  | leaseGeneration (environment : String)
  | rollbackStep (environment product : String)
  | createPlan (environment : String) (rollbackOf : Option String)
  | getPlan (planId : String)
  | startPlan (planId : String)
  | finishPlan (planId : String)
  | getUpgrade (purpose : Purpose)
  | createUpgrade (record : UpgradeRecord)
  | acquireEnv (environment owner : String)
  | refreshEnv (environment : String) (token : FencingToken)
  | releaseEnv (environment : String) (token : FencingToken)
  | acquireWrite (owner : String)
  | releaseWrite (token : FencingToken)
  -- the writer's environments are for the account
  | guardedUpdate (record : UpgradeRecord) (token : FencingToken) (locked : List String)

def Op.Answer : Op → Type
  | .decide _ => Except String Bool
  | .scan _ => Except String (Option String)
  | .connectivityClass _ => Except String ConnectivityClass
  | .resolveReleasePin _ => Except String UpgradePin
  | .leaseGeneration _ => Except String (Option Nat)
  | .rollbackStep _ _ => Except String Unit
  | .createPlan _ _ => Except String String
  | .startPlan _ => Start
  | .finishPlan _ => Finish
  | _ => Unit

/-- The clock when an operation takes place, whether it fails, and what is answered from outside. -/
structure Turn (op : Op) where
  now : Int
  fault : Fault
  answer : op.Answer

def Op.Value : Op → Type
  | .decide _ => Bool
  | .scan _ => Option String
  | .connectivityClass _ => ConnectivityClass
  | .resolveReleasePin _ => UpgradePin
  | .leaseGeneration _ => Option Nat
  | .createPlan _ _ => String
  | .getPlan _ => PlanState
  -- whether the plan runs
  | .startPlan _ => Bool
  | .getUpgrade _ => Option UpgradeRecord
  -- a lease that is taken is not an error of the store
  | .acquireEnv _ _ => Option Lease
  | .acquireWrite _ => Option Lease
  | _ => Unit

abbrev interface : Interface where
  Op := Op
  Choice := Turn
  Reply op := Except String op.Value

def unavailable : String := "store unavailable"

def notHolder : String := "embedded lease is not the active fenced holder"

namespace Hub

variable (s : Hub)

def setEnv (environment : String) (row : LeaseRow) : Hub :=
  { s with envLease := Function.update s.envLease environment row }

def setPlan (planId : String) (row : PlanRow) : Hub :=
  { s with plans := Function.update s.plans planId (some row) }

def store (record : UpgradeRecord) (locked : List String) : Hub :=
  { s with history := ⟨record, locked⟩ :: s.history }

def begin (planId : String) (row : PlanRow) (thread : Nat) : Hub :=
  { s.setPlan planId { row with progress := .running thread } with
    begun := ⟨planId, s.rolledBack⟩ :: s.begun }

def finish (planId : String) (row : PlanRow) (progress : PlanProgress) : Hub :=
  { s.setPlan planId { row with progress } with
    finished := if progress = .succeeded then planId :: s.finished else s.finished }

end Hub

def upgradeEnvironmentTtlMs : Int := 120000

def upgradeWriteTtlMs : Int := 30000

def effect (thread : Nat) (now : Int) (s : Hub) :
    (op : Op) → op.Answer → Except String op.Value × Hub
  | .decide _, answer => (answer, s)
  | .scan _, answer => (answer, s)
  | .connectivityClass _, answer => (answer, s)
  | .resolveReleasePin _, answer => (answer, s)
  | .leaseGeneration _, answer => (answer, s)
  | .rollbackStep _ _, answer => (answer, s)
  | .createPlan environment rollbackOf, answer =>
    match answer with
    | .error error => (.error error, s)
    | .ok planId =>
      match s.plans planId with
      | none => (.ok planId, s.setPlan planId ⟨environment, rollbackOf, .computed⟩)
      | some row =>
        -- the content of a stored plan is immutable, and its state does not go back
        if row = ⟨environment, rollbackOf, .computed⟩ then (.ok planId, s)
        else (.error "plan executable content is immutable", s)
  | .getPlan planId, _ =>
    match s.plans planId with
    | some row => (.ok row.progress.state, s)
    | none => (.error s!"plan {planId} not found", s)
  | .startPlan planId, answer =>
    match answer, s.plans planId with
    | .refused error, _ => (.error error, s)
    | _, none => (.error s!"plan {planId} not found", s)
    | .heldBack, some row => (.ok false, s.setPlan planId { row with progress := .blocked })
    | .running, some row => (.ok true, s.begin planId row thread)
  | .finishPlan planId, answer =>
    match s.plans planId with
    | some row =>
      if row.progress = .running thread then
        (answer.result, s.finish planId row (answer.ending.progress thread))
      else (.error notHolder, s)
    | none => (.error s!"plan {planId} not found", s)
  | .getUpgrade _, _ => (.ok s.record?, s)
  | .createUpgrade record, _ =>
    match s.history with
    | [] => (.ok (), s.store record [])
    | _ :: _ => (.error "object already exists", s)
  | .acquireEnv environment owner, _ =>
    match (s.envLease environment).acquire thread owner upgradeEnvironmentTtlMs now with
    | some granted => (.ok (some granted.1), s.setEnv environment granted.2)
    | none => (.ok none, s)
  | .refreshEnv environment token, _ =>
    match (s.envLease environment).refresh token upgradeEnvironmentTtlMs now with
    | some refreshed => (.ok (), s.setEnv environment refreshed.2)
    | none => (.error notHolder, s)
  | .releaseEnv environment token, _ =>
    match (s.envLease environment).release token now with
    | some row => (.ok (), s.setEnv environment row)
    | none => (.error notHolder, s)
  | .acquireWrite owner, _ =>
    match s.writeLease.acquire thread owner upgradeWriteTtlMs now with
    | some granted => (.ok (some granted.1), { s with writeLease := granted.2 })
    | none => (.ok none, s)
  | .releaseWrite token, _ =>
    match s.writeLease.release token now with
    | some row => (.ok (), { s with writeLease := row })
    | none => (.error notHolder, s)
  | .guardedUpdate record token locked, _ =>
    match s.writeLease.requireActive token now with
    | some _ => (.ok (), s.store record locked)
    | none => (.error notHolder, s)

/-- Every operation is marked by the clock, whether or not it then fails. -/
def exec (thread : Nat) : Exec interface Hub := fun op turn s =>
  let ticked := { s with clock := turn.now }
  turn.fault.run unavailable ticked (effect thread turn.now ticked op turn.answer)

/-! ### Programs -/

abbrev M : Type → Type := ExceptT String (Prog interface)

def ask (op : Op) : M op.Value := ExceptT.mk (.ask op .done)

namespace M

def decide (question : Question) : M Bool := ask (.decide question)

def scan (bundle : BundleEnvelope) : M (Option String) := ask (.scan bundle)

def connectivityClass (environment : String) : M ConnectivityClass :=
  ask (.connectivityClass environment)

def resolveReleasePin (spec : UpgradeSpec) : M UpgradePin := ask (.resolveReleasePin spec)

def leaseGeneration (environment : String) : M (Option Nat) := ask (.leaseGeneration environment)

def rollbackStep (environment product : String) : M Unit := ask (.rollbackStep environment product)

def createPlan (environment : String) (rollbackOf : Option String) : M String :=
  ask (.createPlan environment rollbackOf)

def getPlan (planId : String) : M PlanState := ask (.getPlan planId)

def startPlan (planId : String) : M Bool := ask (.startPlan planId)

def finishPlan (planId : String) : M Unit := ask (.finishPlan planId)

def getUpgrade (purpose : Purpose) : M (Option UpgradeRecord) := ask (.getUpgrade purpose)

def createUpgrade (record : UpgradeRecord) : M Unit := ask (.createUpgrade record)

def acquireEnv (environment owner : String) : M (Option Lease) := ask (.acquireEnv environment owner)

def refreshEnv (environment : String) (token : FencingToken) : M Unit :=
  ask (.refreshEnv environment token)

def releaseEnv (environment : String) (token : FencingToken) : M Unit :=
  ask (.releaseEnv environment token)

def acquireWrite (owner : String) : M (Option Lease) := ask (.acquireWrite owner)

def releaseWrite (token : FencingToken) : M Unit := ask (.releaseWrite token)

def guardedUpdate (record : UpgradeRecord) (token : FencingToken) (locked : List String) : M Unit :=
  ask (.guardedUpdate record token locked)

/-- The result of `x` as a value, for code that looks at it before it returns. -/
def caught {α : Type} (x : M α) : M (Except String α) := ExceptT.lift x.run

def returned {α : Type} (result : Except String α) : M α := ExceptT.mk (.done result)

def require (question : Question) (refusal : String) : M Unit := do
  if ← decide question then pure () else throw refusal

end M

open M

/-! #### Environments held -/

/-- `HeldEnvironments`: the environments an operation has leased. Whether they are still held
    is known to the thread that renews them. -/
abbrev HeldEnvironments : Type := List (String × FencingToken)

def HeldEnvironments.names (held : HeldEnvironments) : List String := held.map (·.1)

def ensureHeld : M Unit :=
  require .stillHeld "operation lease on an upgrade environment was lost; stopping"

/-- An error of one release does not stop the next. -/
def releaseEnvironmentLeases : HeldEnvironments → M Unit
  | [] => pure ()
  | (environment, token) :: leases => do
    let _ ← caught (releaseEnv environment token)
    releaseEnvironmentLeases leases

/-- Lease every one of `environments` beside those held, or none. -/
def lockEnvironments (upgrade : String) : List String → HeldEnvironments → M HeldEnvironments
  | [], held => do
    if ← decide .renewalStarted then return held
    else do
      releaseEnvironmentLeases held
      throw "could not start the upgrade lease renewal"
  | environment :: environments, held => do
    match ← caught (acquireEnv environment "upgrade-op") with
    | .ok (some lease) =>
      lockEnvironments upgrade environments (held ++ [(environment, lease.fencingToken)])
    | .ok none => do
      releaseEnvironmentLeases held
      throw s!"environment {environment} of upgrade {upgrade} has an operation in progress; retry"
    | .error error => do
      releaseEnvironmentLeases held
      throw error

/-- An operation under the leases of `environments`, released however it ends. -/
def locking (upgrade : String) (environments : List String)
    (operation : HeldEnvironments → M UpgradeRecord) : M UpgradeRecord := do
  let held ← lockEnvironments upgrade environments []
  let result ← caught (operation held)
  releaseEnvironmentLeases held
  returned result

/-! #### The record -/

def validIdentifier (value : String) : Bool :=
  match value.toList with
  | [] => false
  | first :: rest => first.isAlphanum && rest.all fun ch =>
    ch.isAlphanum || ch = '.' || ch = '_' || ch = '-' || ch = '+'

def validateIdentifier (label value : String) : M Unit :=
  bailIf (validIdentifier value = false)
    s!"{label} must start with an ASCII letter or digit and contain only letters, digits, '.', '_', '-', or '+'"

def loadUpgrade (name : String) (purpose : Purpose) : M UpgradeRecord := do
  require .schemaReady "the connectivity upgrade schema is not ready"
  validateIdentifier "upgrade name" name
  match ← getUpgrade purpose with
  | some record => return record
  | none => throw s!"upgrade {name} is not registered"

def upgradeWriteAttempts : Nat := 50

/-- The lease of the record, asked for again while another writer has it. -/
def acquireUpgradeWrite (name : String) : (attempts : Nat) → M Lease
  | 0 => throw s!"upgrade {name} is being updated by another writer; retry"
  | attempts + 1 => do
    match ← acquireWrite "upgrade-write" with
    | some lease => return lease
    | none => acquireUpgradeWrite name attempts

/-- The operation must still hold each environment it changes. -/
def refreshHeld : HeldEnvironments → M Unit
  | [] => pure ()
  | (environment, token) :: leases => do
    match ← caught (refreshEnv environment token) with
    | .ok _ => refreshHeld leases
    | .error _ => throw s!"operation lease on {environment} was lost; not recording"

/-- The write of `persist`, under the lease of the record. -/
def writeMerged (held : HeldEnvironments) (base modified : UpgradeRecord) (token : FencingToken) :
    M UpgradeRecord := do
  ensureHeld
  refreshHeld held
  let current ← loadUpgrade modified.name .merge
  let merged ← returned (mergeUpgrade base modified current)
  guardedUpdate merged token held.names
  return merged

/-- Write `modified` back as a change to `base`, the record as this operation read it. -/
def persist (held : HeldEnvironments) (base modified : UpgradeRecord) : M UpgradeRecord := do
  let lease ← acquireUpgradeWrite modified.name (upgradeWriteAttempts + 1)
  let written ← caught (writeMerged held base modified lease.fencingToken)
  let _ ← caught (releaseWrite lease.fencingToken)
  returned written

/-- The environments still have the classes they were admitted with. -/
def revalidateClasses : List UpgradeEnvironmentRecord → M Unit
  | [] => pure ()
  | environment :: environments => do
    let class_ ← connectivityClass environment.name
    if class_ ≠ environment.class_ then
      throw s!"environment {environment.name} connectivity class changed"
    else revalidateClasses environments

def revalidate (record : UpgradeRecord) : M Unit := do
  let pin ← resolveReleasePin
    ⟨record.name, record.product, record.version, record.channel,
      record.environments.map (·.name)⟩
  if pin.releaseDigest ≠ record.releaseDigest ∨ pin.artifactDigest ≠ record.artifactDigest then
    throw s!"pinned release content changed under upgrade {record.name}"
  else revalidateClasses record.environments

def envIndex (record : UpgradeRecord) (environment : String) :
    M (Nat × UpgradeEnvironmentRecord) :=
  match position (·.name = environment) record.environments with
  | some found => pure found
  | none => throw s!"upgrade does not include environment {environment}"

/-! #### Plans -/

/-- The id of the environment's plan, which is loaded, or made if none is recorded. -/
def ensurePlan (entry : UpgradeEnvironmentRecord) : M String :=
  match entry.planId with
  | some planId => do
    let _ ← getPlan planId
    return planId
  | none => createPlan entry.name none

/-- `apply::execute_with_options`. The state is looked at when the plan is loaded, before the
    environment's lease is claimed, and not again. -/
def executeWithOptions (planId : String) : M Unit := do
  let state ← getPlan planId
  bailIf (state ≠ .computed ∧ state ≠ .blocked)
    s!"plan {planId} is {state}; only computed or blocked plans can be applied"
  require (.planAdmitted planId) "the plan is not admitted for execution"
  if ← startPlan planId then finishPlan planId else pure ()

def applyPlan (planId : String) : M Unit := do
  require .executorsSelected "no executors are selected"
  executeWithOptions planId
  let state ← getPlan planId
  bailIf (state = .failed) s!"plan {planId} failed during connectivity-class apply"

def currentGeneration (environment : String) : M Nat := do
  let generation ← leaseGeneration environment
  return generation.getD 1

/-! #### Calls -/

def admitEnvironments : List String → M (List UpgradeEnvironmentRecord)
  | [] => pure []
  | name :: names => do
    let class_ ← connectivityClass name
    require (.environmentKnown name) s!"environment {name} has conflicting identity"
    let planId ← createPlan name none
    let entries ← admitEnvironments names
    return ⟨name, class_, .pending, some planId, "awaiting class adapter", none, none⟩ :: entries

/-- Every environment is well named, and none is there twice. -/
def validateCohort (seen : List String) : List String → M Unit
  | [] => pure ()
  | environment :: environments => do
    validateIdentifier "environment" environment
    bailIf (environment ∈ seen) s!"upgrade cohort contains duplicate environment {environment}"
    validateCohort (environment :: seen) environments

def UpgradeSpec.validate (spec : UpgradeSpec) : M Unit := do
  validateIdentifier "upgrade name" spec.name
  validateIdentifier "product" spec.product
  validateIdentifier "version" spec.version
  validateIdentifier "channel" spec.channel
  bailIf (spec.environments = []) "upgrade cohort must not be empty"
  validateCohort [] spec.environments

def startOrResume (spec : UpgradeSpec) : M UpgradeRecord := do
  require .schemaReady "the connectivity upgrade schema is not ready"
  spec.validate
  let pin ← resolveReleasePin spec
  let identity : UpgradeIdentity := ⟨spec, pin⟩
  match ← getUpgrade .look with
  | some record =>
    if record.identity ≠ identity then
      throw s!"upgrade {spec.name} already exists with a conflicting identity"
    else return record
  | none => do
    let environments ← admitEnvironments spec.environments
    let record : UpgradeRecord := {
      name := spec.name
      identity
      product := spec.product
      version := spec.version
      channel := spec.channel
      releaseId := pin.releaseId
      releaseDigest := pin.releaseDigest
      artifactDigest := pin.artifactDigest
      status := .admitted
      environments }
    createUpgrade record
    return record

def newCheckpoint (record : UpgradeRecord) (planId : String) (generation : Nat) :
    TransferCheckpoint where
  planId
  planDigest := record.releaseDigest
  releaseDigest := record.releaseDigest
  artifactDigest := record.artifactDigest
  generation
  verified := false

def interrupted (record : UpgradeRecord) (index : Nat) (planId detail : String)
    (transfer : Option TransferCheckpoint) : UpgradeRecord :=
  { record.edit index fun environment => { environment with
      status := .interrupted, planId := some planId, detail, transfer }
    with status := .interrupted }

def conflicted (record : UpgradeRecord) (index : Nat) (detail : String) : UpgradeRecord :=
  { record.edit index fun environment => { environment with status := .conflicted, detail }
    with status := .conflicted }

/-- A conflict is recorded, and refuses with what was stored. -/
def persistConflict (held : HeldEnvironments) (base modified : UpgradeRecord) (index : Nat) :
    M UpgradeRecord := do
  let record ← persist held base modified
  throw (record.detailAt index)

def interruptTransferLocked (held : HeldEnvironments) (name environment : String) :
    M UpgradeRecord := do
  let base ← loadUpgrade name .look
  let (index, entry) ← envIndex base environment
  bailIf (entry.class_ ≠ .intermittent) s!"environment {environment} is not intermittent"
  bailIf (entry.status = .applied) s!"environment {environment} already applied"
  let planId ← ensurePlan entry
  let generation ← currentGeneration environment
  persist held base (interrupted base index planId
    "transfer interrupted before verified content boundary"
    (some (newCheckpoint base planId generation)))

def interruptTransfer (name environment : String) : M UpgradeRecord :=
  locking name [environment] fun held => interruptTransferLocked held name environment

def resumeTransferLocked (held : HeldEnvironments) (name environment : String) :
    M UpgradeRecord := do
  let base ← loadUpgrade name .look
  revalidate base
  let (index, entry) ← envIndex base environment
  bailIf (entry.class_ ≠ .intermittent) s!"environment {environment} is not intermittent"
  let generation ← currentGeneration environment
  match entry.transfer with
  | none => throw s!"environment {environment} has no transfer checkpoint to resume"
  | some checkpoint =>
    if checkpoint.generation ≠ generation then
      persistConflict held base
        (conflicted base index "stale fencing generation cannot resume an interrupted transfer")
        index
    else if checkpoint.releaseDigest ≠ base.releaseDigest ∨
        checkpoint.artifactDigest ≠ base.artifactDigest then
      throw "interrupted transfer no longer matches the pinned release content"
    else
      persist held base (base.edit index fun environment => { environment with
        transfer := some { checkpoint with verified := true }
        detail := "transfer verified; ready to apply" })

def resumeTransfer (name environment : String) : M UpgradeRecord :=
  locking name [environment] fun held => resumeTransferLocked held name environment

def advancedStatus (record : UpgradeRecord) : UpgradeStatus :=
  if record.environments.all (·.status = .applied) then .succeeded
  else if record.status = .interrupted ∨ record.status = .conflicted ∨ record.status = .failed then
    record.status
  else summarize record

def persistAdvanced (held : HeldEnvironments) (base modified : UpgradeRecord) : M UpgradeRecord :=
  persist held base { modified with status := advancedStatus modified }

/-- Apply the environment's plan, and record that it is applied. -/
def applyAndRecord (held : HeldEnvironments) (base record : UpgradeRecord) (index : Nat)
    (planId detail : String) : M UpgradeRecord := do
  ensureHeld
  applyPlan planId
  persistAdvanced held base (record.markApplied index detail)

def advanceEnvironment (held : HeldEnvironments) (base : UpgradeRecord) (index : Nat)
    (entry : UpgradeEnvironmentRecord) : M UpgradeRecord := do
  ensureHeld
  let planId ← ensurePlan entry
  let record := { base.edit index fun environment => { environment with planId := some planId }
    with status := .running }
  match entry.class_ with
  | .connected => applyAndRecord held base record index planId "connected apply completed"
  | .intermittent => do
    let generation ← currentGeneration entry.name
    match entry.transfer with
    | none =>
      persistAdvanced held base (interrupted record index planId
        "intermittent transfer requires resume after verified content"
        (some (newCheckpoint record planId generation)))
    | some checkpoint =>
      if checkpoint.verified = false then
        persistAdvanced held base (interrupted record index planId
          "intermittent transfer is not yet verified" entry.transfer)
      else if checkpoint.generation ≠ generation then
        persistConflict held base
          (conflicted record index "stale fencing generation rejected reconnecting runtime")
          index
      else
        applyAndRecord held base record index planId
          "intermittent apply resumed after verified transfer"
  | .isolated =>
    match entry.isolated with
    | none =>
      persistAdvanced held base (interrupted record index planId
        "isolated environment requires a verified offline bundle" entry.transfer)
    | some evidence =>
      if evidence.receiptDigest = none then
        persistAdvanced held base (interrupted record index planId
          "isolated environment requires a signed receipt import" entry.transfer)
      else
        applyAndRecord held base record index planId "isolated receipt imported and applied"

def advanceLocked (held : HeldEnvironments) (name target : String) : M UpgradeRecord := do
  let base ← loadUpgrade name .look
  revalidate base
  match position (fun entry => entry.name = target && entry.needsWork) base.environments with
  | none => persist held base { base with status := summarize base }
  | some (index, entry) => advanceEnvironment held base index entry

def advance (name : String) : M UpgradeRecord := do
  let record ← loadUpgrade name .look
  match position (·.needsWork) record.environments with
  | some (_, entry) =>
    -- an environment without a name is not leased
    if entry.name = "" then advanceLocked [] name ""
    else locking name [entry.name] fun held => advanceLocked held name entry.name
  | none => advanceLocked [] name ""

def bindIsolatedBundleLocked (held : HeldEnvironments) (name environment : String)
    (bundle : BundleEnvelope) : M UpgradeRecord := do
  let scan ← scan bundle
  ensureHeld
  require (.bundleVerified bundle) "the offline bundle does not verify"
  let base ← loadUpgrade name .look
  revalidate base
  let (index, entry) ← envIndex base environment
  bailIf (entry.class_ ≠ .isolated) s!"environment {environment} is not isolated"
  bailIf (entry.planId = none) s!"isolated environment {environment} has no plan"
  bailIf (entry.planId ≠ some bundle.planId)
    s!"offline bundle plan {bundle.planId} does not match upgrade plan"
  bailIf (∃ evidence ∈ entry.isolated, evidence.bundleDigest ≠ bundle.digest)
    "isolated bundle digest conflict"
  ensureHeld
  require (.contentImported bundle) "the content of the bundle is not imported"
  let modified := base.edit index fun entry => { entry with
    isolated := some {
      bundleDigest := bundle.digest
      receiptDigest := entry.isolated.bind (·.receiptDigest)
      planDigest := some bundle.planDigest
      approvalDigest := some bundle.approvalDigest
      scan
      receipt := entry.isolated.bind (·.receipt) }
    detail := "verified offline bundle bound" }
  require (.exposureImported bundle) "the exposure inventory is not imported"
  let record ← persist held base modified
  require (.importRecorded environment) "the import is not recorded"
  return record

def bindIsolatedBundle (name environment : String) (bundle : BundleEnvelope) : M UpgradeRecord :=
  locking name [environment] fun held => bindIsolatedBundleLocked held name environment bundle

def importIsolatedReceiptLocked (held : HeldEnvironments) (name environment : String)
    (receipt : ReceiptEnvelope) (bundle : BundleEnvelope) : M UpgradeRecord := do
  bailIf (receipt.keyId = bundle.keyId) "offline receipt must not be signed by the bundle exporter"
  require (.bundleVerified bundle) "the offline bundle does not verify"
  require (.receiptVerified receipt bundle) "the offline receipt does not verify"
  bailIf (receipt.succeeded = false) "offline receipt is not a successful completion"
  let base ← loadUpgrade name .look
  revalidate base
  let (index, entry) ← envIndex base environment
  bailIf (entry.class_ ≠ .isolated) s!"environment {environment} is not isolated"
  match entry.isolated with
  | none => throw s!"isolated environment {environment} has no bound bundle"
  | some evidence => do
    bailIf (evidence.bundleDigest ≠ bundle.digest)
      "imported receipt does not bind the stored offline bundle"
    match evidence.receiptDigest with
    | some existing =>
      if existing = receipt.digest then
        persist held base (base.edit index fun entry => { entry with
          isolated := some { evidence with receipt := some (evidence.receipt.getD receipt) }
          detail := "duplicate isolated receipt import is idempotent" })
      else
        persistConflict held base (conflicted base index
          s!"conflicting isolated receipt cannot overwrite first accepted {existing}") index
    | none =>
      persist held base (base.edit index fun entry => { entry with
        isolated := some { evidence with
          receiptDigest := some receipt.digest, receipt := some receipt }
        detail := "isolated receipt accepted" })

def importIsolatedReceipt (name environment : String) (receipt : ReceiptEnvelope)
    (bundle : BundleEnvelope) : M UpgradeRecord :=
  locking name [environment] fun held =>
    importIsolatedReceiptLocked held name environment receipt bundle

def recoveryRequired (record : UpgradeRecord) (index : Nat) (detail : String) : UpgradeRecord :=
  { record.edit index fun environment => { environment with status := .recoveryRequired, detail }
    with status := .recoveryRequired }

/-- The plan that rolls back one environment is made and applied; `Except` tells the failures that
    are recorded from those that end the call. -/
def rollbackEnvironment (environment product : String) : M (Except String Unit) := do
  match ← caught (rollbackStep environment product) with
  | .error error => return .error s!"rollback plan unavailable; recovery-required: {error}"
  | .ok _ => do
    let planId ← createPlan environment (some product)
    ensureHeld
    match ← caught (applyPlan planId) with
    | .error error => return .error s!"rollback failed; recovery-required: {error}"
    | .ok _ => return .ok ()

/-- The environments at `indices` that are applied and locked are rolled back in turn. -/
def rollbackEnvironments (held : HeldEnvironments) (locked : List String) (base : UpgradeRecord) :
    List Nat → UpgradeRecord → M UpgradeRecord
  | [], record => persist held base { record with status := .rolledBack }
  | index :: indices, record =>
    match record.environments[index]? with
    | none => rollbackEnvironments held locked base indices record
    | some entry =>
      if entry.status ≠ .applied ∨ entry.name ∉ locked then
        rollbackEnvironments held locked base indices record
      else do
        ensureHeld
        match ← rollbackEnvironment entry.name record.product with
        | .ok _ =>
          rollbackEnvironments held locked base indices (record.edit index fun environment =>
            { environment with
              status := .rolledBack, detail := "rolled back through Tenkai plan" })
        | .error detail => persist held base (recoveryRequired record index detail)

def rollbackUpgradeLocked (held : HeldEnvironments) (name : String) (locked : List String) :
    M UpgradeRecord := do
  let base ← loadUpgrade name .rollback
  rollbackEnvironments held locked base (List.range base.environments.length).reverse base

/-- Roll back every applied environment. All of the upgrade's environments are leased before the
    applied ones are chosen. -/
def rollbackUpgrade (name : String) : M UpgradeRecord := do
  let record ← loadUpgrade name .look
  let environments := record.environments.map (·.name)
  locking name environments fun held => rollbackUpgradeLocked held name environments

/-- What is called on the upgrade. The thread that renews a lease, and an ordinary apply of a plan,
    are calls of their own. -/
inductive Call
  | startOrResume (spec : UpgradeSpec)
  | interruptTransfer (name environment : String)
  | resumeTransfer (name environment : String)
  | advance (name : String)
  | bindIsolatedBundle (name environment : String) (bundle : BundleEnvelope)
  | importIsolatedReceipt (name environment : String) (receipt : ReceiptEnvelope)
      (bundle : BundleEnvelope)
  | rollbackUpgrade (name : String)
  | renew (environment : String) (token : FencingToken)
  | execute (planId : String)

def discard {α : Type} (x : M α) : Prog interface Unit := x.run >>= fun _ => pure ()

def program : Call → Prog interface Unit
  | .startOrResume spec => discard (startOrResume spec)
  | .interruptTransfer name environment => discard (interruptTransfer name environment)
  | .resumeTransfer name environment => discard (resumeTransfer name environment)
  | .advance name => discard (advance name)
  | .bindIsolatedBundle name environment bundle =>
    discard (bindIsolatedBundle name environment bundle)
  | .importIsolatedReceipt name environment receipt bundle =>
    discard (importIsolatedReceipt name environment receipt bundle)
  | .rollbackUpgrade name => discard (rollbackUpgrade name)
  | .renew environment token => discard (refreshEnv environment token)
  | .execute planId => discard (executeWithOptions planId)

end Tenkai.Connectivity
