import Tenkai.Lease
import Tenkai.Plan
import Tenkai.Pool

/-!
# Package migrations

A package migration takes an environment from one release to another over ordered checkpoints
(`package_migration.rs`). Its record is read, changed in memory and written back whole, under an
execution lease taken after the read; a lock object keeps other applies off the environment. This
file is the code: the store, its operations, and the calls.
-/

namespace Tenkai.Migration

open Prog (bailIf)

/-! ### Records -/

inductive CheckpointClass
  | reversible
  | compensating
  | irreversible
  deriving DecidableEq

inductive MigrationStatus
  | admitted
  | running
  | succeeded
  | failed
  | rolledBack
  | recoveryRequired
  deriving DecidableEq

/-- `checkpoint_effect` names one of two. -/
inductive Effect
  | revalidate
  | applyTarget
  deriving DecidableEq

def checkpointEffect : CheckpointClass → Effect
  | .compensating => .applyTarget
  | .reversible | .irreversible => .revalidate

/-- The two values that `result` is ever given. -/
inductive ReceiptResult
  | accepted
  | rolledBack
  deriving DecidableEq

structure PackagePin where
  product : String
  version : String
  digest : String
  deriving DecidableEq

structure CheckpointDecl where
  id : String
  class_ : CheckpointClass
  deriving DecidableEq

structure MigrationDeclaration where
  source : PackagePin
  target : PackagePin
  checkpoints : List CheckpointDecl
  deriving DecidableEq

structure CheckpointReceipt where
  checkpointId : String
  class_ : CheckpointClass
  effect : Effect
  result : ReceiptResult
  fenceGeneration : Nat
  planId : Option String
  deriving DecidableEq

structure MigrationRecord where
  name : String
  environment : String
  partition : Option String
  identityDigest : String
  declaration : MigrationDeclaration
  approvalDigest : String
  fenceGeneration : Nat
  status : MigrationStatus
  receipts : List CheckpointReceipt
  backupReceiptDigest : Option String
  pendingPlanId : Option String
  pendingRollbackPlanId : Option String
  deriving DecidableEq

/-- What `catalog_id` and `exec_lease_name` are made of. Identifiers hold no colon, so the ids are
    as different as these. -/
structure RecordKey where
  partition : Option String
  name : String
  deriving DecidableEq

/-- What `package_migration_lock_id_in` is made of. -/
structure LockKey where
  partition : Option String
  environment : String
  deriving DecidableEq

def partitionOf (partition : Option String) : Option String := partition.filter (· ≠ "")

def catalogId (partition : Option String) (name : String) : RecordKey := ⟨partitionOf partition, name⟩

def recordCatalogId (record : MigrationRecord) : RecordKey := catalogId record.partition record.name

def packageMigrationLockIdIn (partition : Option String) (environment : String) : LockKey :=
  ⟨partitionOf partition, environment⟩

def packageMigrationLockId (environment : String) : LockKey :=
  packageMigrationLockIdIn none environment

def recordLockId (record : MigrationRecord) : LockKey :=
  packageMigrationLockIdIn record.partition record.environment

/-- The lock object of an environment. -/
structure MigrationLock where
  owner : String
  allowedPlanId : Option String
  deriving DecidableEq

def migrationOwner (name : String) : String := s!"package-migration:{name}"

/-- An environment's lease as its claimant keeps it. -/
structure EnvironmentLease where
  environment : String
  owner : String
  fencingToken : FencingToken

/-! ### The store -/

/-- Account of a grant of the execution lease: what generation the call expected, and what record
    was stored then. -/
structure ExecGrant where
  key : RecordKey
  expected : Option Nat
  stored : Option MigrationRecord

/-- Account of an effect that was begun: of which checkpoint, and what had been written before. -/
structure BegunEffect where
  key : RecordKey
  checkpointId : String
  before : List MigrationRecord

structure Hub where
  records : RecordKey → Option MigrationRecord
  /-- The lease `MIGRATION_EXEC_NAMESPACE` of every migration. -/
  execLease : RecordKey → LeaseRow
  /-- The lease of every environment. -/
  envLease : String → LeaseRow
  locks : LockKey → Option MigrationLock
  /-- Account: every version of a record that was stored, the last one first. -/
  history : RecordKey → List MigrationRecord
  grants : List ExecGrant
  effects : List BegunEffect

/-- A store with migrations in it, none of them at work. -/
def Hub.idle (records : RecordKey → Option MigrationRecord) : Hub where
  records := records
  execLease _ := .vacant
  envLease _ := .vacant
  locks _ := none
  history key := (records key).toList
  grants := []
  effects := []

/-! ### Operations -/

/-- What is decided outside the store's migrations and leases. -/
inductive Question
  | schemaReady
  | identifiersValid
  | declarationAdmitted
  | trustedTime
  | retired
  | legacyClaim
  /-- A link to an object-backed claim is there. -/
  | objectClaimLinked
  | objectClaimReleased
  | claimRecorded
  | claimMarkedReleased
  | runtimeManaged
  | pinsValid
  /-- The deployed version is the target. -/
  | atTarget
  /-- A signed approval of the plan lies beside that of the migration. -/
  | planApprovalPresent (planId : String)
  | executorsSelected
  | planAdmitted (planId : String)
  | planExecuted (planId : String)
  deriving DecidableEq

inductive Authorization
  | localDevelopment (reason : String)
  | signed (approval trustRoots : String)
  deriving DecidableEq

/-- What of a stored plan is looked at. -/
structure PlanView where
  environment : String
  state : PlanState

/-- Some operations carry an account of what the call knows: the versions of the record it read or
    wrote, the lock it looked at, the lease it claimed. -/
inductive Op
  | decide (question : Question)
  | nowMillis
  | approvalDigest (record : MigrationRecord) (authorization : Authorization)
  | getPlan (planId : String)
  | createPinPlan (record : MigrationRecord) (pin : PackagePin)
  | getRecord (key : RecordKey)
  | createRecord (key : RecordKey) (record : MigrationRecord)
  | putRecord (key : RecordKey) (record : MigrationRecord) (known : List MigrationRecord)
  | acquireExec (key : RecordKey) (expected : Option Nat) (known : List MigrationRecord)
  | refreshExec (key : RecordKey) (token : FencingToken)
  | releaseExec (key : RecordKey) (token : FencingToken)
  | beginEffect (key : RecordKey) (checkpointId : String) (known : List MigrationRecord)
  | getLock (key : LockKey)
  | createLock (key : LockKey) (lock : MigrationLock) (lease : EnvironmentLease)
  | putLock (key : LockKey) (lock : MigrationLock)
  | deleteLock (key : LockKey)
  | getEnv (environment : String)
  | acquireEnv (environment owner : String) (ttlMs : Int) (seen : Option MigrationLock)
  | takeoverEnv (environment owner : String) (expectedToken : FencingToken)
      (expectedExpiresAt ttlMs : Int) (seen : Option MigrationLock)
  | refreshEnv (lease : EnvironmentLease) (ttlMs : Int)
  | releaseEnv (lease : EnvironmentLease)

def Op.Answer : Op → Type
  | .decide _ => Except String Bool
  | .approvalDigest _ _ => Except String String
  | .getPlan _ => Except String PlanView
  | .createPinPlan _ _ => Except String String
  | _ => Unit

/-- The clock when an operation takes place, whether it fails, and what is answered from outside.
    Nothing is assumed of the clock. -/
structure Turn (op : Op) where
  now : Int
  fault : Fault
  answer : op.Answer

def Op.Value : Op → Type
  | .decide _ => Bool
  | .nowMillis => Int
  | .approvalDigest _ _ => String
  | .getPlan _ => PlanView
  | .createPinPlan _ _ => String
  | .getRecord _ => Option MigrationRecord
  -- a lease that is taken is not an error of the store
  | .acquireExec _ _ _ => Option Lease
  | .getLock _ => Option MigrationLock
  | .getEnv _ => Option Lease
  | .acquireEnv _ _ _ _ => Option Lease
  | .takeoverEnv _ _ _ _ _ _ => Lease
  | _ => Unit

abbrev interface : Interface where
  Op := Op
  Choice := Turn
  Reply op := Except String op.Value

def unavailable : String := "store unavailable"

def notHolder : String := "embedded lease is not the active fenced holder"

namespace Hub

variable (s : Hub)

def setExec (key : RecordKey) (row : LeaseRow) : Hub :=
  { s with execLease := Function.update s.execLease key row }

def setEnv (environment : String) (row : LeaseRow) : Hub :=
  { s with envLease := Function.update s.envLease environment row }

def setLock (key : LockKey) (lock : Option MigrationLock) : Hub :=
  { s with locks := Function.update s.locks key lock }

def store (key : RecordKey) (record : MigrationRecord) : Hub :=
  { s with
    records := Function.update s.records key (some record)
    history := Function.update s.history key (record :: s.history key) }

end Hub

def migrationExecTtlMs : Int := 2 * 60 * 60 * 1000

def effect (thread : Nat) (now : Int) (s : Hub) :
    (op : Op) → op.Answer → Except String op.Value × Hub
  | .decide _, answer => (answer, s)
  | .nowMillis, _ => (.ok now, s)
  | .approvalDigest _ _, answer => (answer, s)
  | .getPlan _, answer => (answer, s)
  | .createPinPlan _ _, answer => (answer, s)
  | .getRecord key, _ => (.ok (s.records key), s)
  | .createRecord key record, _ =>
    match s.records key with
    | some _ => (.error "object already exists", s)
    | none => (.ok (), s.store key record)
  | .putRecord key record _, _ => (.ok (), s.store key record)
  | .acquireExec key expected _, _ =>
    match (s.execLease key).acquire thread "execute" migrationExecTtlMs now with
    | some granted => (.ok (some granted.1), { s.setExec key granted.2 with
        grants := ⟨key, expected, s.records key⟩ :: s.grants })
    | none => (.ok none, s)
  | .refreshExec key token, _ =>
    match (s.execLease key).refresh token migrationExecTtlMs now with
    | some refreshed => (.ok (), s.setExec key refreshed.2)
    | none => (.error notHolder, s)
  | .releaseExec key token, _ =>
    match (s.execLease key).release token now with
    | some row => (.ok (), s.setExec key row)
    | none => (.error notHolder, s)
  | .beginEffect key checkpointId _, _ =>
    (.ok (), { s with effects := ⟨key, checkpointId, s.history key⟩ :: s.effects })
  | .getLock key, _ => (.ok (s.locks key), s)
  | .createLock key lock _, _ =>
    match s.locks key with
    | some _ => (.error "object already exists", s)
    | none => (.ok (), s.setLock key (some lock))
  | .putLock key lock, _ => (.ok (), s.setLock key (some lock))
  | .deleteLock key, _ => (.ok (), s.setLock key none)
  | .getEnv environment, _ => (.ok (s.envLease environment).current, s)
  | .acquireEnv environment owner ttlMs _, _ =>
    match (s.envLease environment).acquire thread owner ttlMs now with
    | some granted => (.ok (some granted.1), s.setEnv environment granted.2)
    | none => (.ok none, s)
  | .takeoverEnv environment owner token expiresAt ttlMs _, _ =>
    match (s.envLease environment).takeover thread owner token expiresAt ttlMs now with
    | some granted => (.ok granted.1, s.setEnv environment granted.2)
    | none => (.error notHolder, s)
  | .refreshEnv lease ttlMs, _ =>
    match (s.envLease lease.environment).refresh lease.fencingToken ttlMs now with
    | some refreshed => (.ok (), s.setEnv lease.environment refreshed.2)
    | none => (.error notHolder, s)
  | .releaseEnv lease, _ =>
    match (s.envLease lease.environment).release lease.fencingToken now with
    | some row => (.ok (), s.setEnv lease.environment row)
    | none => (.error notHolder, s)

/-- Beginning an effect is the caller's own, and does not fail. -/
def faultOf : Op → Fault → Fault
  | .beginEffect _ _ _, _ => .none
  | _, fault => fault

def exec (thread : Nat) : Exec interface Hub := fun op turn s =>
  (faultOf op turn.fault).run unavailable s (effect thread turn.now s op turn.answer)

/-! ### Programs -/

abbrev M : Type → Type := ExceptT String (Prog interface)

def ask (op : Op) : M op.Value := ExceptT.mk (.ask op .done)

namespace M

def decide (question : Question) : M Bool := ask (.decide question)

def nowMillis : M Int := ask .nowMillis

def approvalDigest (record : MigrationRecord) (authorization : Authorization) : M String :=
  ask (.approvalDigest record authorization)

def createPinPlan (record : MigrationRecord) (pin : PackagePin) : M String :=
  ask (.createPinPlan record pin)

def getRecord (key : RecordKey) : M (Option MigrationRecord) := ask (.getRecord key)

def createRecord (key : RecordKey) (record : MigrationRecord) : M Unit :=
  ask (.createRecord key record)

def putRecord (key : RecordKey) (record : MigrationRecord) (known : List MigrationRecord) :
    M Unit :=
  ask (.putRecord key record known)

def acquireExec (key : RecordKey) (expected : Option Nat) (known : List MigrationRecord) :
    M (Option Lease) :=
  ask (.acquireExec key expected known)

def refreshExec (key : RecordKey) (token : FencingToken) : M Unit := ask (.refreshExec key token)

def releaseExec (key : RecordKey) (token : FencingToken) : M Unit := ask (.releaseExec key token)

def beginEffect (key : RecordKey) (checkpointId : String) (known : List MigrationRecord) : M Unit :=
  ask (.beginEffect key checkpointId known)

def getLock (key : LockKey) : M (Option MigrationLock) := ask (.getLock key)

def createLock (key : LockKey) (lock : MigrationLock) (lease : EnvironmentLease) : M Unit :=
  ask (.createLock key lock lease)

def putLock (key : LockKey) (lock : MigrationLock) : M Unit := ask (.putLock key lock)

def deleteLock (key : LockKey) : M Unit := ask (.deleteLock key)

def getEnv (environment : String) : M (Option Lease) := ask (.getEnv environment)

def acquireEnv (environment owner : String) (ttlMs : Int) (seen : Option MigrationLock) :
    M (Option Lease) :=
  ask (.acquireEnv environment owner ttlMs seen)

def takeoverEnv (environment owner : String) (token : FencingToken) (expiresAt ttlMs : Int)
    (seen : Option MigrationLock) : M Lease :=
  ask (.takeoverEnv environment owner token expiresAt ttlMs seen)

def refreshEnv (lease : EnvironmentLease) (ttlMs : Int) : M Unit := ask (.refreshEnv lease ttlMs)

def releaseEnv (lease : EnvironmentLease) : M Unit := ask (.releaseEnv lease)

/-- The result of `x` as a value, for code that looks at it before it returns. -/
def caught {α : Type} (x : M α) : M (Except String α) := ExceptT.lift x.run

def returned {α : Type} (result : Except String α) : M α := ExceptT.mk (.done result)

def require (question : Question) (refusal : String) : M Unit := do
  if ← decide question then pure () else throw refusal

end M

open M

def loadPlan (planId : String) : M PlanView := do
  bailIf (planId = "") "plan is not stored"
  ask (.getPlan planId)

/-! #### The lease of an environment -/

/-- The claimant is of the migration at work, or applies the plan it lets in. An absent plan is
    read as the empty id. -/
def MigrationLock.admits (lock : MigrationLock) (owner : String) : Bool :=
  owner = lock.allowedPlanId.getD "" || owner = migrationOwner lock.owner

/-- What was looked at is returned, for the account. -/
def rejectForeignMigrationLock (environment owner : String) : M (Option MigrationLock) := do
  match ← getLock (packageMigrationLockId environment) with
  | none => return none
  | some lock => do
    bailIf (lock.admits owner = false)
      s!"environment {environment} has package migration {lock.owner} in progress"
    return some lock

def rejectOlderClaims (environment : String) (now : Int) : M Unit := do
  if ← decide .legacyClaim then
    throw s!"environment {environment} already has a legacy apply in progress"
  else if ← decide .objectClaimLinked then
    match ← getEnv environment with
    | some existing =>
      if existing.status = .active then
        bailIf (now < existing.expiresAtMs)
          s!"environment {environment} already has an apply in progress owned by {existing.owner}"
      else
        require .objectClaimReleased "an object-backed apply lease is without an active lease"
    | none => require .objectClaimReleased "an object-backed apply lease is without an active lease"
  else pure ()

/-- Without automatic takeover an expired lease is not reclaimed. -/
def rejectExpiredHolder (environment : String) (automaticTakeover : Bool) (now : Int) : M Unit :=
  if automaticTakeover then pure ()
  else do
    match ← getEnv environment with
    | some existing =>
      bailIf (existing.status = .active ∧ existing.expiresAtMs ≤ now)
        s!"environment {environment} has an expired apply lease"
    | none => pure ()

def acquireOrTakeover (environment owner : String) (ttlMs : Int) (automaticTakeover : Bool)
    (now : Int) (seen : Option MigrationLock) : M Lease := do
  match ← acquireEnv environment owner ttlMs seen with
  | some lease => return lease
  | none =>
    match ← getEnv environment with
    | some existing =>
      if existing.status = .active ∧ existing.expiresAtMs ≤ now then
        if automaticTakeover then
          takeoverEnv environment owner existing.fencingToken existing.expiresAtMs ttlMs seen
        else throw s!"environment {environment} has an expired apply lease"
      else
        throw s!"environment {environment} already has an apply in progress owned by {existing.owner}"
    | none => throw "lease already exists"

def releaseEnvironment (lease : EnvironmentLease) : M Unit := do
  let _ ← decide .claimMarkedReleased
  releaseEnv lease

def claimEnvironmentWithOptions (environment owner : String) (ttlMs : Int)
    (automaticTakeover : Bool) : M EnvironmentLease := do
  require .trustedTime "the clock is not trusted"
  let now ← nowMillis
  if ← decide .retired then
    throw s!"retired environment {environment} cannot accept new apply leases"
  else
    let seen ← rejectForeignMigrationLock environment owner
    rejectOlderClaims environment now
    rejectExpiredHolder environment automaticTakeover now
    let granted ← acquireOrTakeover environment owner ttlMs automaticTakeover now seen
    let lease : EnvironmentLease := ⟨environment, owner, granted.fencingToken⟩
    match ← caught (decide .claimRecorded) with
    | .error error => do
      let _ ← caught (releaseEnv lease)
      throw error
    | .ok _ =>
      match ← caught (rejectForeignMigrationLock environment owner) with
      | .error error => do
        let _ ← caught (releaseEnv lease)
        throw error
      | .ok _ => return lease

def environmentLeaseMs : Int := 2 * 60 * 60 * 1000

def executionLeaseMs : Int := 30000

def claimEnvironment (environment owner : String) : M EnvironmentLease :=
  claimEnvironmentWithOptions environment owner environmentLeaseMs false

def claimExecutionEnvironment (environment owner : String) : M EnvironmentLease := do
  let lease ← claimEnvironmentWithOptions environment owner executionLeaseMs true
  match ← caught (decide .runtimeManaged) with
  | .ok false => return lease
  | .ok true => do
    releaseEnvironment lease
    throw s!"environment {environment} is runtime-managed; its enrolled runtime runs its plans"
  | .error error => do
    releaseEnvironment lease
    throw error

/-- An apply at work under its lease, which is renewed beside its steps. -/
def executeLocked (lease : EnvironmentLease) (planId : String) : (renewals : Nat) → M Unit
  | 0 => require (.planExecuted planId) "the plan failed"
  | renewals + 1 => do
    refreshEnv lease executionLeaseMs
    executeLocked lease planId renewals

/-- `apply::execute_with_options`: the lease's owner is the plan. -/
def executeWithOptions (planId : String) (renewals : Nat) : M Unit := do
  let plan ← loadPlan planId
  require (.planAdmitted planId) "the plan is not admitted for execution"
  let lease ← claimExecutionEnvironment plan.environment planId
  let result ← caught (executeLocked lease planId renewals)
  releaseEnvironment lease
  returned result

/-! #### The lock -/

def authorizePlanOnLock (record : MigrationRecord) (planId : String) : M Unit := do
  match ← getLock (recordLockId record) with
  | none => throw s!"package migration lock for {record.environment} is missing"
  | some lock => putLock (recordLockId record) { lock with allowedPlanId := some planId }

def clearAuthorizedPlan (record : MigrationRecord) : M Unit := do
  match ← getLock (recordLockId record) with
  | none => return ()
  | some lock => putLock (recordLockId record) { lock with allowedPlanId := none }

/-- The lock is there, the migration's own, or it is made, under the environment's lease. -/
def holdLock (record : MigrationRecord) (lease : EnvironmentLease) : M Unit := do
  match ← getLock (recordLockId record) with
  | some existing =>
    bailIf (existing.owner ≠ record.name)
      s!"environment {record.environment} already has package migration {existing.owner} in progress"
  | none => createLock (recordLockId record) ⟨record.name, none⟩ lease

def acquireEnvironmentLock (record : MigrationRecord) : M Unit := do
  let lease ← claimEnvironment record.environment (migrationOwner record.name)
  let result ← caught (holdLock record lease)
  releaseEnvironment lease
  returned result

def releaseEnvironmentLock (record : MigrationRecord) : M Unit := do
  match ← getLock (recordLockId record) with
  | none => return ()
  | some existing =>
    if existing.owner = record.name then deleteLock (recordLockId record) else return ()

/-! #### Records in memory -/

/-- A record in memory, with the account of the stored versions the call knows of: those it read,
    and those it wrote or tried to. -/
structure Draft where
  record : MigrationRecord
  known : List MigrationRecord

def Draft.read (record : MigrationRecord) : Draft := ⟨record, [record]⟩

def Draft.set (draft : Draft) (record : MigrationRecord) : Draft := { draft with record }

def Draft.written (draft : Draft) : Draft := { draft with known := draft.record :: draft.known }

def persist (draft : Draft) : M Unit := do
  require .schemaReady "the package migration schema is missing"
  putRecord (recordCatalogId draft.record) draft.record draft.known

def loadIn (partition : Option String) (name : String) : M MigrationRecord := do
  require .identifiersValid "a migration name or partition is not an identifier"
  require .schemaReady "the package migration schema is missing"
  match ← getRecord (catalogId partition name) with
  | none => throw s!"package migration {name} is not stored"
  | some record => do
    bailIf (record.name ≠ name) s!"stored package migration name does not match {name}"
    bailIf (record.partition ≠ partitionOf partition)
      "stored package migration partition does not match"
    return record

def requireApproval (record : MigrationRecord) (authorization : Authorization) : M Unit := do
  bailIf (record.approvalDigest = "") s!"package migration {record.name} is not approved"
  let expected ← approvalDigest record authorization
  bailIf (expected ≠ record.approvalDigest)
    s!"package migration {record.name} approval does not match the stored digest"

def requireGeneration (record : MigrationRecord) : Option Nat → M Unit
  | none => pure ()
  | some expected =>
    bailIf (expected ≠ record.fenceGeneration)
      s!"stale fencing generation {expected} for package migration {record.name}"

def acquireExecutionLease (partition : Option String) (name : String) (expected : Option Nat)
    (record : MigrationRecord) : M FencingToken := do
  match ← acquireExec (catalogId partition name) expected [record] with
  | some lease => return lease.fencingToken
  | none => throw s!"package migration {name} already has an execution in progress"

/-! #### A checkpoint -/

inductive CheckpointProgress
  | accepted (planId : Option String)
  | awaitingPlanApproval (planId : String)

/-- The pins are checked under the environment's lease: all there is to the effect. -/
def revalidate (draft : Draft) (checkpoint : CheckpointDecl) : M CheckpointProgress := do
  let lease ← claimEnvironment draft.record.environment (migrationOwner draft.record.name)
  beginEffect (recordCatalogId draft.record) checkpoint.id draft.known
  let result ← caught (require .pinsValid "the pins of the migration do not hold")
  releaseEnvironment lease
  returned result
  return .accepted none

def planApproved (planId : String) : Authorization → M Bool
  | .localDevelopment _ => return true
  | .signed _ _ => decide (.planApprovalPresent planId)

def applyPinned (draft : Draft) (checkpoint : CheckpointDecl) (planId : String)
    (authorization : Authorization) (token : FencingToken) (renewals : Nat) :
    M CheckpointProgress := do
  refreshExec (recordCatalogId draft.record) token
  if ← planApproved planId authorization then
    authorizePlanOnLock draft.record planId
    require .executorsSelected "the executors of the process cannot be selected"
    beginEffect (recordCatalogId draft.record) checkpoint.id draft.known
    let applied ← caught (executeWithOptions planId renewals)
    clearAuthorizedPlan draft.record
    refreshExec (recordCatalogId draft.record) token
    returned applied
    let plan ← loadPlan planId
    bailIf (plan.state ≠ .succeeded) s!"package migration plan {planId} ended in {plan.state}"
    return .accepted (some planId)
  else return .awaitingPlanApproval planId

/-- The plan of a pin, made and written into the record unless it is there. The record stays
    changed when this fails. -/
def pinPlan (draft : Draft) : M (Draft × Except String String) :=
  match draft.record.pendingPlanId with
  | some planId => return (draft, .ok planId)
  | none => do
    match ← caught (createPinPlan draft.record draft.record.declaration.target) with
    | .error error => return (draft, .error error)
    | .ok planId =>
      let draft := draft.set { draft.record with pendingPlanId := some planId }
      match ← caught (persist draft) with
      | .error error => return (draft.written, .error error)
      | .ok _ => return (draft.written, .ok planId)

def applyPin (draft : Draft) (checkpoint : CheckpointDecl) (authorization : Authorization)
    (token : FencingToken) (renewals : Nat) : M (Draft × Except String CheckpointProgress) := do
  match ← caught (require .pinsValid "the pins of the migration do not hold") with
  | .error error => return (draft, .error error)
  | .ok _ =>
    let (draft, plan) ← pinPlan draft
    match plan with
    | .error error => return (draft, .error error)
    | .ok planId => do
      let progress ← caught (applyPinned draft checkpoint planId authorization token renewals)
      return (draft, progress)

def executeCheckpoint (draft : Draft) (checkpoint : CheckpointDecl)
    (authorization : Authorization) (token : FencingToken) (renewals : Nat) :
    M (Draft × Except String CheckpointProgress) := do
  match ← caught (refreshExec (recordCatalogId draft.record) token) with
  | .error error => return (draft, .error error)
  | .ok _ =>
    match checkpointEffect checkpoint.class_ with
    | .revalidate => do
      let progress ← caught (revalidate draft checkpoint)
      return (draft, progress)
    | .applyTarget => applyPin draft checkpoint authorization token renewals

/-! #### Approving, executing and resuming -/

def approveIn (partition : Option String) (name : String) (authorization : Authorization) :
    M MigrationRecord := do
  let record ← loadIn partition name
  bailIf (record.status ≠ .admitted) s!"package migration {name} is not admitted"
  let digest ← approvalDigest record authorization
  let draft := (Draft.read record).set { record with approvalDigest := digest }
  persist draft
  return draft.record

def acceptedReceipt (record : MigrationRecord) (checkpoint : CheckpointDecl)
    (planId : Option String) : CheckpointReceipt where
  checkpointId := checkpoint.id
  class_ := checkpoint.class_
  effect := checkpointEffect checkpoint.class_
  result := .accepted
  fenceGeneration := record.fenceGeneration
  planId := planId

def pushReceipt (record : MigrationRecord) (checkpoint : CheckpointDecl)
    (planId : Option String) : MigrationRecord :=
  let receipts := record.receipts ++ [acceptedReceipt record checkpoint planId]
  { record with
    receipts
    status := if receipts.length = record.declaration.checkpoints.length then .succeeded
      else .running }

def accept (draft : Draft) : M MigrationRecord := do
  persist draft
  if draft.record.status = .succeeded then
    releaseEnvironmentLock draft.record
    return draft.record
  else return draft.record

/-- The record is written with a status, the lock is given up, and the call fails. -/
def giveUp (draft : Draft) (status : MigrationStatus) (error : String) : M MigrationRecord := do
  let draft := draft.set { draft.record with status }
  persist draft
  releaseEnvironmentLock draft.record
  throw error

def recover (draft : Draft) (checkpoint : CheckpointDecl) (error : String) :
    M MigrationRecord :=
  match draft.record.pendingPlanId with
  | none => giveUp draft .failed error
  | some planId => do
    match ← caught (loadPlan planId) with
    | .error _ => giveUp draft .failed error
    | .ok plan =>
      if plan.state = .succeeded then
        accept (draft.set
          (pushReceipt { draft.record with pendingPlanId := none } checkpoint (some planId)))
      else if plan.state ≠ .computed then do
        -- the lock stays until someone has looked
        persist (draft.set { draft.record with status := .recoveryRequired })
        throw error
      else giveUp draft .failed error

def runCheckpoint (draft : Draft) (checkpoint : CheckpointDecl) (authorization : Authorization)
    (token : FencingToken) (renewals : Nat) : M MigrationRecord := do
  let (draft, progress) ← executeCheckpoint draft checkpoint authorization token renewals
  match progress with
  | .ok (.accepted planId) =>
    accept (draft.set (pushReceipt
      { draft.record with pendingPlanId := none, pendingRollbackPlanId := none } checkpoint planId))
  | .ok (.awaitingPlanApproval planId) => do
    let draft := draft.set { draft.record with pendingPlanId := some planId }
    persist draft
    return draft.record
  | .error error => recover draft checkpoint error

/-- From the record a call goes on with to the end of one checkpoint. -/
def nextCheckpoint (draft : Draft) (authorization : Authorization) (token : FencingToken)
    (renewals : Nat) : M MigrationRecord := do
  acquireEnvironmentLock draft.record
  match draft.record.declaration.checkpoints[draft.record.receipts.length]? with
  | none => do
    let draft := draft.set { draft.record with status := .succeeded }
    persist draft
    releaseEnvironmentLock draft.record
    return draft.record
  | some checkpoint =>
    if checkpoint.class_ = .irreversible ∧ draft.record.backupReceiptDigest = none then
      giveUp draft .failed
        s!"irreversible checkpoint {checkpoint.id} has no backup receipt; refusing the first effect"
    else if draft.record.receipts.any (·.checkpointId = checkpoint.id) then do
      persist draft
      return draft.record
    else runCheckpoint draft checkpoint authorization token renewals

def stepLocked (record : MigrationRecord) (authorization : Authorization) (resume : Bool)
    (token : FencingToken) (renewals : Nat) : M MigrationRecord :=
  match record.status, resume with
  | .admitted, false => nextCheckpoint ((Draft.read record).set
      { record with fenceGeneration := record.fenceGeneration + 1, status := .running })
        authorization token renewals
  | .running, resume =>
    if resume ∨ record.receipts ≠ [] then
      nextCheckpoint (.read record) authorization token renewals
    else throw s!"package migration {record.name} cannot execute from running"
  | .succeeded, true => return record
  | _, _ => throw s!"package migration {record.name} cannot execute from its status"

def migrationStep (partition : Option String) (name : String) (authorization : Authorization)
    (expected : Option Nat) (resume : Bool) (renewals : Nat) : M MigrationRecord := do
  require .schemaReady "the package migration schema is missing"
  let record ← loadIn partition name
  requireApproval record authorization
  requireGeneration record expected
  let token ← acquireExecutionLease partition name expected record
  let result ← caught (stepLocked record authorization resume token renewals)
  let _ ← caught (releaseExec (catalogId partition name) token)
  returned result

/-! #### Rolling back -/

def pendingPlanStarted (record : MigrationRecord) : M Bool :=
  match record.pendingPlanId with
  | none => return false
  | some planId => do
    let plan ← loadPlan planId
    return plan.state ≠ .computed

def targetAccepted (record : MigrationRecord) : Bool :=
  record.receipts.any fun receipt => receipt.result = .accepted && receipt.effect = .applyTarget

def requireAtTarget (record : MigrationRecord) : M Unit :=
  require .atTarget s!"package migration {record.name} cannot roll back"

def requireRollbackTarget (record : MigrationRecord) : M Unit := do
  if targetAccepted record then requireAtTarget record
  else if ← pendingPlanStarted record then requireAtTarget record
  else return ()

def applyPinPlan (record : MigrationRecord) (planId : String) (authorization : Authorization)
    (token : FencingToken) (renewals : Nat) : M Unit := do
  if ← planApproved planId authorization then
    refreshExec (recordCatalogId record) token
    authorizePlanOnLock record planId
    require .executorsSelected "the executors of the process cannot be selected"
    let applied ← caught (executeWithOptions planId renewals)
    clearAuthorizedPlan record
    returned applied
    let plan ← loadPlan planId
    bailIf (plan.state ≠ .succeeded) s!"package migration plan {planId} ended in {plan.state}"
  else throw s!"package migration rollback plan {planId} is waiting for a signed plan approval"

/-- The plan that restores the source, made and written into the record unless it is there. -/
def rollbackPlan (draft : Draft) : M (Draft × Except String String) :=
  match draft.record.pendingRollbackPlanId with
  | some planId => return (draft, .ok planId)
  | none => do
    match ← caught (createPinPlan draft.record draft.record.declaration.source) with
    | .error error => return (draft, .error error)
    | .ok planId =>
      let draft := draft.set { draft.record with pendingRollbackPlanId := some planId }
      match ← caught (persist draft) with
      | .error error => return (draft.written, .error error)
      | .ok _ => return (draft.written, .ok planId)

def restoreSource (draft : Draft) (authorization : Authorization) (token : FencingToken)
    (renewals : Nat) : M (Draft × Except String Unit) := do
  match ← caught (refreshExec (recordCatalogId draft.record) token) with
  | .error error => return (draft, .error error)
  | .ok _ =>
    let (draft, plan) ← rollbackPlan draft
    match plan with
    | .error error => return (draft, .error error)
    | .ok planId => do
      let applied ← caught (applyPinPlan draft.record planId authorization token renewals)
      return (draft, applied)

def compensateAccepted (draft : Draft) (authorization : Authorization) (token : FencingToken)
    (renewals : Nat) : M (Draft × Except String Unit) := do
  match ← caught (pendingPlanStarted draft.record) with
  | .error error => return (draft, .error error)
  | .ok started =>
    if started || targetAccepted draft.record then
      restoreSource draft authorization token renewals
    else return (draft, .ok ())

/-- A receipt that a rollback cannot undo. -/
def blocksRollback (receipt : CheckpointReceipt) : Bool :=
  receipt.class_ = .irreversible && receipt.result = .accepted ||
    receipt.result = .accepted &&
      !(receipt.class_ = .reversible || receipt.class_ = .compensating)

def rollBackReceipt (generation : Nat) (receipt : CheckpointReceipt) : CheckpointReceipt :=
  if receipt.result = .accepted then
    { receipt with result := .rolledBack, fenceGeneration := generation }
  else receipt

def rolledBackRecord (record : MigrationRecord) : MigrationRecord :=
  { record with
    receipts := record.receipts.map (rollBackReceipt record.fenceGeneration)
    status := .rolledBack
    pendingPlanId := none
    pendingRollbackPlanId := none }

def settle (draft : Draft) : M MigrationRecord := do
  persist draft
  releaseEnvironmentLock draft.record
  return draft.record

def undo (draft : Draft) (authorization : Authorization) (token : FencingToken)
    (renewals : Nat) : M MigrationRecord := do
  match draft.record.receipts.reverse.find? blocksRollback with
  | some receipt =>
    giveUp draft .recoveryRequired
      s!"package migration {draft.record.name} cannot compensate checkpoint {receipt.checkpointId}"
  | none => do
    let (draft, compensated) ← compensateAccepted draft authorization token renewals
    match compensated with
    | .error error => giveUp draft .recoveryRequired error
    | .ok _ => settle (draft.set (rolledBackRecord draft.record))

def rollbackLocked (record : MigrationRecord) (authorization : Authorization)
    (token : FencingToken) (renewals : Nat) : M MigrationRecord :=
  if record.status = .admitted ∨ record.status = .rolledBack then
    settle ((Draft.read record).set { record with status := .rolledBack })
  else do
    acquireEnvironmentLock record
    match ← caught (requireRollbackTarget record) with
    | .error error => giveUp (.read record) .recoveryRequired error
    | .ok _ => undo ((Draft.read record).set
        { record with fenceGeneration := record.fenceGeneration + 1 }) authorization token renewals

def rollbackIn (partition : Option String) (name : String) (authorization : Authorization)
    (expected : Option Nat) (renewals : Nat) : M MigrationRecord := do
  require .schemaReady "the package migration schema is missing"
  let record ← loadIn partition name
  requireApproval record authorization
  requireGeneration record expected
  let token ← acquireExecutionLease partition name expected record
  let result ← caught (rollbackLocked record authorization token renewals)
  let _ ← caught (releaseExec (catalogId partition name) token)
  returned result

/-! #### Creating -/

def admittedRecord (partition : Option String) (name environment identityDigest : String)
    (declaration : MigrationDeclaration) (backup : Option String) : MigrationRecord where
  name := name
  environment := environment
  partition := partitionOf partition
  identityDigest := identityDigest
  declaration := declaration
  approvalDigest := ""
  fenceGeneration := 0
  status := .admitted
  receipts := []
  backupReceiptDigest := backup
  pendingPlanId := none
  pendingRollbackPlanId := none

def persistNew (record : MigrationRecord) : M Unit := do
  require .schemaReady "the package migration schema is missing"
  match ← getRecord (recordCatalogId record) with
  | some stored =>
    bailIf (¬ (stored.identityDigest = record.identityDigest ∧
        stored.declaration = record.declaration))
      s!"package migration {record.name} already exists with a different identity"
  | none => createRecord (recordCatalogId record) record

def createIn (partition : Option String) (name environment identityDigest : String)
    (declaration : MigrationDeclaration) (backup : Option String) : M MigrationRecord := do
  require .declarationAdmitted "the package migration is not admitted"
  let record := admittedRecord partition name environment identityDigest declaration backup
  persistNew record
  return record

/-! #### Calls -/

inductive Call
  | create (partition : Option String) (name environment identityDigest : String)
      (declaration : MigrationDeclaration) (backup : Option String)
  | approve (partition : Option String) (name : String) (authorization : Authorization)
  | execute (partition : Option String) (name : String) (authorization : Authorization)
      (expected : Option Nat) (renewals : Nat)
  | resume (partition : Option String) (name : String) (authorization : Authorization)
      (expected : Option Nat) (renewals : Nat)
  | rollback (partition : Option String) (name : String) (authorization : Authorization)
      (expected : Option Nat) (renewals : Nat)
  /-- An apply that is not a migration's. -/
  | apply (planId : String) (renewals : Nat)

def discard {α : Type} (x : M α) : M Unit := do
  let _ ← x
  return ()

def Call.code : Call → M Unit
  | .create partition name environment identityDigest declaration backup =>
    discard (createIn partition name environment identityDigest declaration backup)
  | .approve partition name authorization => discard (approveIn partition name authorization)
  | .execute partition name authorization expected renewals =>
    discard (migrationStep partition name authorization expected false renewals)
  | .resume partition name authorization expected renewals =>
    discard (migrationStep partition name authorization expected true renewals)
  | .rollback partition name authorization expected renewals =>
    discard (rollbackIn partition name authorization expected renewals)
  | .apply planId renewals => executeWithOptions planId renewals

def program (call : Call) : Prog interface Unit := do
  let _ ← call.code.run
  return ()

end Tenkai.Migration
