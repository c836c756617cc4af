import Mathlib.Algebra.Order.Ring.Int
import Mathlib.Data.List.Nodup
import Mathlib.Logic.Function.Basic
import Tenkai.Fence
import Tenkai.Lease
import Tenkai.Prog

/-!
# The lease table and the writes it guards

The calls of `SqliteStore` on namespaced leases and the writes that a lease guards, statement by
statement, each call one immediate transaction. Every statement may fail and every reading of the
clock is arbitrary. The tables beside the leases are a parameter; their writes may read the leases.
-/

namespace Tenkai.LeaseStore

/-- The primary key of a lease. -/
structure LeaseName where
  «namespace» : String
  key : String
  deriving DecidableEq

def LeaseName.path (name : LeaseName) : String := name.namespace ++ "/" ++ name.key

structure LeaseRecord where
  name : LeaseName
  generation : Nat
  fencingToken : String
  owner : String
  status : LeaseStatus
  acquiredAtMs : Int
  refreshedAtMs : Int
  expiresAtMs : Int
  releasedAtMs : Int
  siteId : String

structure CatalogObject where
  id : String
  kind : String
  properties : List (String × String)
  updated : Int

/-- The tables beside the leases, by what the statements of these calls do with them. -/
structure Tables where
  State : Type
  Event : Type
  Observation : Type
  ensureEnvironmentActive : String → State → Except String Unit
  getObject : String → State → Except String (Option CatalogObject)
  /-- `SELECT payload FROM catalog_objects`. -/
  selectObject : String → State → Except String (Option CatalogObject)
  upsertObject : CatalogObject → (LeaseName → Option LeaseRecord) → (Nat → Int) → State →
    Except String State
  recordChanges : CatalogObject → CatalogObject → (Nat → Int) → State → Except String State
  enqueueEvent : Event → State → Except String State
  insertObservation : Observation → State → Except String State

/-- The database. A lease is stored in the row that its own name and key say. -/
structure Db (T : Tables) where
  leases : LeaseName → Option LeaseRecord
  named : ∀ name, ∀ lease ∈ leases name, lease.name = name
  tables : T.State

variable {T : Tables}

def Db.saveLease (db : Db T) (lease : LeaseRecord) : Db T where
  leases := Function.update db.leases lease.name (some lease)
  named := by
    intro name saved hsaved
    by_cases hname : name = lease.name
    · subst hname
      rw [Function.update_self] at hsaved
      rw [← Option.some.inj hsaved]
    · rw [Function.update_of_ne hname] at hsaved
      exact db.named name saved hsaved
  tables := db.tables

/-! ### Statements -/

inductive Op (T : Tables)
  | nowMillis
  | selectLease (name : LeaseName)
  | saveLease (lease : LeaseRecord)
  | ensureEnvironmentActive (environment : String)
  | getObject (id : String)
  | selectObject (id : String)
  | upsertObject (object : CatalogObject)
  | recordChanges (previous next : CatalogObject)
  | enqueueEvent (event : T.Event)
  | insertObservation (observation : T.Observation)
  | isAutocommit
  | commit

abbrev Op.Answer : Op T → Type
  | .nowMillis => Int
  | .selectLease _ => Option LeaseRecord
  | .getObject _ | .selectObject _ => Option CatalogObject
  | .isAutocommit => Bool
  | .saveLease _ | .ensureEnvironmentActive _ | .upsertObject _ | .recordChanges _ _
  | .enqueueEvent _ | .insertObservation _ | .commit => Unit

/-- Reading the clock and asking SQLite whether a transaction is open cannot fail. -/
def Op.fallible : Op T → Bool
  | .nowMillis | .isAutocommit => false
  | _ => true

/-- What a statement meets: the readings of the clock, its error if it fails, and whether the
    error before it rolled the whole transaction back. -/
structure Turn where
  clock : Nat → Int
  error : Option String
  rolledBack : Bool

abbrev interface (T : Tables) : Interface where
  Op := Op T
  Choice _ := Turn
  Reply op := Except String op.Answer

/-- A statement that replaces the tables beside the leases, or fails. -/
def Db.write (db : Db T) : Except String T.State → Except String Unit × Db T
  | .ok tables => (.ok (), { db with tables })
  | .error error => (.error error, db)

def effect : (op : Op T) → Turn → Db T → Except String op.Answer × Db T
  | .nowMillis, turn, db => (.ok (turn.clock 0), db)
  | .selectLease name, _, db => (.ok (db.leases name), db)
  | .saveLease lease, _, db => (.ok (), db.saveLease lease)
  | .ensureEnvironmentActive environment, _, db =>
    (T.ensureEnvironmentActive environment db.tables, db)
  | .getObject id, _, db => (T.getObject id db.tables, db)
  | .selectObject id, _, db => (T.selectObject id db.tables, db)
  | .upsertObject object, turn, db =>
    db.write (T.upsertObject object db.leases turn.clock db.tables)
  | .recordChanges previous next, turn, db =>
    db.write (T.recordChanges previous next turn.clock db.tables)
  | .enqueueEvent event, _, db => db.write (T.enqueueEvent event db.tables)
  | .insertObservation observation, _, db =>
    db.write (T.insertObservation observation db.tables)
  | .isAutocommit, turn, db => (.ok turn.rolledBack, db)
  | .commit, _, db => (.ok (), db)

def exec : Exec (interface T) (Db T) := fun op turn db =>
  match if op.fallible then turn.error else none with
  | some error => (.error error, db)
  | none => effect op turn db

abbrev M (T : Tables) (α : Type) : Type := ExceptT String (Prog (interface T)) α

def ask (op : Op T) : M T op.Answer := ExceptT.mk (.ask op .done)

def caught {α : Type} (x : M T α) : M T (Except String α) := ExceptT.lift x.run

/-! ### Leases -/

def doesNotExist (name : LeaseName) : String :=
  "embedded lease " ++ name.path ++ " does not exist"

def present {α : Type} (error : String) : Option α → M T α
  | some a => pure a
  | none => throw error

def requireActiveLeaseIn (name : LeaseName) (fencingToken : String) : M T LeaseRecord := do
  let found : Option LeaseRecord ← ask (.selectLease name)
  let lease ← present (doesNotExist name) found
  let now : Int ← ask .nowMillis
  Prog.bailIf
    (¬ (lease.status = .active ∧ lease.fencingToken = fencingToken ∧ now < lease.expiresAtMs))
    ("embedded lease " ++ name.path ++ " is not the active fenced holder")
  return lease

def refreshLeaseIn (name : LeaseName) (fencingToken : String) (ttlMs : Int) :
    M T LeaseRecord := do
  let lease ← requireActiveLeaseIn name fencingToken
  let now : Int ← ask .nowMillis
  let refreshed :=
    { lease with refreshedAtMs := now, expiresAtMs := saturatingAdd now ttlMs }
  ask (.saveLease refreshed)
  return refreshed

def positiveTtl (ttlMs : Int) : M T Unit :=
  Prog.bailIf (¬ 0 < ttlMs) "embedded lease TTL must be positive"

def maxGeneration : Nat := 2 ^ 64 - 1

def nextGeneration : Option LeaseRecord → Nat
  | none => 1
  | some lease => min (lease.generation + 1) maxGeneration

def newLease (name : LeaseName) (generation : Nat) (uuid owner : String) (ttlMs now : Int) :
    LeaseRecord where
  name
  generation
  fencingToken := uuid
  owner
  status := .active
  acquiredAtMs := now
  refreshedAtMs := now
  expiresAtMs := saturatingAdd now ttlMs
  releasedAtMs := 0
  siteId := ""

def environmentLeaseNamespace : String := "tenkai/environment-execution"

def ensureLeasable (name : LeaseName) : M T Unit :=
  if name.namespace = environmentLeaseNamespace then
    ask (.ensureEnvironmentActive name.key)
  else
    pure ()

def acquireNamespacedLease (name : LeaseName) (owner : String) (ttlMs : Int) (uuid : String) :
    M T LeaseRecord := do
  positiveTtl ttlMs
  let now : Int ← ask .nowMillis
  ensureLeasable name
  let current : Option LeaseRecord ← ask (.selectLease name)
  Prog.bailIf (current.any fun lease => lease.status = .active && now < lease.expiresAtMs)
    ("lease " ++ name.path ++ " already exists")
  let lease := newLease name (nextGeneration current) uuid owner ttlMs now
  ask (.saveLease lease)
  ask .commit
  return lease

def refreshNamespacedLease (name : LeaseName) (fencingToken : String) (ttlMs : Int) :
    M T LeaseRecord := do
  positiveTtl ttlMs
  let lease ← refreshLeaseIn name fencingToken ttlMs
  ask .commit
  return lease

def releaseNamespacedLease (name : LeaseName) (fencingToken : String) : M T LeaseRecord := do
  let lease ← requireActiveLeaseIn name fencingToken
  let now : Int ← ask .nowMillis
  let released := { lease with status := .released, releasedAtMs := now }
  ask (.saveLease released)
  ask .commit
  return released

def takeoverNamespacedLease (name : LeaseName) (owner expectedToken : String)
    (expectedExpiresAt ttlMs : Int) (uuid : String) : M T LeaseRecord := do
  positiveTtl ttlMs
  let found : Option LeaseRecord ← ask (.selectLease name)
  let current ← present (doesNotExist name) found
  let checkedAt : Int ← ask .nowMillis
  Prog.bailIf
    (¬ (current.fencingToken = expectedToken ∧ current.expiresAtMs = expectedExpiresAt ∧
      current.expiresAtMs ≤ checkedAt))
    "embedded lease takeover precondition failed"
  let now : Int ← ask .nowMillis
  let lease := newLease name (nextGeneration (some current)) uuid owner ttlMs now
  ask (.saveLease lease)
  ask .commit
  return lease

structure LeaseRefresh where
  name : LeaseName
  fencingToken : String
  ttlMs : Int
  extend : Bool

def refreshOne (refresh : LeaseRefresh) : M T LeaseRecord :=
  if refresh.extend then
    refreshLeaseIn refresh.name refresh.fencingToken refresh.ttlMs
  else
    requireActiveLeaseIn refresh.name refresh.fencingToken

def refreshAll : List LeaseRefresh → M T (List LeaseRecord)
  | [] => pure []
  | refresh :: rest => do
    positiveTtl refresh.ttlMs
    let lease ← refreshOne refresh
    let leases ← refreshAll rest
    return lease :: leases

/-! ### Guarded writes -/

def stampClaimExpiry (object : CatalogObject) (leases : List LeaseRecord) (name : LeaseName) :
    CatalogObject :=
  match leases.find? fun lease => lease.name = name with
  | some lease =>
    { object with
      properties := ("expires_at", toString lease.expiresAtMs) ::
        object.properties.filter fun property => property.1 ≠ "expires_at"
      updated := lease.refreshedAtMs }
  | none => object

def objectMissing (object : CatalogObject) : String :=
  "embedded object " ++ object.id ++ " does not exist"

def recordChangesFrom (previous : Option CatalogObject) (object : CatalogObject) : M T Unit :=
  match previous with
  | some previous => ask (.recordChanges previous object)
  | none => pure ()

def refreshLeasesAndGuardedPut (refreshes : List LeaseRefresh) (object : CatalogObject)
    (name : LeaseName) (fencingToken : String) : M T (List LeaseRecord × CatalogObject) := do
  let leases ← refreshAll refreshes
  let object := stampClaimExpiry object leases name
  let _ ← requireActiveLeaseIn name fencingToken
  let previous : Option CatalogObject ← ask (.selectObject object.id)
  Prog.bailIf (previous = none) (objectMissing object)
  ask (.upsertObject object)
  recordChangesFrom previous object
  ask .commit
  return (leases, object)

def guardedPut (object : CatalogObject) (name : LeaseName) (fencingToken : String)
    (create : Bool) : M T CatalogObject := do
  let previous : Option CatalogObject ← ask (.getObject object.id)
  let _ ← requireActiveLeaseIn name fencingToken
  Prog.bailIf (create ∧ previous ≠ none) ("object " ++ object.id ++ " already exists")
  Prog.bailIf (create = false ∧ previous = none) (objectMissing object)
  ask (.upsertObject object)
  recordChangesFrom previous object
  ask .commit
  return object

def getAll : List CatalogObject → M T (List (Option CatalogObject))
  | [] => pure []
  | object :: rest => do
    let previous : Option CatalogObject ← ask (.getObject object.id)
    let others ← getAll rest
    return previous :: others

def putAll : List (CatalogObject × Option CatalogObject) → M T Unit
  | [] => pure ()
  | (object, previous) :: rest => do
    Prog.bailIf (previous = none) (objectMissing object)
    ask (.upsertObject object)
    recordChangesFrom previous object
    putAll rest

def enqueueAll : List T.Event → M T Unit
  | [] => pure ()
  | event :: rest => do
    ask (.enqueueEvent event)
    enqueueAll rest

/-- After an observation that was not stored: is the transaction gone with it? -/
def lostWith : Except String Unit → M T Bool
  | .ok _ => pure false
  | .error _ => ask .isAutocommit

/-- The observations are stored in turn; the answer is whether one of them took the whole
    transaction with it. -/
def observeAll : List T.Observation → M T Bool
  | [] => pure false
  | observation :: rest => do
    let stored ← caught (ask (.insertObservation observation))
    let lost ← lostWith stored
    if lost then pure true else observeAll rest

def commitUnless (lost : Bool) : M T Unit := if lost then pure () else ask .commit

/-- `put_objects_inner` under a lease, up to where it would start again; the answer is whether
    it has to. -/
def putObjectsOnce (objects : List CatalogObject) (events : List T.Event)
    (observations : List T.Observation) (name : LeaseName) (fencingToken : String) : M T Bool := do
  Prog.bailIf (objects = []) "embedded object update is empty"
  Prog.bailIf (¬ (objects.map (·.id)).Nodup)
    "embedded object update contains duplicate identities"
  let previous ← getAll objects
  let _ ← requireActiveLeaseIn name fencingToken
  putAll (objects.zip previous)
  enqueueAll events
  let lost ← observeAll observations
  commitUnless lost
  return lost

/-! ### Calls -/

inductive Call (T : Tables)
  | acquire (name : LeaseName) (owner : String) (ttlMs : Int) (uuid : String)
  | refresh (name : LeaseName) (fencingToken : String) (ttlMs : Int)
  | refreshAndPut (refreshes : List LeaseRefresh) (object : CatalogObject) (name : LeaseName)
      (fencingToken : String)
  | release (name : LeaseName) (fencingToken : String)
  | takeover (name : LeaseName) (owner expectedToken : String) (expectedExpiresAt ttlMs : Int)
      (uuid : String)
  | guardedPut (object : CatalogObject) (name : LeaseName) (fencingToken : String) (create : Bool)
  | putObjects (objects : List CatalogObject) (events : List T.Event)
      (observations : List T.Observation) (name : LeaseName) (fencingToken : String)

/-- What a call returns. -/
inductive Answer
  | lease (lease : LeaseRecord)
  | refreshed (leases : List LeaseRecord) (object : CatalogObject)
  | object (object : CatalogObject)
  | written
  | startAgain

def Call.program : Call T → M T Answer
  | .acquire name owner ttlMs uuid => .lease <$> acquireNamespacedLease name owner ttlMs uuid
  | .refresh name fencingToken ttlMs => .lease <$> refreshNamespacedLease name fencingToken ttlMs
  | .refreshAndPut refreshes object name fencingToken =>
    (fun out => .refreshed out.1 out.2) <$>
      refreshLeasesAndGuardedPut refreshes object name fencingToken
  | .release name fencingToken => .lease <$> releaseNamespacedLease name fencingToken
  | .takeover name owner expectedToken expectedExpiresAt ttlMs uuid =>
    .lease <$> takeoverNamespacedLease name owner expectedToken expectedExpiresAt ttlMs uuid
  | .guardedPut object name fencingToken create =>
    .object <$> LeaseStore.guardedPut object name fencingToken create
  | .putObjects objects events observations name fencingToken =>
    (fun lost => if lost then .startAgain else .written) <$>
      putObjectsOnce objects events observations name fencingToken

/-- The call that `put_objects_inner` makes of itself when its transaction is gone. -/
def Call.unobserved : Call T → Call T
  | .putObjects objects events _ name fencingToken => .putObjects objects events [] name fencingToken
  | call => call

/-- An immediate transaction: what it wrote is kept if it returned a value, and is rolled back if
    it returned an error or the process ended before. -/
def transaction {α : Type} (body : M T α) (turns : List (Oracle (interface T))) (db : Db T) :
    Option (Except String α) × Db T :=
  match body.run.result exec turns db with
  | some (.ok a) => (some (.ok a), body.run.play exec turns db)
  | some (.error error) => (some (.error error), db)
  | none => (none, db)

/-- A call with what its statements meet, the first time and when it starts again. -/
structure Event (T : Tables) where
  call : Call T
  turns : List (Oracle (interface T))
  again : List (Oracle (interface T))

def Event.run (event : Event T) (db : Db T) : Option (Except String Answer) × Db T :=
  match transaction event.call.program event.turns db with
  | (some (.ok .startAgain), _) => transaction event.call.unobserved.program event.again db
  | out => out

def run (db : Db T) : List (Event T) → Db T
  | [] => db
  | event :: rest => run (event.run db).2 rest

end Tenkai.LeaseStore
