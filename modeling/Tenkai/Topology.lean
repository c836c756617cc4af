import Mathlib.Data.List.Nodup
import Mathlib.Logic.Function.Basic
import Tenkai.Lease
import Tenkai.Plan
import Tenkai.Pool

/-!
# Rolling waves over a topology

Before a plan with steps runs on a replica, `claim_topology_leases` takes the lease of every
topology that lists the replica and counts, under it, the other replicas that are healthy for the
product and have no plan left running. The calls of any number of waves interleave. What an
execution comes to is arbitrary; a call that is never scheduled again has crashed.
-/

namespace Tenkai.TopologyWave

/-! ### Data -/

/-- `[topology]` of a manifest that `validate` has passed. -/
structure Topology where
  name : String
  environments : List String
  minAvailable : Option Nat
  distinct : environments.Nodup

structure Manifest where
  product : String
  topology : Option Topology

/-- The manifests of the published releases. -/
abbrev Catalog : Type := String → Option Manifest

/-- A topology's lease, by the token it was granted with. -/
abbrev HeldLease : Type := String × FencingToken

/-- A plan that a call has begun to execute and has not ended. -/
structure Execution where
  thread : Nat
  environment : String
  held : List HeldLease
  deriving DecidableEq

/-- What the calls share. -/
structure Books where
  leases : String → LeaseRow
  /-- `deployment_health.<product>` of an environment. -/
  health : String → String → Option String
  /-- The plans of an environment that are in the state running. -/
  running : String → List String
  /-- Account: the executions begun and not ended. -/
  executing : List Execution

/-- A plan's start, with the books as they were. -/
structure Start where
  thread : Nat
  releaseId : String
  plan : Plan
  environment : String
  before : Books

structure Site where
  books : Books
  /-- Account: the starts so far. -/
  starts : List Start

/-- The leases are still the ones that were granted with these tokens. -/
def Books.Holds (books : Books) (held : List HeldLease) : Prop :=
  ∀ lease ∈ held, (books.leases lease.1).Held lease.2

instance (books : Books) (held : List HeldLease) : Decidable (books.Holds held) :=
  inferInstanceAs (Decidable (∀ lease ∈ held, _))

/-- A call executes a plan on the environment: it has begun, has not ended, and no other call has
    taken its leases, as one may after it has crashed. -/
def Books.Executing (books : Books) (thread : Nat) (environment : String) : Prop :=
  ∃ execution ∈ books.executing, execution.thread = thread ∧
    execution.environment = environment ∧ books.Holds execution.held

def Books.Available (books : Books) (product environment : String) : Prop :=
  books.health environment product = some "healthy" ∧ books.running environment = []

instance (books : Books) (product environment : String) :
    Decidable (books.Available product environment) :=
  inferInstanceAs (Decidable (_ ∧ _))

def Books.othersAvailable (books : Books) (topology : Topology) (product environment : String) :
    Nat :=
  topology.environments.countP fun member => member ≠ environment ∧ books.Available product member

/-! ### Operations -/

inductive Op
  | getRelease (id : String)
  | getHealth (environment product : String)
  | listRunning (environment : String)
  | acquireLease (topology owner : String)
  | releaseLease (topology : String) (token : FencingToken)
  /-- The refresh of all leases an execution holds. -/
  | refreshLeases (held : List HeldLease)
  /-- The write of the wave's record. -/
  | persist
  /-- The plan goes to the state running. -/
  | start (releaseId : String) (plan : Plan) (environment : String) (held : List HeldLease)
  /-- The execution ends. -/
  | finish (plan : Plan) (environment : String) (held : List HeldLease)

abbrev Op.Answer : Op → Type
  | .getRelease _ => Option Manifest
  | .getHealth _ _ => Option String
  | .listRunning _ => List String
  | .acquireLease _ _ => Lease
  /- whether the plan succeeded -/
  | .finish _ _ _ => Bool
  | .releaseLease _ _ | .refreshLeases _ | .persist | .start _ _ _ _ => Unit

/-- What an operation meets: the time, its fault, and how an execution ends. -/
structure Turn where
  now : Int
  fault : Fault
  succeeded : Bool
  leftRunning : Bool
  health : String → Option String

abbrev interface : Interface where
  Op := Op
  Choice _ := Turn
  Reply op := Except String op.Answer

def waveLeaseMs : Int := 2 * 60 * 60 * 1000

namespace Site

variable (s : Site)

def putRow (topology : String) (row : LeaseRow) : Site :=
  { s with books := { s.books with leases := Function.update s.books.leases topology row } }

def acquire (thread : Nat) (topology owner : String) (now : Int) : Except String Lease × Site :=
  match (s.books.leases topology).acquire thread owner waveLeaseMs now with
  | some (lease, row) => (.ok lease, s.putRow topology row)
  | none => (.error ("lease tenkai/topology-availability/" ++ topology ++ " already exists"), s)

def notHolder (topology : String) : String :=
  "embedded lease tenkai/topology-availability/" ++ topology ++
    " is not the active fenced holder"

def release (topology : String) (token : FencingToken) (now : Int) : Except String Unit × Site :=
  match (s.books.leases topology).release token now with
  | some row => (.ok (), s.putRow topology row)
  | none => (.error (notHolder topology), s)

def refreshAll (now : Int) : List HeldLease → Site → Option Site
  | [], s => some s
  | lease :: rest, s =>
    match (s.books.leases lease.1).refresh lease.2 waveLeaseMs now with
    | some (_, row) => refreshAll now rest (s.putRow lease.1 row)
    | none => none

def refresh (held : List HeldLease) (now : Int) : Except String Unit × Site :=
  match refreshAll now held s with
  | some t => (.ok (), t)
  | none => (.error "lost a topology lease", s)

def start (thread : Nat) (releaseId : String) (plan : Plan) (environment : String)
    (held : List HeldLease) : Site where
  books := { s.books with
    running := Function.update s.books.running environment
      (plan.id :: s.books.running environment)
    executing := ⟨thread, environment, held⟩ :: s.books.executing }
  starts := ⟨thread, releaseId, plan, environment, s.books⟩ :: s.starts

def finish (thread : Nat) (plan : Plan) (environment : String) (held : List HeldLease)
    (turn : Turn) : Site :=
  { s with
    books := { s.books with
      health := Function.update s.books.health environment turn.health
      running :=
        if turn.leftRunning then s.books.running
        else Function.update s.books.running environment
          ((s.books.running environment).filter fun id => id ≠ plan.id)
      executing := s.books.executing.filter fun execution =>
        execution ≠ ⟨thread, environment, held⟩ } }

end Site

section Exec

variable (catalog : Catalog)

def effect (thread : Nat) (s : Site) : (op : Op) → Turn → Except String op.Answer × Site
  | .getRelease id, _ => (.ok (catalog id), s)
  | .getHealth environment product, _ => (.ok (s.books.health environment product), s)
  | .listRunning environment, _ => (.ok (s.books.running environment), s)
  | .acquireLease topology owner, turn => s.acquire thread topology owner turn.now
  | .releaseLease topology token, turn => s.release topology token turn.now
  | .refreshLeases held, turn => s.refresh held turn.now
  | .persist, _ => (.ok (), s)
  | .start releaseId plan environment held, _ =>
    (.ok (), s.start thread releaseId plan environment held)
  | .finish plan environment held, turn =>
    (.ok turn.succeeded, s.finish thread plan environment held turn)

def exec (thread : Nat) : Exec interface Site := fun op turn s =>
  turn.fault.run "store unavailable" s (effect catalog thread s op turn)

end Exec

/-- The topology lease is exclusive: from the start of its execution to the end, a call that is
    still at work has not lost its leases to another. -/
def exclusive (op : Op) (_ : Turn) (s : Site) : Prop :=
  match op with
  | .start _ _ _ held => s.books.Holds held
  | .finish _ _ held => s.books.Holds held
  | _ => True

/-- The lease is exclusive, and the plans that are run have steps. -/
def allowed (op : Op) (turn : Turn) (s : Site) : Prop :=
  exclusive op turn s ∧
    match op with
    | .start _ plan _ _ => plan.steps ≠ []
    | _ => True

instance decidableExclusive (op : Op) (turn : Turn) (s : Site) :
    Decidable (exclusive op turn s) :=
  match op with
  | .start _ _ _ held => inferInstanceAs (Decidable (s.books.Holds held))
  | .finish _ _ held => inferInstanceAs (Decidable (s.books.Holds held))
  | .getRelease _ | .getHealth _ _ | .listRunning _ | .acquireLease _ _ | .releaseLease _ _
  | .refreshLeases _ | .persist => .isTrue trivial

instance decidableAllowed (op : Op) (turn : Turn) (s : Site) : Decidable (allowed op turn s) :=
  match op with
  | .start _ plan _ held =>
    inferInstanceAs (Decidable (s.books.Holds held ∧ plan.steps ≠ []))
  | .finish _ _ held => inferInstanceAs (Decidable (s.books.Holds held ∧ True))
  | .getRelease _ | .getHealth _ _ | .listRunning _ | .acquireLease _ _ | .releaseLease _ _
  | .refreshLeases _ | .persist => .isTrue ⟨trivial, trivial⟩

/-! ### Availability -/

abbrev M (α : Type) : Type := ExceptT String (Prog interface) α

def ask (op : Op) : M op.Answer := ExceptT.mk (.ask op .done)

def caught {α : Type} (x : M α) : M (Except String α) := ExceptT.lift x.run

/-- The topology of a manifest, when it sets `min_available`, and the product. -/
def Manifest.availability (manifest : Manifest) : Option (Topology × String) :=
  (manifest.topology.filter fun topology => topology.minAvailable.isSome).map
    fun topology => (topology, manifest.product)

def availabilityManifest (release : String) : M (Option (Topology × String)) := do
  let found : Option Manifest ← ask (.getRelease release)
  match found with
  | some manifest => return manifest.availability
  | none => throw ("release " ++ release ++ " is not published")

/-- The members that serve the product, and those of them with no plan left running. -/
def replicaAvailability (product : String) : List String → M (List String × List String)
  | [] => pure ([], [])
  | member :: rest => do
    let health : Option String ← ask (.getHealth member product)
    if health = some "healthy" then do
      let running : List String ← ask (.listRunning member)
      let (serving, available) ← replicaAvailability product rest
      return (member :: serving, if running = [] then member :: available else available)
    else
      replicaAvailability product rest

def Topology.checkAvailability (topology : Topology) (environment : String)
    (serving available : List String) : Except String Unit :=
  match topology.minAvailable with
  | none => .ok ()
  | some minimum =>
    if environment ∉ topology.environments ∨ environment ∉ serving then
      .ok ()
    else
      let others := topology.environments.filter fun member => member ≠ environment
      let up := others.countP fun member => member ∈ available
      if up < minimum then
        .error ("upgrading " ++ environment ++ " would leave " ++ toString up ++ " of topology " ++
          topology.name ++ "'s replicas available, below its minimum " ++ toString minimum ++
          "; not healthy: " ++
          ", ".intercalate (others.filter fun member => member ∉ available))
      else
        .ok ()

def checkReplicas (environment : String) : Option (Topology × String) → M Unit
  | none => pure ()
  | some (topology, product) => do
    let (serving, available) ← replicaAvailability product topology.environments
    ExceptT.mk (pure (topology.checkAvailability environment serving available))

def requireAvailability (environment release : String) : M Unit := do
  let declared ← availabilityManifest release
  checkReplicas environment declared

def checkPolicies (environment : String) : List String → M Unit
  | [] => pure ()
  | release :: rest => do
    requireAvailability environment release
    checkPolicies environment rest

/-! ### Leases of the topologies -/

/-- Insertion into a `BTreeSet` of names. -/
def insertName (name : String) : List String → List String
  | [] => [name]
  | other :: rest =>
    if name = other then other :: rest
    else if name < other then name :: other :: rest
    else other :: insertName name rest

/-- The wave's release, the releases the plan deploys and those its steps would restore. -/
def releasesOf (releaseId : String) (plan : Plan) : List String :=
  ((releaseId :: plan.steps.flatMap fun step =>
    step.releaseId :: step.restore.toList.map (·.releaseId)).filter fun release =>
      release ≠ "").foldr insertName []

def enter (name release : String) : List (String × List String) → List (String × List String)
  | [] => [(name, [release])]
  | (other, policies) :: rest =>
    if name = other then (other, policies ++ [release]) :: rest
    else if name < other then (name, [release]) :: (other, policies) :: rest
    else (other, policies) :: enter name release rest

/-- The topology of one release, entered if it lists the environment. -/
def enterDeclared (environment release : String) (topologies : List (String × List String)) :
    Option (Topology × String) → List (String × List String)
  | some (topology, _) =>
    if environment ∈ topology.environments then enter topology.name release topologies
    else topologies
  | none => topologies

def groupPolicies (environment : String) :
    List String → List (String × List String) → M (List (String × List String))
  | [], topologies => pure topologies
  | release :: rest, topologies => do
    let declared ← availabilityManifest release
    groupPolicies environment rest (enterDeclared environment release topologies declared)

/-- `release_topology_leases`: best effort. -/
def releaseTopologyLeases : List HeldLease → M Unit
  | [] => pure ()
  | lease :: rest => do
    let _ ← caught (ask (.releaseLease lease.1 lease.2))
    releaseTopologyLeases rest

/-- The leases are given back before an error is reported. -/
def giveBack {α : Type} (held : List HeldLease) (error : String) : M α := do
  releaseTopologyLeases held
  throw error

/-- The policies of one topology, checked under its lease. -/
def checkHeld (environment : String) (policies : List String) (held : List HeldLease) :
    M Unit := do
  let checked ← caught (checkPolicies environment policies)
  match checked with
  | .ok _ => pure ()
  | .error error => giveBack held error

/-- The lease of each topology in turn, with the check of its policies under it. -/
def claimEach (environment owner : String) :
    List (String × List String) → List HeldLease → M (List HeldLease)
  | [], held => pure held
  | (topology, policies) :: rest, held => do
    let granted : Except String Lease ← caught (ask (.acquireLease topology owner))
    match granted with
    | .ok lease => do
      let held := held ++ [(topology, lease.fencingToken)]
      checkHeld environment policies held
      claimEach environment owner rest held
    | .error _ =>
      giveBack held ("topology " ++ topology ++
        " is upgrading another replica; retry once it finishes")

def claimTopologyLeases (name releaseId : String) (plan : Plan) (environment : String) :
    M (List HeldLease) :=
  if plan.steps = [] then
    pure []
  else do
    let topologies ← groupPolicies environment (releasesOf releaseId plan) []
    claimEach environment ("wave:" ++ name ++ ":" ++ environment) topologies []

/-! ### Calls -/

/-- The leases are refreshed with the environment's fence while the plan runs. -/
def refreshWhileRunning (held : List HeldLease) : Nat → M Unit
  | 0 => pure ()
  | n + 1 => do
    ask (.refreshLeases held)
    refreshWhileRunning held n

def executePlan (releaseId : String) (plan : Plan) (environment : String) (refreshes : Nat)
    (held : List HeldLease) : M Bool := do
  ask (.start releaseId plan environment held)
  refreshWhileRunning held refreshes
  ask (.finish plan environment held)

/-- The leases are given back after the execution, whatever became of it. -/
def executeUnder (releaseId : String) (plan : Plan) (environment : String) (refreshes : Nat)
    (held : List HeldLease) : M Bool := do
  let executed ← caught (executePlan releaseId plan environment refreshes held)
  releaseTopologyLeases held
  ExceptT.mk (pure executed)

/-- A wave of a release that declares the topology. -/
structure Wave (catalog : Catalog) (topology : Topology) where
  name : String
  releaseId : String
  product : String
  named : releaseId ≠ ""
  declares : catalog releaseId = some ⟨product, some topology⟩

section Calls

variable {catalog : Catalog} {topology : Topology} (wave : Wave catalog topology)

/-- The part of `advance_locked` that runs the plan of the next environment. -/
def advance (plan : Plan) (environment : String) (refreshes : Nat) : M Unit := do
  let held ← claimTopologyLeases wave.name wave.releaseId plan environment
  let saved ← caught (ask .persist)
  match saved with
  | .ok _ => do
    let _ ← executeUnder wave.releaseId plan environment refreshes held
  | .error error => giveBack held error

/-- A plan that a rollback runs, its environment, and how often its fence is refreshed. -/
structure Target where
  plan : Plan
  environment : String
  refreshes : Nat

/-- The part of `rollback_locked` that runs the plans of its targets, one after the other. -/
def rollback : List Target → M Unit
  | [] => pure ()
  | target :: rest => do
    let held ← claimTopologyLeases wave.name wave.releaseId target.plan target.environment
    let succeeded ← executeUnder wave.releaseId target.plan target.environment
      target.refreshes held
    if succeeded then rollback rest else pure ()

end Calls

inductive Call (catalog : Catalog) (topology : Topology)
  | advance (wave : Wave catalog topology) (plan : Plan) (environment : String) (refreshes : Nat)
  | rollback (wave : Wave catalog topology) (targets : List Target)

section Run

variable {catalog : Catalog} {topology : Topology}

def Call.code : Call catalog topology → M Unit
  | .advance wave plan environment refreshes =>
    TopologyWave.advance wave plan environment refreshes
  | .rollback wave targets => TopologyWave.rollback wave targets

def program (call : Call catalog topology) : Prog interface Unit := do
  let _ ← call.code.run

def run (start : Books) (events : List (Event interface (Call catalog topology))) :
    Pool interface Site :=
  Pool.run (exec catalog) program ⟨⟨start, []⟩, []⟩ events

end Run

/-- At its start on a replica that serves the wave's product, at least `minimum` other replicas
    are available, and no other call executes a plan on a replica. -/
def Start.Respects (catalog : Catalog) (topology : Topology) (minimum : Nat) (start : Start) :
    Prop :=
  start.environment ∈ topology.environments →
    (∀ manifest ∈ catalog start.releaseId,
      start.before.health start.environment manifest.product = some "healthy" →
      minimum ≤ start.before.othersAvailable topology manifest.product start.environment) ∧
    ∀ other environment, other ≠ start.thread → environment ∈ topology.environments →
      ¬ start.before.Executing other environment

end Tenkai.TopologyWave
