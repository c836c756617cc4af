import Tenkai.ContractOrder
import Tenkai.Deployment
import Tenkai.Fallible
import Mathlib.Data.List.Sort

/-!
# Planning

`compute_snapshot_with_policy`: the changes that bring an environment to the heads of the channels
it subscribes to, in the order of their contracts. The catalog, the host applier's records, release
selection, admission and live observation are answers the planner gets (`Catalog`). The two checks
of the order of model runtimes and routing configurations and the persisted dependency holds are
left out.
-/

namespace Tenkai

/-! ### What the planner is told -/

inductive ProductKind
  | software
  | routingConfig
  | modelRuntime
  | policyBundle
  | evalSuite
  | agentDefinition
  | workerPool
  | promptPackage
  | workshopModule
  deriving DecidableEq

/-- What planning reads of a stored manifest. -/
structure StoredManifest where
  kind : ProductKind
  host : Bool
  declaresHealth : Bool
  /-- `deploy.instances = "many"`. -/
  allowsSeveral : Bool
  compatibility : Option CompatibilityProfile

structure HostRelease where
  version : String
  manifestDigest : String
  deriving DecidableEq

inductive AppliedState
  | empty
  | applied (release : HostRelease)
  | dirty (before after : Option HostRelease)
  deriving DecidableEq

structure HostApplyStarted where
  «instance» : String
  planId : String
  action : HostAction
  release : HostRelease
  deriving DecidableEq

structure HostApplyResult where
  «instance» : String
  succeeded : Bool
  deriving DecidableEq

structure AppliedStateRecord where
  product : String
  generation : Nat
  state : AppliedState
  lastStarted : Option HostApplyStarted
  lastResult : Option HostApplyResult
  deriving DecidableEq

structure Subscription where
  product : String
  «instance» : String
  channel : String
  channelId : String
  currentVersion : String
  currentRelease : String

structure SelectedRelease where
  version : String
  releaseId : String
  kind : ProductKind

inductive SoftwareObserveStatus
  | absent
  | present
  | unknown
  | mismatched
  deriving DecidableEq

/-- What a pin adds to the release it was asked for. -/
structure PinnedContent where
  digest : String
  artifactDigest : String
  workdir : String

def PinnedContent.pin (content : PinnedContent) (release : String) : ReleasePin :=
  ⟨release, content.digest, content.artifactDigest, content.workdir⟩

structure HostApplier where
  appliedState : String → Except String AppliedStateRecord
  appliedStates : Except String (List AppliedStateRecord)

/-- The answers a planner gets. -/
structure Catalog where
  readableManifest : String → Except String (Option StoredManifest)
  select : Subscription → Except String SelectedRelease
  isRecalled : String → Except String Bool
  lookupRelease : String → Except String PinnedContent
  lookupForRecovery : String → Except String PinnedContent
  /-- Whether the contracts the release requires are met. -/
  admitDependency : String → Except String Bool
  requireRelease : String → Except String Unit
  requirePlacement : String → Except String Unit
  admitWorkshopModule : String → Except String Unit
  /-- What the executor of a deployed release sees, if one observes it. -/
  observe : Subscription → SelectedRelease → Except String (Option SoftwareObserveStatus)
  host : Except String HostApplier
  planExists : String → Except String Bool

def Catalog.pinRelease (catalog : Catalog) (release : String) : Except String ReleasePin := do
  let content ← catalog.lookupRelease release
  pure (content.pin release)

def Catalog.pinReleaseForRecovery (catalog : Catalog) (release : String) :
    Except String ReleasePin := do
  let content ← catalog.lookupForRecovery release
  pure (content.pin release)

/-- Code outside the model: versions, and the two digests. -/
structure PlanExternals where
  semver : SemverCrate
  overlayDigest : Option String → String
  documentDigest : DependencyDocument → String

structure ConvergencePolicy where
  observeLive : Bool

def ConvergencePolicy.reconcile : ConvergencePolicy := ⟨true⟩

structure PendingChange where
  product : String
  «instance» : String
  action : Action
  fromVersion : Option String
  toVersion : String
  release : ReleasePin
  restore : Option ReleasePin
  kind : ProductKind

/-! ### Which release an instance runs -/

def productOfReleaseId (id : String) : Option String :=
  (id.toList.dropPrefix? "tenkai:release:".toList).bind fun spec =>
    if '@' ∈ spec then some (String.ofList (spec.takeWhile (· ≠ '@'))) else none

/-- The name of a product has no `@`, so it ends at the first. -/
theorem productOfReleaseId_releaseId {product v : String} (h : '@' ∉ product.toList) :
    productOfReleaseId (releaseId product v) = some product := by
  have hid : (releaseId product v).toList =
      "tenkai:release:".toList ++ (product.toList ++ '@' :: v.toList) := by
    have hat : "@".toList = ['@'] := rfl
    have : ("tenkai:release:" ++ product ++ "@" ++ v).toList =
        "tenkai:release:".toList ++ (product.toList ++ '@' :: v.toList) := by
      simp only [String.toList_append, hat, List.append_assoc, List.singleton_append]
    exact this
  have hspec : (releaseId product v).toList.dropPrefix? "tenkai:release:".toList =
      some (product.toList ++ '@' :: v.toList) :=
    List.dropPrefix?_eq_some_iff.mpr ⟨_, hid, beq_self_eq_true _⟩
  have htake : (product.toList ++ '@' :: v.toList).takeWhile (· ≠ '@') = product.toList := by
    rw [List.takeWhile_append_of_pos]
    · simp
    · intro c hc
      simp only [ne_eq, decide_eq_true_eq]
      rintro rfl
      exact h hc
  unfold productOfReleaseId
  rw [hspec, Option.bind_some, if_pos (by simp), htake, String.ofList_toList]

namespace Properties

def deployedReleaseId (properties : Properties) (inst version : String) : String :=
  (properties.get .deployedRelease inst).getD (releaseId inst version)

def productForInstance (properties : Properties) (inst : String) : String :=
  ((properties.get .deployedRelease inst).bind productOfReleaseId).getD inst

def failedTargetIsHeld (properties : Properties) (inst release : String) : Bool :=
  properties.get .failedTarget inst = some release

def unknown (properties : Properties) (inst : String) : Bool :=
  properties.get .deploymentHealth inst = some "unknown"

end Properties

/-! ### One subscription -/

/-- What planning the subscriptions has gathered. -/
structure Draft where
  inputs : List DesiredStateInput
  pending : List PendingChange
  /-- Host products that get their health step alone. -/
  hostHealthOnly : List String
  hostProducts : List String
  heldModel : Bool
  heldRouting : Bool
  /-- Product, instance, and whether its release allows several. -/
  productInstances : List (String × String × Bool)

def Draft.empty : Draft := ⟨[], [], [], [], false, false, []⟩

def Draft.hold (draft : Draft) (kind : ProductKind) : Draft :=
  { draft with
    heldModel := draft.heldModel || kind = .modelRuntime
    heldRouting := draft.heldRouting || kind = .routingConfig }

def Draft.add (draft : Draft) (change : PendingChange) : Draft :=
  { draft with pending := draft.pending ++ [change] }

section Planner

variable (ext : PlanExternals) (catalog : Catalog) (policy : ConvergencePolicy) (env : String)
  (environment : Properties)

/-- Whether a subscription's dependencies let it be planned; outside reconciliation an unmet
    contract is an error. -/
def dependencyAdmission (release : String) : Except String Bool :=
  if policy.observeLive then catalog.admitDependency release
  else do
    catalog.requireRelease release
    pure true

/-- The applier's record of a host release, and whether it declares a health command. -/
def hostRecord (product : String) (manifest : Option StoredManifest) :
    Except String (Option (AppliedStateRecord × Bool)) :=
  match manifest with
  | some stored =>
    if stored.host then do
      let applier ← catalog.host
      let record ← applier.appliedState product
      pure (some (record, stored.declaresHealth))
    else pure none
  | none => pure none

inductive HostProgress
  | converged
  | needsHealth
  | needsInstall

/-- The last step started is a health step of this release, and it succeeded. -/
def AppliedStateRecord.healthy (record : AppliedStateRecord) (release : HostRelease) : Bool :=
  match record.lastStarted, record.lastResult with
  | some started, some result =>
    started.action = .health && started.release = release &&
      result.instance = started.instance && result.succeeded
  | _, _ => false

def hostProgress (record : AppliedStateRecord) (desired : String) (health : Bool) : HostProgress :=
  match record.state with
  | .applied release =>
    if release.version ≠ desired then .needsInstall
    else if health && !record.healthy release then .needsHealth
    else .converged
  | _ => .needsInstall

def hostChange (draft : Draft) (sub : Subscription) (selected : SelectedRelease)
    (target : ReleasePin) (record : AppliedStateRecord) (health : Bool) : Except String Draft :=
  let deployed := environment.get .deployed sub.instance
  let draft := { draft with hostProducts := draft.hostProducts ++ [sub.product] }
  match hostProgress record selected.version health with
  | .converged =>
    let unknown := environment.unknown sub.instance
    if unknown || deployed ≠ some selected.version then
      let server := if unknown then "it as unknown" else deployed.getD "nothing"
      throw (s!"the host applier records {sub.product} {selected.version} applied in {env} at " ++
        s!"generation {record.generation}, but this server records {server}; once no apply " ++
        s!"runs, record it with \x60tenkaictl env reconcile {env} {sub.product} --deployed " ++
        s!"{selected.version}\x60")
    else pure draft
  | .needsHealth =>
    pure ({ draft with hostHealthOnly := draft.hostHealthOnly ++ [sub.product] }.add
      ⟨sub.product, sub.instance, .restart, some selected.version, selected.version, target,
        none, selected.kind⟩)
  | .needsInstall =>
    pure (draft.add ⟨sub.product, sub.instance, .install, deployed, selected.version, target,
      none, selected.kind⟩)

def observedAway (sub : Subscription) (selected : SelectedRelease) : Except String Bool :=
  if policy.observeLive then do
    let status ← catalog.observe sub selected
    pure (status = some .absent || status = some .mismatched)
  else pure false

/-- Reconciliation reads the manifest of a deployed release, and never restarts a host one. -/
def observedHost (release : String) : Except String Bool :=
  if policy.observeLive then do
    match ← catalog.readableManifest release with
    | some manifest => pure manifest.host
    | none => throw s!"release {release} not found"
  else pure false

/-- The configuration last applied is not the configuration now, or the instance is unhealthy. -/
def driftedFrom (sub : Subscription) : Bool :=
  ext.overlayDigest (environment.get .overlay sub.product) ≠
      (environment.get .appliedConfig (instanceKey sub.product sub.instance)).getD "" ||
    environment.get .deploymentHealth sub.instance = some "unhealthy"

def classifyChange (semver : SemverCrate) (current desired : String) : Action :=
  match semver.parse current, semver.parse desired with
  | some current, some target => if semver.lt target current then .downgrade else .upgrade
  | _, _ => .upgrade

/-- The pin of the release that is replaced, unless it is recalled. -/
def restorePin (release : String) : Except String (Option ReleasePin) := do
  if ← catalog.isRecalled release then pure none
  else do
    let pin ← catalog.pinRelease release
    pure (some pin)

def softwareChange (draft : Draft) (sub : Subscription) (selected : SelectedRelease)
    (target : ReleasePin) : Except String Draft :=
  match environment.get .deployed sub.instance with
  | none =>
    pure (draft.add ⟨sub.product, sub.instance, .install, none, selected.version, target, none,
      selected.kind⟩)
  | some version =>
    if version = selected.version then do
      let host ← observedHost catalog policy selected.releaseId
      let away ← observedAway catalog policy sub selected
      let retried := !policy.observeLive &&
        environment.failedTargetIsHeld sub.instance selected.releaseId
      if (retried || away || driftedFrom ext environment sub) && !host then
        pure (draft.add ⟨sub.product, sub.instance, .restart, some version, selected.version,
          target, none, selected.kind⟩)
      else pure draft
    else do
      let restore ← restorePin catalog (releaseId sub.product version)
      pure (draft.add ⟨sub.product, sub.instance,
        classifyChange ext.semver version selected.version, some version, selected.version,
        target, restore, selected.kind⟩)

def desiredStateInput (sub : Subscription) (selected : SelectedRelease) (target : ReleasePin) :
    DesiredStateInput where
  product := sub.product
  «instance» := if sub.instance = sub.product then "" else sub.instance
  channel := sub.channel
  channelId := sub.channelId
  desiredVersion := selected.version
  releaseId := selected.releaseId
  releaseDigest := target.digest
  artifactDigest := target.artifactDigest
  deployedVersion := environment.get .deployed sub.instance

def admitModule (selected : SelectedRelease) : Except String Unit :=
  if selected.kind = .workshopModule then catalog.admitWorkshopModule selected.releaseId
  else pure ()

def admittedChange (draft : Draft) (sub : Subscription) (selected : SelectedRelease)
    (target : ReleasePin) (host : Option (AppliedStateRecord × Bool)) : Except String Draft := do
  admitModule catalog selected
  let draft := { draft with
    inputs := draft.inputs ++ [desiredStateInput environment sub selected target] }
  match host with
  | some (record, health) => hostChange env environment draft sub selected target record health
  | none => softwareChange ext catalog policy environment draft sub selected target

/-- An unknown deployment is not planned over, except on a host. -/
def refuseUnknown (sub : Subscription) (host : Option (AppliedStateRecord × Bool)) :
    Except String Unit :=
  if host.isNone && environment.unknown sub.instance then
    let detail := (environment.get .deploymentError sub.instance).getD
      "deployment state requires manual reconciliation"
    throw (s!"deployment state for {sub.instance} in {env} is unknown: {detail}; reconcile it " ++
      "or use rollback before creating a new plan")
  else pure ()

def placedChange (draft : Draft) (sub : Subscription) (selected : SelectedRelease)
    (target : ReleasePin) (manifest : Option StoredManifest) : Except String Draft := do
  catalog.requirePlacement selected.releaseId
  let host ← hostRecord catalog sub.product manifest
  refuseUnknown env environment sub host
  -- a failed target stays held while the environment is reconciled
  if policy.observeLive && environment.failedTargetIsHeld sub.instance selected.releaseId then
    pure (draft.hold selected.kind)
  else admittedChange ext catalog policy env environment draft sub selected target host

def planSubscription (draft : Draft) (sub : Subscription) : Except String Draft :=
  -- nothing is promoted yet
  if sub.currentVersion.isEmpty || sub.currentRelease.isEmpty then pure draft
  else do
    let selected ← catalog.select sub
    let manifest ← catalog.readableManifest selected.releaseId
    let draft := { draft with
      productInstances := draft.productInstances ++
        [(sub.product, sub.instance, manifest.any (·.allowsSeveral))] }
    if ← catalog.isRecalled selected.releaseId then
      throw (s!"channel head {selected.releaseId} is recalled; promote another release before " ++
        s!"converging {sub.product} in {env}")
    else do
      let target ← catalog.pinRelease selected.releaseId
      if ← dependencyAdmission catalog policy selected.releaseId then
        placedChange ext catalog policy env environment draft sub selected target manifest
      else pure (draft.hold selected.kind)

/-! ### Removals -/

/-- `host_source`: of the two sides of a dirty record, the one the server recorded. -/
def hostSource (record : AppliedStateRecord) (deployed : Option String) : Option String :=
  match record.state with
  | .empty => none
  | .applied release => some release.version
  | .dirty before after =>
    let sides := [before, after].filterMap id
    ((sides.find? fun release => some release.version = deployed) <|> sides.head?).map (·.version)

def leftOnHost (instances : List String) (inst release : String) : Except String Bool := do
  if instances.contains inst then pure false
  else do
    let manifest ← catalog.readableManifest release
    pure (manifest.any (·.host))

/-- The instances that the environment records a host release for. -/
def recordedOnHost (instances : List String) : Except String (Std.TreeSet String) := do
  let deployed ← (environment.listed .deployed).foldlM (fun removable entry => do
    let left ← leftOnHost catalog instances entry.1
      (environment.deployedReleaseId entry.1 entry.2)
    pure (if left then removable.insert entry.1 else removable)) (∅ : Std.TreeSet String)
  (environment.listed .failedTarget).foldlM (fun removable entry => do
    if environment.unknown entry.1 then do
      let left ← leftOnHost catalog instances entry.1 entry.2
      pure (if left then removable.insert entry.1 else removable)
    else pure removable) deployed

/-- The applier's records of products that this server delivered. -/
def managedOnHost (applier : HostApplier) (instances : List String)
    (removable : Std.TreeSet String) : Except String (Std.TreeSet String) := do
  let records ← applier.appliedStates
  records.foldlM (fun removable record => do
    let recorded := (environment.get .deployed record.product).isSome ||
      (environment.get .deployedPrev record.product).isSome ||
      (environment.get .deploymentHealth record.product).isSome
    let planned ← match record.lastStarted with
      | some started => catalog.planExists started.planId
      | none => pure false
    pure (if (recorded || planned) && !instances.contains record.product then
      removable.insert record.product else removable)) removable

/-- What the server records of an instance to be removed of which the applier has nothing. -/
def serverRecord (inst : String) : Option String :=
  match environment.get .deployed inst with
  | some deployed => some deployed
  | none => if environment.unknown inst then some "it as unknown" else none

def removalChange (applier : HostApplier) (pending : List PendingChange) (name : String) :
    Except String (List PendingChange) := do
  let product := environment.productForInstance name
  let record ← applier.appliedState product
  match hostSource record (environment.get .deployed name),
      serverRecord environment name with
  | some version, _ => do
    let target ← catalog.pinReleaseForRecovery (releaseId product version)
    pure (pending ++ [⟨product, name, .remove, some version, version, target, none,
      .software⟩])
  | none, some server =>
    throw (s!"the host applier records nothing applied for {name} in {env} at generation " ++
      s!"{record.generation}, but this server records {server}; once no apply runs, record " ++
      s!"it with \x60tenkaictl env reconcile {env} {product}\x60")
  | none, none => pure pending

def planRemovals (instances : List String) (pending : List PendingChange) :
    Except String (List PendingChange) := do
  let removable ← recordedOnHost catalog environment instances
  match catalog.host with
  | .ok applier => do
    let removable ← managedOnHost catalog environment applier instances removable
    removable.toList.foldlM (removalChange catalog env environment applier) pending
  | .error error =>
    match removable.toList with
    | product :: _ => throw s!"{product} is a host release to remove from {env}: {error}"
    | [] => pure pending

/-! ### What is installed, and what is planned -/

/-- Several instances of a product need releases that allow it. -/
def refuseSecondOneInstance (productInstances : List (String × String × Bool)) :
    Except String Unit :=
  ((productInstances.map (·.1)).insertionSort (· ≤ ·)).forM fun product =>
    match productInstances.filter (·.1 = product) with
    | first :: second :: rest =>
      if (first :: second :: rest).all (·.2.2) then pure ()
      else throw (s!"environment {env} already has instance {first.2.1} of product {product}; " ++
        s!"a second instance {second.2.1} needs [deploy] instances = \"many\" on the release")
    | _ => pure ()

/-- A held model or route keeps its counterpart from being changed alone. -/
def retainHeld (draft : Draft) (pending : List PendingChange) : List PendingChange :=
  (pending.filter fun entry => !(draft.heldModel && entry.kind = .routingConfig)).filter
    fun entry => !(draft.heldRouting && entry.kind = .modelRuntime &&
      (entry.action = .downgrade || entry.action = .rollback))

def noteProfile (profiles : Profiles) (product release : String) : Except String Profiles := do
  if profiles.contains product then pure profiles
  else do
    match ← catalog.readableManifest release with
    | some manifest =>
      match manifest.compatibility with
      | some profile => pure (profiles.insert product profile)
      | none => pure profiles
    | none => pure profiles

def targetProfiles (pending : List PendingChange) : Except String Profiles :=
  pending.foldlM (fun profiles entry =>
    if entry.action = .remove then pure profiles
    else noteProfile catalog profiles entry.product entry.release.releaseId) ∅

/-- `installed_profiles`: the profiles of what is deployed, by product. -/
def installedProfiles : Except String Profiles :=
  (environment.listed .deployed).foldlM (fun profiles entry =>
    noteProfile catalog profiles (environment.productForInstance entry.1)
      (environment.deployedReleaseId entry.1 entry.2)) ∅

/-! ### Re-renders -/

/-- The version of each product that the plan leaves. -/
def remainingVersions (pending : List PendingChange) : Std.TreeMap String String :=
  pending.foldl (fun versions entry =>
    if entry.action = .remove then versions.erase entry.product
    else versions.insert entry.product entry.toVersion)
    ((environment.listed .deployed).foldl (fun versions entry => versions.insert entry.1 entry.2) ∅)

/-- Profiles with the versions they are deployed at. -/
def withVersions (version : String → Option String) (profiles : Profiles) : Deployed :=
  profiles.toList.foldl (fun deployed entry =>
    match version entry.1 with
    | some version => deployed.insert entry.1 (version, entry.2)
    | none => deployed) ∅

def documentDigestOf (document : Option DependencyDocument) : String :=
  (document.map ext.documentDigest).getD ""

/-- The document of a product that stays as it is changes, or was never applied. -/
def documentChanges (product : String) (profile : CompatibilityProfile)
    (remainingProfile : Option CompatibilityProfile) (current remaining : Deployed) :
    Except String Bool := do
  let before ← documentFor ext.semver product profile current
  let after ← match remainingProfile with
    | some profile => documentFor ext.semver product profile remaining
    | none => pure none
  let digest := documentDigestOf ext after
  let applied := (environment.get .appliedDependencies product).getD ""
  pure (before.map (·.content) ≠ after.map (·.content) || (!digest.isEmpty && digest ≠ applied))

def rerender (extra : List PendingChange) (product version : String) :
    Except String (List PendingChange) := do
  match ← catalog.readableManifest (releaseId product version) with
  | none => pure extra
  | some manifest =>
    if manifest.host then pure extra
    else do
      let target ← catalog.pinRelease (releaseId product version)
      pure (extra ++ [⟨product, product, .restart, some version, version, target, none,
        manifest.kind⟩])

def actionsOf (pending : List PendingChange) : List PendingAction :=
  pending.map fun entry => (entry.product, entry.action)

def rerenderProduct (pending : List PendingChange) (hostProducts : List String)
    (remainingProfiles : Profiles) (current remaining : Deployed) (extra : List PendingChange)
    (entry : String × CompatibilityProfile) : Except String (List PendingChange) :=
  if pending.any (·.product = entry.1) || hostProducts.contains entry.1 then pure extra
  else
    match environment.get .deployed entry.1 with
    | none => pure extra
    | some version => do
      if ← documentChanges ext environment entry.1 entry.2 remainingProfiles[entry.1]? current
          remaining then
        rerender catalog extra entry.1 version
      else pure extra

def scheduleDependencyRerenders (pending : List PendingChange) (installed target : Profiles)
    (hostProducts : List String) : Except String (List PendingChange) := do
  let remainingProfiles := overlayProfiles installed target (actionsOf pending)
  let versions := remainingVersions environment pending
  let current := withVersions (environment.get .deployed) installed
  let remaining := withVersions (fun product => versions[product]?) remainingProfiles
  let extra ← installed.toList.foldlM (rerenderProduct ext catalog environment pending
    hostProducts remainingProfiles current remaining) []
  pure (pending ++ extra)

/-! ### The order of the steps -/

def modelRoutingRolloutRank (kind : ProductKind) (action : Action) : Nat :=
  let reverse := reverseContractAction action
  match kind with
  | .modelRuntime => if reverse then 1 else 0
  | .routingConfig => if reverse then 0 else 1
  | _ => 2

/-- Products restarted after the removal or downgrade of a provider. -/
def rerenderAfterReverse (order : ContractPlanOrder) (pending : List PendingChange)
    (product : String) : Bool :=
  order.installedEdges.any fun edge =>
    edge.2.1 = product &&
      pending.any (fun entry => entry.product = edge.1 && reverseContractAction entry.action) &&
      pending.any fun entry => entry.product = product && entry.action = .restart

def changeBand (order : ContractPlanOrder) (pending : List PendingChange)
    (entry : PendingChange) : Nat :=
  if entry.action = .restart && rerenderAfterReverse order pending entry.product then 2
  else if entry.action = .remove then 1
  else 0

/-- What the changes are sorted by, in this order: the runtime agent last, the band, hosts
    first, the rollout rank, the contract rank, and the names. -/
def changeKey (order : ContractPlanOrder) (pending : List PendingChange)
    (hostProducts : List String) (entry : PendingChange) :
    Nat × Nat × Nat × Nat × Nat × String × String :=
  (if entry.product = "tenkai-runtime" then 1 else 0,
    changeBand order pending entry,
    if hostProducts.contains entry.product then 0 else 1,
    modelRoutingRolloutRank entry.kind entry.action,
    (order.ranks[entry.product]?).getD 4294967295,
    entry.product, entry.instance)

def compareKeys (a b : Nat × Nat × Nat × Nat × Nat × String × String) : Ordering :=
  (compare a.1 b.1).then ((compare a.2.1 b.2.1).then ((compare a.2.2.1 b.2.2.1).then
    ((compare a.2.2.2.1 b.2.2.2.1).then ((compare a.2.2.2.2.1 b.2.2.2.2.1).then
      ((compare a.2.2.2.2.2.1 b.2.2.2.2.2.1).then (compare a.2.2.2.2.2.2 b.2.2.2.2.2.2))))))

def sortChanges (order : ContractPlanOrder) (hostProducts : List String)
    (pending : List PendingChange) : List PendingChange :=
  pending.insertionSort fun a b =>
    (compareKeys (changeKey order pending hostProducts a)
      (changeKey order pending hostProducts b)).isLE

def toStep (hostHealthOnly : List String) (entry : PendingChange) (index : Nat) : Step where
  id := s!"tenkai:environment:{env}:step:{index}"
  order := index
  product := entry.product
  «instance» := if entry.instance = entry.product then "" else entry.instance
  action := entry.action
  fromVersion := entry.fromVersion
  toVersion := entry.toVersion
  releaseId := entry.release.releaseId
  releaseDigest := entry.release.digest
  artifactDigest := entry.release.artifactDigest
  workdir := entry.release.workdir
  restore := entry.restore
  -- the generation is set when the step is bound to the applier's record
  host := if hostHealthOnly.contains entry.product then some ⟨.health, 0⟩ else none

/-- The changes before they are ordered, with the profiles they are ordered by. -/
def pendingChanges (draft : Draft) (subscriptions : List Subscription) :
    Except String (List PendingChange × Profiles × Profiles) := do
  let removals ← planRemovals catalog env environment (subscriptions.map (·.instance)) draft.pending
  refuseSecondOneInstance env draft.productInstances
  let pending := retainHeld draft removals
  let target ← targetProfiles catalog pending
  let installed ← installedProfiles catalog environment
  let pending ← scheduleDependencyRerenders ext catalog environment pending installed target
    draft.hostProducts
  pure (pending, target, installed)

def orderedChanges (draft : Draft) (pending : List PendingChange) (target installed : Profiles) :
    Except String (List PendingChange) := do
  let order ← contractPlanOrder ext.semver (actionsOf pending) target installed
  let sorted := sortChanges order draft.hostProducts pending
  refuseInvertedContractOrder (actionsOf sorted) order
  pure sorted

def refuseDuplicateInstances (subscriptions : List Subscription) : Except String Unit :=
  match (subscriptions.map (·.instance)).find? fun name =>
      1 < (subscriptions.map (·.instance)).count name with
  | some name =>
    throw (s!"environment {env} has duplicate instance {name}; subscribe again after " ++
      "concurrent updates settle")
  | none => pure ()

def computeSnapshotWithPolicy (subscriptions : List Subscription) :
    Except String (List DesiredStateInput × List Step) := do
  refuseDuplicateInstances env subscriptions
  let draft ← subscriptions.foldlM (planSubscription ext catalog policy env environment) .empty
  let (pending, target, installed) ← pendingChanges ext catalog env environment draft subscriptions
  let sorted ← orderedChanges ext draft pending target installed
  pure (draft.inputs.insertionSort (fun a b => a.product ≤ b.product),
    sorted.zipIdx.map fun entry => toStep env draft.hostHealthOnly entry.1 entry.2)

/-! ### Steps of host releases -/

def bindHostStep (step : Step) : Except String (List Step) := do
  match ← catalog.readableManifest step.releaseId with
  | none => pure [step]
  | some manifest =>
    if !manifest.host then
      if step.action = .remove then
        throw (s!"{step.releaseId} is not a host release; only host releases are removed by " ++
          "a plan")
      else pure [step]
    else do
      let applier ← catalog.host
      let record ← applier.appliedState step.product
      match step.host with
      | some ⟨.health, _⟩ => pure [{ step with host := some ⟨.health, record.generation⟩ }]
      | some _ => throw s!"step for host release {step.releaseId} is already bound"
      | none =>
        if step.action = .restart then
          throw (s!"host release {step.releaseId} is never restarted; plan a new install " ++
            "instead")
        else if step.action = .remove then
          pure [{ step with
            fromVersion := some step.toVersion
            restore := none
            host := some ⟨.uninstall, record.generation⟩ }]
        else
          let source := hostSource record step.fromVersion
          let action := if step.action = .rollback then step.action
            else match source with
              | none => .install
              | some current => classifyChange ext.semver current step.toVersion
          let install := { step with
            action := action, fromVersion := source, restore := none
            host := some ⟨.install, record.generation⟩ }
          if manifest.declaresHealth then
            pure [install, { install with
              action := if action = .rollback then action else .restart
              fromVersion := some step.toVersion
              host := some ⟨.health, record.generation + 1⟩ }]
          else pure [install]

def bindHostSteps (steps : List Step) : Except String (List Step) :=
  steps.foldlM (fun bound step => do
    let bindings ← bindHostStep ext catalog step
    pure (bound ++ bindings)) []

/-- The steps of the plan that reconciliation stores (`create_for_reconcile`); their ids and
    order are set when the plan is put together. -/
def reconcileSteps (subscriptions : List Subscription) : Except String (List Step) := do
  let (_, steps) ← computeSnapshotWithPolicy ext catalog .reconcile env environment subscriptions
  if steps.isEmpty then pure [] else bindHostSteps ext catalog steps

end Planner

/-! ### Where the steps of a plan come from -/

/-- Why a change is planned. -/
inductive ChangeOrigin (catalog : Catalog) (policy : ConvergencePolicy) (environment : Properties)
    (subscriptions : List Subscription) (change : PendingChange) : Prop
  /-- Its instance is subscribed to a channel that selects its release, which is not held. -/
  | subscribed (sub : Subscription) (selected : SelectedRelease) (hsub : sub ∈ subscriptions)
      (hselected : catalog.select sub = .ok selected) (hinstance : change.instance = sub.instance)
      (hproduct : change.product = sub.product) (hversion : change.toVersion = selected.version)
      (hrelease : change.release.releaseId = selected.releaseId)
      (hheld : ¬ (policy.observeLive && environment.failedTargetIsHeld sub.instance
        selected.releaseId))
  /-- It removes what is not subscribed to any more. -/
  | removed (haction : change.action = .remove)
  /-- Its product stays as it is, but the document of its dependencies changes. -/
  | rerendered (hinstance : change.instance = change.product) (haction : change.action = .restart)
      (hdeployed : environment.get .deployed change.product = some change.toVersion)
      (hrelease : change.release.releaseId = releaseId change.product change.toVersion)

variable {pending : List PendingChange} {sub : Subscription}

section Origin

variable {ext : PlanExternals} {catalog : Catalog} {policy : ConvergencePolicy} {env : String}
  {environment : Properties} {subs : List Subscription} {draft : Draft}

def Originate (catalog : Catalog) (policy : ConvergencePolicy) (environment : Properties)
    (subscriptions : List Subscription) (pending : List PendingChange) : Prop :=
  ∀ change ∈ pending, ChangeOrigin catalog policy environment subscriptions change

theorem Originate.append {change : PendingChange}
    (h : Originate catalog policy environment subs pending)
    (hchg : ChangeOrigin catalog policy environment subs change) :
    Originate catalog policy environment subs (pending ++ [change]) := by
  intro other hoth
  rcases List.mem_append.mp hoth with hoth | hoth
  · exact h other hoth
  · rwa [List.mem_singleton.mp hoth]

theorem Catalog.ensures_pinRelease (release : String) :
    Ensures (catalog.pinRelease release) fun pin => pin.releaseId = release :=
  .after fun _ => .pure rfl

theorem originate_planSubscription (hsub : sub ∈ subs)
    (h : Originate catalog policy environment subs draft.pending) :
    Ensures (planSubscription ext catalog policy env environment draft sub) fun draft =>
      Originate catalog policy environment subs draft.pending := by
  refine .ite (fun _ => .pure h) fun _ => ?_
  refine .bind (.returned _) fun selected hsel => ?_
  refine .after fun _ => .after fun _ => ?_
  refine .ite (fun _ => .throw) fun _ => ?_
  refine .bind (Catalog.ensures_pinRelease _) fun target htgt => ?_
  refine .after fun _ => .ite (fun _ => ?_) fun _ => .pure h
  refine .after fun _ => .after fun host => .after fun _ => ?_
  refine .ite (fun _ => .pure h) fun hheld => ?_
  have hsubs : ∀ action fromVersion restore, ChangeOrigin catalog policy environment subs
        ⟨sub.product, sub.instance, action, fromVersion, selected.version, target, restore,
          selected.kind⟩ := fun action fromVersion restore =>
    .subscribed sub selected hsub hsel rfl rfl rfl htgt hheld
  refine .after fun _ => ?_
  split
  · unfold hostChange
    split
    · refine .ite (fun _ => .throw) fun _ => .pure h
    · exact .pure (h.append (hsubs _ _ none))
    · exact .pure (h.append (hsubs _ _ none))
  · unfold softwareChange
    split
    · exact .pure (h.append (hsubs _ _ _))
    · refine .ite (fun _ => ?_) fun _ => ?_
      · refine .after fun host => .after fun _ => ?_
        exact .ite (fun _ => .pure (h.append (hsubs _ _ _))) fun _ => .pure h
      · exact .after fun restore => .pure (h.append (hsubs _ _ _))

theorem originate_planRemovals {instances : List String}
    (h : Originate catalog policy environment subs pending) :
    Ensures (planRemovals catalog env environment instances pending) fun pending =>
      Originate catalog policy environment subs pending := by
  refine .after fun removable => ?_
  split
  · refine .after fun removable => .foldlM h fun pending _ _ hpend => ?_
    refine .after fun r => ?_
    split
    · exact .after fun _ => .pure (hpend.append (.removed rfl))
    · exact .throw
    · exact .pure hpend
  · split
    · exact .throw
    · exact .pure h

theorem originate_rerenders {installed target : Profiles} {hosts : List String}
    (h : Originate catalog policy environment subs pending) :
    Ensures (scheduleDependencyRerenders ext catalog environment pending installed target hosts) fun
      pending => Originate catalog policy environment subs pending := by
  refine .bind (P := Originate catalog policy environment subs)
    (.foldlM (by simp [Originate]) ?_) fun extra hextra => .pure ?_
  · rintro extra ⟨_, _⟩ - hextra
    refine .ite (fun _ => .pure hextra) fun _ => ?_
    split
    · exact .pure hextra
    next v hver =>
      refine .after fun _ => .ite (fun _ => ?_) fun _ => .pure hextra
      refine .after fun manifest => ?_
      split
      · exact .pure hextra
      next manifest =>
        refine .ite (fun _ => .pure hextra) fun _ => ?_
        refine .bind (Catalog.ensures_pinRelease _) fun target htgt => .pure ?_
        exact hextra.append (.rerendered rfl rfl hver htgt)
  · intro change hchg
    rcases List.mem_append.mp hchg with hchg | hchg
    · exact h change hchg
    · exact hextra change hchg

theorem originate_computeSnapshot :
    Ensures (computeSnapshotWithPolicy ext catalog policy env environment subs)
      fun snap => ∀ step ∈ snap.2, ∃ hostHealthOnly change k,
        step = toStep env hostHealthOnly change k ∧
          ChangeOrigin catalog policy environment subs change := by
  refine .after fun _ => ?_
  have hdraft : Ensures (subs.foldlM
      (planSubscription ext catalog policy env environment) .empty) fun draft =>
        Originate catalog policy environment subs draft.pending :=
    .foldlM (by simp [Originate, Draft.empty]) fun draft _ hsub hdraft =>
      originate_planSubscription hsub hdraft
  refine .bind hdraft fun draft hdraft => ?_
  have hpend : Ensures (pendingChanges ext catalog env environment draft subs)
      fun changes => Originate catalog policy environment subs changes.1 := by
    refine .bind (originate_planRemovals hdraft) fun removals hremovals => ?_
    have hretained : Originate catalog policy environment subs
        (retainHeld draft removals) := fun change hchg =>
      hremovals change (List.mem_of_mem_filter (List.mem_of_mem_filter hchg))
    refine .after fun _ => .after fun target => .after fun installed => ?_
    exact .bind (originate_rerenders hretained) fun pending hpend => .pure hpend
  refine .bind hpend fun changes hchgs => ?_
  obtain ⟨pending, target, installed⟩ := changes
  have hsrt : Ensures (orderedChanges ext draft pending target installed)
      (Originate catalog policy environment subs) := by
    refine .after fun _ => .after fun _ => .pure fun change hchg => ?_
    exact hchgs change ((List.mem_insertionSort _).mp hchg)
  refine .bind hsrt fun _ hsrt => .pure ?_
  intro step hstep
  obtain ⟨⟨change, k⟩, hent, rfl⟩ := List.mem_map.mp hstep
  exact ⟨_, change, k, rfl, hsrt change
    (List.mem_of_getElem? (List.mem_zipIdx_iff_getElem?.mp hent))⟩

end Origin

end Tenkai
