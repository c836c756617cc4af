import Mathlib.Data.List.Sort
import Tenkai.Compatibility
import Tenkai.Criticality
import Tenkai.Deployment
import Tenkai.Fallible

/-!
# Which environments run an affected release

The exposure query (`exposure.rs`) and the recall notices (`recall_notice.rs`) read
`deployed_release.{product}`, which is what runs in the instance named after the product.
`Environment` carries beside the properties what each instance runs. The reports are exact where no
affected release runs in a named instance only (`reports_exact_iff`).
-/

namespace Tenkai.Exposure

/-! ### Releases and environments -/

/-- A product and a version. An identifier has no `@`, so the id of a release says which two. -/
structure ReleaseName where
  product : String
  version : String
  plain : '@' ∉ product.toList
  deriving DecidableEq

namespace ReleaseName

def id (name : ReleaseName) : String := releaseId name.product name.version

def spec (name : ReleaseName) : String := name.product ++ "@" ++ name.version

theorem id_inj {name other : ReleaseName} (h : name.id = other.id) : name = other := by
  have hlist : ∀ name : ReleaseName, name.id.toList =
      "tenkai:release:".toList ++ (name.product.toList ++ '@' :: name.version.toList) := by
    intro name
    have hat : "@".toList = ['@'] := rfl
    simp only [id, releaseId, String.toList_append, hat, List.append_assoc, List.singleton_append]
  have hsplit := congrArg String.toList h
  rw [hlist, hlist, List.append_cancel_left_eq,
    append_cons_inj_of_notMem_left name.plain other.plain] at hsplit
  cases name
  cases other
  simp_all [String.toList_inj]

end ReleaseName

/-- An environment object. `running` is what each instance runs, and the properties record it. -/
structure Environment where
  name : String
  properties : Properties
  running : String → Option ReleaseName
  recorded : ∀ «instance»,
    properties.get .deployedRelease «instance» = (running «instance»).map ReleaseName.id

variable {affected : ReleaseName → Prop} {envs : List Environment}

namespace Environment

def runningAfter (transition : DeploymentTransition) (product : String)
    (hproduct : '@' ∉ product.toList) (before : Option ReleaseName) : Option ReleaseName :=
  match transition with
  | .unchanged | .refreshed => before
  | .deployed version _ => some ⟨product, version, hproduct⟩
  | .removed _ | .unknown => none

/-- `transition_deployment`: the record of one instance changes with what it runs. -/
def transition (environment : Environment) (digest : Option String → String)
    (product inst : String) (hproduct : '@' ∉ product.toList)
    (transition : DeploymentTransition) (detail : String) : Environment where
  name := environment.name
  properties := environment.properties.transitionDeployment digest product inst transition
    detail
  running name := if name = instanceKey product inst then
      runningAfter transition product hproduct (environment.running name)
    else environment.running name
  recorded := by
    intro name
    rw [Properties.get_transitionDeployment (.inl rfl), DeploymentTransition.valueAfter]
    by_cases hname : name = instanceKey product inst
    · rw [if_pos hname, if_pos hname, environment.recorded]
      cases transition <;> rfl
    · rw [if_neg hname, if_neg hname, environment.recorded]

/-- Some instance runs an affected release. -/
def RunsAny (environment : Environment) (affected : ReleaseName → Prop) : Prop :=
  ∃ inst release, environment.running inst = some release ∧ affected release

/-- An instance that is named after its product runs an affected release. -/
def RunsByDefault (environment : Environment) (affected : ReleaseName → Prop) : Prop :=
  ∃ release, environment.running release.product = some release ∧ affected release

theorem RunsByDefault.runsAny {env : Environment} (h : env.RunsByDefault affected) :
    env.RunsAny affected := by
  obtain ⟨rel, hrun, haffected⟩ := h
  exact ⟨rel.product, rel, hrun, haffected⟩

/-- The property that both reports read names a release exactly if the instance named after its
    product runs it. -/
theorem deployedRelease_eq_iff (env : Environment) (release : ReleaseName) :
    env.properties.get .deployedRelease release.product = some release.id ↔
      env.running release.product = some release := by
  rw [env.recorded]
  constructor
  · intro h
    obtain ⟨other, hoth, hid⟩ := Option.map_eq_some_iff.mp h
    rw [hoth, ReleaseName.id_inj hid]
  · intro h
    rw [h]
    rfl

end Environment

/-! ### Inventories -/

structure InventoryComponent where
  name : String
  version : String

structure ComponentInventory where
  schema : String
  digest : String
  components : List InventoryComponent

/-- A release object. The catalog stores it under the id of its product and version. -/
structure Release where
  name : ReleaseName
  manifest : Option String
  inventoryDocument : Option String
  inventoryDigest : Option String

/-- What parses and hashes documents. -/
structure Parsers where
  version : String → Option Semver
  /-- `VersionReq::parse`, as the test it makes of a version. -/
  range : String → Option (Semver → Bool)
  /-- The schema and the components of an inventory document. -/
  inventory : String → Except String (String × List InventoryComponent)
  /-- Whether a manifest has an `[inventory]` section. -/
  declaresInventory : String → Except String Bool
  integer : String → Option Int
  digest : String → String
  /-- `trim().is_empty()`. -/
  blank : String → Bool

section Inventory

variable (parsers : Parsers)

def parseInventoryBytes (document : String) : Except String ComponentInventory := do
  let (schema, components) ← parsers.inventory document
  pure ⟨schema, parsers.digest document, components⟩

def storedInventory (release : Release) : Except String (Option ComponentInventory) :=
  match release.inventoryDocument with
  | none => pure none
  | some document => do
    let digest := release.inventoryDigest.getD ""
    refuseIf (digest ≠ parsers.digest document)
      s!"release {release.name.id} stored inventory does not match its recorded digest"
    let parsed ← parseInventoryBytes parsers document
    refuseIf (parsed.digest ≠ digest)
      s!"release {release.name.id} stored inventory does not match its recorded digest"
    pure (some parsed)

/-- `validate_stored_inventory`, for a read of the catalog: without a workdir. -/
def validateStoredInventory (release : Release) : Except String Unit := do
  match ← storedInventory parsers release, release.manifest with
  | some _, some raw =>
    if ← parsers.declaresInventory raw then pure ()
    else throw (s!"release {release.name.id} has an inventory that is not declared in its " ++
      "signed manifest")
  | _, _ => pure ()

/-- A version that is not one of `semver`'s cannot be shown to be outside a range. -/
def versionInRange (version range : String) : Except String Bool :=
  match parsers.range range with
  | none => throw s!"invalid version range {range.quote}"
  | some requirement => pure ((parsers.version version).elim true requirement)

/-- The first component of a name in a range. -/
def matchingComponent (component range : String) :
    List InventoryComponent → Except String (Option InventoryComponent)
  | [] => pure none
  | entry :: entries => do
    if entry.name = component then
      if ← versionInRange parsers entry.version range then pure (some entry)
      else matchingComponent component range entries
    else matchingComponent component range entries

end Inventory

/-! ### The exposure query -/

inductive Freshness
  | hub
  | asOfLastBundleImport (importedAt : Int)
  | unknown
  deriving DecidableEq

structure EnvironmentExposure where
  environment : String
  deployedRelease : String
  freshness : Freshness
  criticality : Option CriticalityLevel
  deriving DecidableEq

structure ReleaseExposure where
  release : String
  product : String
  version : String
  releaseId : String
  component : String
  componentVersion : String
  channels : List String
  environments : List EnvironmentExposure
  productCriticality : Option CriticalityLevel
  criticality : Option CriticalityLevel
  deriving DecidableEq

structure ExposureQueryRequest where
  component : String
  range : String
  minCriticality : Option CriticalityLevel

structure ExposureQueryResult where
  component : String
  range : String
  found : List ReleaseExposure
  deriving DecidableEq

structure Channel where
  product : String
  channel : String
  currentRelease : Option String

/-- The stored objects that the query reads. Environments are stored under their names. -/
structure Records where
  releases : List Release
  channels : List Channel
  products : String → Option Properties
  environments : List Environment
  distinct : (environments.map (·.name)).Nodup

section Query

variable (parsers : Parsers)

def environmentFreshness (properties : Properties) : Freshness :=
  let «class» := (properties.lookup "connectivity_class").getD "connected"
  if «class» = "isolated" ∨ «class» = "intermittent" then
    match ((properties.lookup "last_bundle_import_at").bind parsers.integer).filter (0 < ·) with
    | some importedAt => .asOfLastBundleImport importedAt
    | none => .unknown
  else .hub

def matchedChannels (channels : List Channel) (release : Release) : List String :=
  ((channels.filter fun channel => channel.currentRelease = some release.name.id).map
    fun channel => channel.product ++ "/" ++ channel.channel).insertionSort (· ≤ ·)

/-- `None` is below every level. -/
def belowMinimum (minimum level : Option CriticalityLevel) : Bool :=
  match minimum with
  | some minimum => Criticality.rank level < Criticality.rank (some minimum)
  | none => false

def environmentExposure (release : Release) (minimum productCriticality : Option CriticalityLevel)
    (now : Int) (environment : Environment) : Except String (Option EnvironmentExposure) :=
  if environment.properties.get .deployedRelease release.name.product ≠ some release.name.id then
    pure none
  else do
    let criticality ← Criticality.effectiveLevel parsers.integer environment.properties now
    if belowMinimum minimum criticality && belowMinimum minimum productCriticality then pure none
    else pure (some ⟨environment.name, release.name.spec,
      environmentFreshness parsers environment.properties, criticality⟩)

def environmentLE (left right : EnvironmentExposure) : Bool :=
  Criticality.rank right.criticality < Criticality.rank left.criticality ||
    (Criticality.rank left.criticality = Criticality.rank right.criticality &&
      left.environment ≤ right.environment)

def releaseLE (left right : ReleaseExposure) : Bool :=
  Criticality.rank right.criticality < Criticality.rank left.criticality ||
    (Criticality.rank left.criticality = Criticality.rank right.criticality &&
      left.releaseId ≤ right.releaseId)

def productLevel (records : Records) (product : String) (now : Int) :
    Except String (Option CriticalityLevel) :=
  match records.products product with
  | some properties => Criticality.effectiveLevel parsers.integer properties now
  | none => pure none

def exposureOf (records : Records) (request : ExposureQueryRequest) (release : Release)
    (hit : InventoryComponent) (now : Int) : Except String (Option ReleaseExposure) := do
  let productCriticality ← productLevel parsers records release.name.product now
  let matched ← collect (environmentExposure parsers release request.minCriticality
    productCriticality now) records.environments
  let environments := matched.insertionSort (environmentLE · ·)
  let criticality := Criticality.higher productCriticality
    (environments.foldl (fun highest entry => Criticality.higher highest entry.criticality) none)
  if belowMinimum request.minCriticality criticality then pure none
  else pure (some ⟨release.name.spec, release.name.product, release.name.version, release.name.id,
    hit.name, hit.version, matchedChannels records.channels release, environments,
    productCriticality, criticality⟩)

/-- One turn of the loop over the releases. The clock is read for each. -/
def releaseExposure (records : Records) (request : ExposureQueryRequest) (now : Release → Int)
    (release : Release) : Except String (Option ReleaseExposure) := do
  validateStoredInventory parsers release
  match ← storedInventory parsers release with
  | none => pure none
  | some inventory =>
    match ← matchingComponent parsers request.component request.range inventory.components with
    | none => pure none
    | some hit => exposureOf parsers records request release hit (now release)

def queryWith (records : Records) (request : ExposureQueryRequest) (now : Release → Int) :
    Except String ExposureQueryResult := do
  refuseIf (parsers.blank request.component ∨ parsers.blank request.range)
    "exposure query requires --component and --range"
  refuseIf (parsers.range request.range = none) s!"invalid version range {request.range.quote}"
  let found ← collect (releaseExposure parsers records request now) records.releases
  pure ⟨request.component, request.range, found.insertionSort (releaseLE · ·)⟩

def query (records : Records) (component range : String) (now : Release → Int) :
    Except String ExposureQueryResult :=
  queryWith parsers records ⟨component, range, none⟩ now

end Query

def ExposureQueryResult.Lists (result : ExposureQueryResult) (environment : String) : Prop :=
  ∃ exposure ∈ result.found, ∃ entry ∈ exposure.environments, entry.environment = environment

/-- A release of the catalog has an inventory with a component of a name in a range. -/
def Records.Exposes (records : Records) (parsers : Parsers) (component range : String)
    (name : ReleaseName) : Prop :=
  ∃ release ∈ records.releases, release.name = name ∧
    ∃ inventory, storedInventory parsers release = .ok (some inventory) ∧
      ∃ entry ∈ inventory.components, entry.name = component ∧
        versionInRange parsers entry.version range = .ok true

/-! ### Recall notices -/

structure RecalledRelease where
  release : String
  digest : String

structure RunningEnvironment where
  environment : String
  deployedRelease : String
  deriving DecidableEq

def validateIdentifier (label value : String) : Except String Unit :=
  let refusal := s!"{label} must start with an ASCII letter or digit and contain only letters, " ++
    "digits, '.', '_', '-', or '+'"
  match value.toList with
  | first :: rest =>
    if first.isAlphanum && rest.all (fun c => c.isAlphanum || "._-+".toList.contains c) then
      pure ()
    else throw refusal
  | [] => throw refusal

theorem at_notMem_takeWhile (spec : List Char) :
    '@' ∉ (String.ofList (spec.takeWhile (· ≠ '@'))).toList := by
  rw [String.toList_ofList]
  intro h
  have hall := List.all_eq_true.mp (List.all_takeWhile (p := (· ≠ '@'))) _ h
  simp at hall

def parseReleaseSpec (spec : String) : Except String ReleaseName :=
  if '@' ∈ spec.toList then do
    let name : ReleaseName := {
      product := String.ofList (spec.toList.takeWhile (· ≠ '@'))
      version := String.ofList ((spec.toList.dropWhile (· ≠ '@')).drop 1)
      plain := at_notMem_takeWhile spec.toList }
    validateIdentifier "product" name.product
    validateIdentifier "version" name.version
    pure name
  else throw s!"expected <product>@<version>, got {spec.quote}"

/-- `Vec::dedup`: of equal neighbours the first is kept. -/
def dedupNeighbours {α : Type} [DecidableEq α] : List α → List α
  | [] => []
  | [a] => [a]
  | a :: b :: rest =>
    if a = b then dedupNeighbours (b :: rest) else a :: dedupNeighbours (b :: rest)

theorem mem_dedupNeighbours {α : Type} [DecidableEq α] (items : List α) (a : α) :
    a ∈ dedupNeighbours items ↔ a ∈ items := by
  fun_induction dedupNeighbours items with
  | case1 | case2 => rfl
  | case3 b rest ih => simp [ih]
  | case4 b c rest hne ih => simp [ih]

def runningLE (left right : RunningEnvironment) : Bool :=
  left.environment < right.environment ||
    (left.environment = right.environment && left.deployedRelease ≤ right.deployedRelease)

/-- The environments whose record names one recalled release. -/
def runningRelease (environments : List Environment) (name : ReleaseName) :
    List RunningEnvironment :=
  (environments.filter fun environment =>
    environment.properties.get .deployedRelease name.product = some name.id).map
      fun environment => ⟨environment.name, name.spec⟩

def environmentsRunning (environments : List Environment) (recalled : List RecalledRelease) :
    Except String (List RunningEnvironment) := do
  let names ← recalled.mapM fun entry => parseReleaseSpec entry.release
  pure (dedupNeighbours ((names.flatMap (runningRelease environments)).insertionSort (runningLE · ·)))

def Recalls (recalled : List RecalledRelease) (name : ReleaseName) : Prop :=
  ∃ entry ∈ recalled, parseReleaseSpec entry.release = .ok name

/-! ### What the query lists -/

variable {release : Release}

section Lists

variable {parsers : Parsers} {recs : Records} {comp range : String}

theorem matchingComponent_isSome {entries : List InventoryComponent}
    {hit : Option InventoryComponent} (h : matchingComponent parsers comp range entries = .ok hit) :
    hit.isSome ↔ ∃ entry ∈ entries, entry.name = comp ∧
      versionInRange parsers entry.version range = .ok true := by
  induction entries with
  | nil =>
    cases h
    simp
  | cons entry entries ih =>
    rw [matchingComponent] at h
    by_cases hname : entry.name = comp
    · rw [if_pos hname] at h
      cases hrange : versionInRange parsers entry.version range with
      | error e =>
        rw [hrange] at h
        cases h
      | ok inRange =>
        rw [hrange] at h
        cases inRange with
        | true =>
          cases h
          simp [hname, hrange]
        | false =>
          rw [ih h]
          simp [hrange]
    · rw [if_neg hname] at h
      rw [ih h]
      simp [hname]

/-- Without a minimum, what is reported of an environment is whether its record names the
    release. -/
theorem environmentExposure_isSome {productCriticality : Option CriticalityLevel} {now : Int}
    {env : Environment} {found : Option EnvironmentExposure}
    (h : environmentExposure parsers release none productCriticality now env = .ok found) :
    (found.isSome ↔ env.running release.name.product = some release.name) ∧
      ∀ e, found = some e → e.environment = env.name := by
  rw [← env.deployedRelease_eq_iff]
  unfold environmentExposure at h
  by_cases hdepl : env.properties.get .deployedRelease release.name.product = some release.name.id
  · rw [if_neg (not_not.mpr hdepl)] at h
    obtain ⟨level, -, h⟩ := Returns.of_bind (Q := (· = found)) ⟨_, h, rfl⟩
    obtain ⟨_, ⟨⟩, rfl⟩ := h
    constructor
    · simp [hdepl]
    · intro e hent
      rw [← Option.some.inj hent]
  · rw [if_pos hdepl] at h
    cases h
    simp [hdepl]

theorem mem_environments_of_exposureOf {hit : InventoryComponent} {now : Int}
    {found : Option ReleaseExposure}
    (h : exposureOf parsers recs ⟨comp, range, none⟩ release hit now = .ok found) :
    ∃ exposure, found = some exposure ∧ ∀ name,
      (∃ e ∈ exposure.environments, e.environment = name) ↔
      ∃ env ∈ recs.environments, env.name = name ∧ env.running release.name.product =
      some release.name := by
  obtain ⟨level, -, h⟩ := Returns.of_bind (Q := (· = found)) ⟨_, h, rfl⟩
  obtain ⟨matched, hmatched, h⟩ := h.of_bind
  obtain ⟨_, ⟨⟩, rfl⟩ := h
  refine ⟨_, rfl, fun name => ?_⟩
  simp only [List.mem_insertionSort]
  constructor
  · rintro ⟨e, hent, rfl⟩
    obtain ⟨env, henv, hfd⟩ := (mem_of_collect hmatched e).mp hent
    obtain ⟨hruns, hname⟩ := environmentExposure_isSome hfd
    exact ⟨env, henv, (hname e rfl).symm, hruns.mp rfl⟩
  · rintro ⟨env, henv, rfl, hrun⟩
    obtain ⟨found, hfd⟩ := returned_of_collect hmatched henv
    obtain ⟨hruns, hname⟩ := environmentExposure_isSome hfd
    obtain ⟨e, rfl⟩ := Option.isSome_iff_exists.mp (hruns.mpr hrun)
    exact ⟨e, (mem_of_collect hmatched e).mpr ⟨env, henv, hfd⟩, hname e rfl⟩

/-- A release is reported if it has a matching component, with the environments that run it in
    the instance named after its product. -/
theorem releaseExposure_spec {now : Release → Int} {found : Option ReleaseExposure}
    (h : releaseExposure parsers recs ⟨comp, range, none⟩ now release = .ok found)
    (name : String) :
    (∃ exposure, found = some exposure ∧ ∃ e ∈ exposure.environments, e.environment = name) ↔
      (∃ inventory, storedInventory parsers release = .ok (some inventory) ∧
      ∃ e ∈ inventory.components, e.name = comp ∧ versionInRange parsers e.version range = .ok true)
      ∧ ∃ env ∈ recs.environments, env.name = name ∧ env.running release.name.product =
      some release.name := by
  obtain ⟨-, -, h⟩ := Returns.of_bind (Q := (· = found)) ⟨_, h, rfl⟩
  obtain ⟨stored, hst, h⟩ := h.of_bind
  cases stored with
  | none =>
    obtain ⟨_, ⟨⟩, rfl⟩ := h
    simp [hst]
  | some inventory =>
    obtain ⟨hit, hhit, hrptd⟩ := h.of_bind
    have hisSome := matchingComponent_isSome hhit
    simp only [hst, Except.ok.injEq, Option.some.injEq, exists_eq_left', ← hisSome]
    cases hit with
    | none =>
      obtain ⟨_, ⟨⟩, rfl⟩ := hrptd
      simp
    | some hit =>
      obtain ⟨_, hexposure, rfl⟩ := hrptd
      obtain ⟨exposure, rfl, hlists⟩ := mem_environments_of_exposureOf hexposure
      simp [← hlists name]

/-- The query lists the environments that run a release with a matching component in the
    instance named after its product. -/
theorem lists_iff {now : Release → Int} {res : ExposureQueryResult}
    (h : query parsers recs comp range now = .ok res) (name : String) :
    res.Lists name ↔ ∃ env ∈ recs.environments, env.name = name ∧
      env.RunsByDefault (recs.Exposes parsers comp range) := by
  obtain ⟨-, -, h⟩ := Returns.of_bind (Q := (· = res)) ⟨_, h, rfl⟩
  obtain ⟨-, -, h⟩ := h.of_bind
  obtain ⟨found, hfd, h⟩ := h.of_bind
  obtain ⟨_, ⟨⟩, rfl⟩ := h
  simp only [ExposureQueryResult.Lists, List.mem_insertionSort]
  constructor
  · rintro ⟨exposure, hexposure, hent⟩
    obtain ⟨rel, hrel, hrptd⟩ := (mem_of_collect hfd exposure).mp hexposure
    obtain ⟨hinventory, env, henv, hname, hrun⟩ :=
      (releaseExposure_spec hrptd name).mp ⟨exposure, rfl, hent⟩
    exact ⟨env, henv, hname, rel.name, hrun, rel, hrel, rfl, hinventory⟩
  · rintro ⟨env, henv, hname, _, hrun, rel, hrel, rfl, hinventory⟩
    obtain ⟨reported, hrptd⟩ := returned_of_collect hfd hrel
    obtain ⟨exposure, rfl, hent⟩ := (releaseExposure_spec hrptd name).mpr
      ⟨hinventory, env, henv, hname, hrun⟩
    exact ⟨exposure, (mem_of_collect hfd exposure).mpr ⟨rel, hrel, hrptd⟩, hent⟩

end Lists

/-! ### What a recall notice lists -/

theorem listsRunning_iff {recalled : List RecalledRelease} {running : List RunningEnvironment}
    (h : environmentsRunning envs recalled = .ok running) (name : String) :
    (∃ entry ∈ running, entry.environment = name) ↔ ∃ environment ∈ envs,
      environment.name = name ∧ environment.RunsByDefault (Recalls recalled) := by
  obtain ⟨names, hnames, h⟩ := Returns.of_bind (Q := (· = running)) ⟨_, h, rfl⟩
  obtain ⟨_, ⟨⟩, rfl⟩ := h
  simp only [mem_dedupNeighbours, List.mem_insertionSort, List.mem_flatMap, runningRelease,
    List.mem_map, List.mem_filter, decide_eq_true_eq, Environment.deployedRelease_eq_iff,
    mem_of_mapM hnames]
  constructor
  · rintro ⟨_, ⟨release, hrecl, environment, ⟨henv, hrun⟩, rfl⟩, rfl⟩
    exact ⟨environment, henv, rfl, release, hrun, hrecl⟩
  · rintro ⟨environment, henv, rfl, release, hrun, hrecl⟩
    exact ⟨⟨environment.name, release.spec⟩, ⟨release, hrecl, environment, ⟨henv, hrun⟩, rfl⟩, rfl⟩

/-! ### Exactness -/

/-- A report lists the environments in which some instance runs an affected release. -/
def Exact (environments : List Environment) (affected : ReleaseName → Prop)
    (listed : String → Prop) : Prop :=
  ∀ name, listed name ↔
    ∃ environment ∈ environments, environment.name = name ∧ environment.RunsAny affected

/-- No affected release runs in instances with a name of their own only. -/
def Covered (environments : List Environment) (affected : ReleaseName → Prop) : Prop :=
  ∀ environment ∈ environments, environment.RunsAny affected → environment.RunsByDefault affected

/-- A report that reads what runs in the instances named after their products is exact where
    these cover the others. -/
theorem exact_iff_covered {listed : String → Prop} (hdist : (envs.map (·.name)).Nodup)
    (hlst : ∀ name, listed name ↔ ∃ environment ∈ envs,
      environment.name = name ∧ environment.RunsByDefault affected) :
    Exact envs affected listed ↔ Covered envs affected := by
  constructor
  · intro hexact environment henv hruns
    obtain ⟨other, hoth, hname, hdflt⟩ := (hlst environment.name).mp
      ((hexact environment.name).mpr ⟨environment, henv, rfl, hruns⟩)
    -- the listed name is that of this environment
    rwa [← List.inj_on_of_nodup_map hdist hoth henv hname]
  · intro hcov name
    rw [hlst]
    constructor
    · rintro ⟨environment, henv, hname, hdflt⟩
      exact ⟨environment, henv, hname, hdflt.runsAny⟩
    · rintro ⟨environment, henv, hname, hruns⟩
      exact ⟨environment, henv, hname, hcov environment henv hruns⟩

/-- The exposure query and the list of a recall notice are exact if and only if, in every
    environment in which some instance runs a release they are about, an instance that is named
    after its product does. -/
theorem reports_exact_iff (parsers : Parsers) (records : Records) (component range : String)
    (now : Release → Int) (result : ExposureQueryResult)
    (hquery : query parsers records component range now = .ok result)
    (recalled : List RecalledRelease) (running : List RunningEnvironment)
    (hrunning : environmentsRunning records.environments recalled = .ok running) :
    (Exact records.environments (records.Exposes parsers component range) result.Lists ∧
      Exact records.environments (Recalls recalled)
        (fun name => ∃ entry ∈ running, entry.environment = name)) ↔
    Covered records.environments (records.Exposes parsers component range) ∧
      Covered records.environments (Recalls recalled) := by
  rw [exact_iff_covered records.distinct (lists_iff hquery),
    exact_iff_covered records.distinct (listsRunning_iff hrunning)]

/-! ### One release in two environments -/

/-- An inventory with one component, whose version no range excludes. -/
def plainParsers : Parsers where
  version _ := none
  range range := if range = "<3" then some fun _ => false else none
  inventory document := .ok ("tenkai.component-inventory.v1", [⟨document, "1.1.1k"⟩])
  declaresInventory _ := .ok true
  integer _ := none
  digest document := "sha256:" ++ document
  blank value := value.isEmpty

def apiRelease : Release where
  name := ⟨"api", "1.0.0", by decide⟩
  manifest := some ""
  inventoryDocument := some "openssl"
  inventoryDigest := some "sha256:openssl"

def blankEnvironment (name : String) : Environment where
  name := name
  properties := ∅
  running _ := none
  recorded := by simp

def apiEnvironment (name inst : String) : Environment :=
  (blankEnvironment name).transition (fun _ => "") "api" inst (by decide)
    (.deployed "1.0.0" none) ""

def apiRecords (environments : List Environment)
    (distinct : (environments.map (·.name)).Nodup) : Records where
  releases := [apiRelease]
  channels := [⟨"api", "stable", some apiRelease.name.id⟩]
  products _ := none
  environments := environments
  distinct := distinct

def apiNotice : List RecalledRelease := [⟨"api@1.0.0", "sha256:1"⟩]

/-- What the query says of `api` when it lists the environments given. -/
def apiResult (environments : List String) : ExposureQueryResult where
  component := "openssl"
  range := "<3"
  found := [⟨"api@1.0.0", "api", "1.0.0", "tenkai:release:api@1.0.0", "openssl", "1.1.1k",
    ["api/stable"], environments.map fun name => ⟨name, "api@1.0.0", .hub, none⟩, none, none⟩]

theorem covered_of_all_affected
    (h : ∀ environment ∈ envs, environment.running "api" = some apiRelease.name)
    (haffected : affected apiRelease.name) : Covered envs affected :=
  fun environment henv _ => ⟨apiRelease.name, h environment henv, haffected⟩

/-- Both reports list both environments: each runs `api` in the instance named `api`. -/
theorem reports_exact_default_instances :
    Exact [apiEnvironment "lab" "", apiEnvironment "prod" "api"]
        ((apiRecords [apiEnvironment "lab" "", apiEnvironment "prod" "api"] (by decide)).Exposes
          plainParsers "openssl" "<3") (apiResult ["lab", "prod"]).Lists ∧
      Exact [apiEnvironment "lab" "", apiEnvironment "prod" "api"] (Recalls apiNotice)
        fun name => ∃ entry ∈ [⟨"lab", "api@1.0.0"⟩, ⟨"prod", "api@1.0.0"⟩],
          RunningEnvironment.environment entry = name := by
  have hruns : ∀ environment ∈ [apiEnvironment "lab" "", apiEnvironment "prod" "api"],
      environment.running "api" = some apiRelease.name := by decide
  apply (reports_exact_iff plainParsers
    (apiRecords [apiEnvironment "lab" "", apiEnvironment "prod" "api"] (by decide)) "openssl" "<3"
    (fun _ => 0) (apiResult ["lab", "prod"]) (by decide +kernel) apiNotice
    [⟨"lab", "api@1.0.0"⟩, ⟨"prod", "api@1.0.0"⟩] (by decide +kernel)).mpr
  constructor
  · apply covered_of_all_affected hruns
    exact ⟨apiRelease, List.mem_cons_self .., rfl,
      ⟨_, _, _⟩, rfl, _, List.mem_cons_self .., rfl, rfl⟩
  · apply covered_of_all_affected hruns
    exact ⟨_, List.mem_cons_self .., by decide +kernel⟩

/-- The only environment that runs the affected release runs it in an instance with a name of its
    own, and neither report lists it. -/
theorem named_instance_not_reported :
    (apiEnvironment "prod" "api-eu").running "api-eu" = some apiRelease.name ∧
      query plainParsers (apiRecords [apiEnvironment "prod" "api-eu"] (by decide)) "openssl" "<3"
        (fun _ => 0) = .ok (apiResult []) ∧
      environmentsRunning [apiEnvironment "prod" "api-eu"] apiNotice = .ok [] := by
  decide +kernel

end Tenkai.Exposure
