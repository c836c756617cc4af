import Tenkai.Convergence

/-!
# Which releases run in an environment

Three readers derive what is deployed from `deployed.{instance}`. The planner asks
`deployed_release.{instance}` which product an instance is of; the dependency document and the
admission of a release take the name of the instance for that of the product. They agree where
every instance carries the name of its product (`forall_attributed_iff`).
-/

namespace Tenkai

/-! ### Stored releases -/

inductive StoredRelease
  | missing
  /-- The stored manifest does not parse. -/
  | unreadable
  /-- `recoverable` if its signature and content pass the checks of a recovery. -/
  | stored (manifest : StoredManifest) (recoverable : Bool)

/-- The releases of a catalog, by id. -/
abbrev ReleaseStore : Type := String → StoredRelease

namespace ReleaseStore

variable (store : ReleaseStore)

def readableManifest (id : String) : Option StoredManifest :=
  match store id with
  | .stored manifest _ => some manifest
  | .missing | .unreadable => none

def profile (id : String) : Option CompatibilityProfile :=
  (store.readableManifest id).bind (·.compatibility)

def storedProfileById (id : String) : Except String (Option CompatibilityProfile) :=
  match store id with
  | .missing => pure none
  | .unreadable => throw s!"parsing stored manifest of {id}"
  | .stored manifest _ => pure manifest.compatibility

def storedProfile (product version : String) : Except String (Option CompatibilityProfile) :=
  store.storedProfileById (releaseId product version)

/-- `load_recoverable_snapshot`, and the manifest of what it loads. -/
def recoverableManifest (id : String) : Except String StoredManifest :=
  match store id with
  | .missing => throw s!"release object {id} not found"
  | .unreadable => throw s!"parsing stored manifest of {id}"
  | .stored manifest recoverable =>
    if recoverable then pure manifest else throw s!"release {id} is not deployable"

def Loads (id : String) : Prop := ∃ manifest, store id = .stored manifest true

/-- A planner's catalog that reads its manifests from the store. -/
def serve (catalog : Catalog) : Catalog :=
  { catalog with readableManifest := fun id => pure (store.readableManifest id) }

theorem recoverableManifest_eq_ok {id : String} {manifest : StoredManifest} :
    store.recoverableManifest id = .ok manifest ↔ store id = .stored manifest true := by
  unfold recoverableManifest
  split
  next h => simp [h, throw, throwThe, MonadExceptOf.throw]
  next h => simp [h, throw, throwThe, MonadExceptOf.throw]
  next found recoverable h =>
    cases recoverable <;> simp [h, throw, throwThe, MonadExceptOf.throw, pure, Except.pure]

/-- A release that loads has its profile, if any, at hand. -/
theorem storedProfileById_of_loads {id : String} (h : store.Loads id) :
    store.storedProfileById id = .ok (store.profile id) := by
  obtain ⟨manifest, hst⟩ := h
  simp [storedProfileById, profile, readableManifest, hst, pure, Except.pure]

end ReleaseStore

/-! ### The document's deployed set -/

section Readers

variable (semver : SemverCrate) (digest : DependencyDocument → String) (store : ReleaseStore)

/-- One turn of the loop of `deployed_set`: the instance is taken for a product. -/
def noteDeployed (deployed : Deployed) (entry : String × String) : Except String Deployed := do
  match ← store.storedProfile entry.1 entry.2 with
  | some profile => pure (deployed.insert entry.1 (entry.2, profile))
  | none => pure deployed

def deployedSet (environment : Properties) : Except String Deployed :=
  (environment.listed .deployed).foldlM (noteDeployed store) ∅

/-- `json_for_product`, before the document is rendered. -/
def documentForProduct (environment : Properties) (product : String)
    (profile : CompatibilityProfile) : Except String (Option DependencyDocument) := do
  let deployed ← deployedSet store environment
  documentFor semver product profile deployed

/-- The digest that `stamp` records of a product, if any. -/
def stampedDigest (environment : Properties) (product : String) :
    Except String (Option String) :=
  match environment.get .deployed product with
  | none => pure none
  | some version => do
    match ← store.storedProfile product version with
    | none => pure none
    | some profile =>
      let document ← documentForProduct semver store environment product profile
      pure (document.map digest)

def stampDocument (environment : Properties) (product : String) : Except String Properties := do
  match ← stampedDigest semver digest store environment product with
  | some document => pure (environment.set .appliedDependencies product document)
  | none => pure (environment.remove .appliedDependencies product)

/-- The document an observation stamps, from the properties it leaves. -/
def observedDependencies (environment : Properties) (observation : DeploymentObservation) :
    Except String (Option String) :=
  if observation.status = .succeeded && observation.transition.leavesDeployed then
    stampedDigest semver digest store environment observation.step.product
  else pure none

/-- `record_deployment_observation`, with the document it stamps after a success. -/
def recordDeploymentObservation (overlayDigest : Option String → String)
    (environment : Properties) (observation : DeploymentObservation) (attempt : String)
    (observedAt : Int) : Except String Properties := do
  let dependencies ← observedDependencies semver digest store
    (environment.transitionDeployment overlayDigest observation.step.product
      observation.step.instanceName observation.transition observation.detail) observation
  pure (environment.observe overlayDigest observation attempt observedAt dependencies)

/-! ### Admission's installed releases -/

/-- What admission gathers of the releases installed beside its candidate. -/
structure InstalledReleases where
  /-- Components owned by the candidate or by an installed release. -/
  owned : Std.TreeSet String
  /-- Components with two owners. -/
  ambiguous : List String
  /-- For each contract, the releases that provide it, with the version they provide. -/
  offers : Std.TreeMap String (List (String × String))
  profiles : List CompatibilityProfile

namespace InstalledReleases

def own (installed : InstalledReleases) (component : String) : InstalledReleases :=
  if installed.owned.contains component then
    { installed with ambiguous := installed.ambiguous ++ [component] }
  else { installed with owned := installed.owned.insert component }

def offer (release : String) (offers : Std.TreeMap String (List (String × String)))
    (provided : String × String) : Std.TreeMap String (List (String × String)) :=
  offers.insert provided.1 ((offers[provided.1]?).getD [] ++ [(release, provided.2)])

def addDeployedProvides (installed : InstalledReleases) (product version : String)
    (profile : CompatibilityProfile) : InstalledReleases :=
  { installed with
    offers := (profile.components.values.flatMap fun component => component.provides.toList).foldl
      (offer (product ++ "@" ++ version)) installed.offers }

def add (installed : InstalledReleases) (product version : String)
    (profile : CompatibilityProfile) : InstalledReleases :=
  let installed := (profile.components.keys.foldl own installed).addDeployedProvides product
    version profile
  { installed with profiles := installed.profiles ++ [profile] }

end InstalledReleases

def noteInstalled (candidate : String) (installed : InstalledReleases)
    (entry : String × String) : Except String InstalledReleases :=
  if entry.1 = candidate then pure installed
  else do
    let manifest ← store.recoverableManifest (releaseId entry.1 entry.2)
    match manifest.compatibility with
    | some profile => pure (installed.add entry.1 entry.2 profile)
    | none => pure installed

/-- The installed releases `report_manifest` holds a candidate against. -/
def installedReleases (environment : Properties) (candidate : String)
    (profile : CompatibilityProfile) : Except String InstalledReleases :=
  ((environment.listed .deployed).insertionSort fun a b => a.1 ≤ b.1).foldlM
    (noteInstalled store candidate)
    ⟨Std.TreeSet.ofList profile.components.keys, [], ∅, []⟩

end Readers

/-! ### What every instance records -/

/-- The properties of an environment in which each deployed instance names its release. -/
structure RecordedEnvironment where
  properties : Properties
  recorded : ∀ «instance» version, properties.get .deployed «instance» = some version →
    ∃ product, '@' ∉ product.toList ∧
      properties.get .deployedRelease «instance» = some (releaseId product version)

namespace RecordedEnvironment

def Runs (environment : RecordedEnvironment) (inst product version : String) : Prop :=
  environment.properties.get .deployed inst = some version ∧
    environment.properties.get .deployedRelease inst = some (releaseId product version)

/-- Whatever is observed of a step, every instance still names its release. -/
def observe (environment : RecordedEnvironment) (digest : Option String → String)
    (observation : DeploymentObservation) (attempt : String) (observedAt : Int)
    (dependencies : Option String) (hproduct : '@' ∉ observation.step.product.toList) :
    RecordedEnvironment where
  properties := environment.properties.observe digest observation attempt observedAt dependencies
  recorded := by
    intro inst version hversion
    rw [Properties.get_observe rfl, Properties.get_transitionDeployment (.inl rfl)] at hversion
    rw [Properties.get_observe rfl, Properties.get_transitionDeployment (.inl rfl)]
    split at hversion
    next hname =>
      rw [if_pos hname]
      cases htransition : observation.transition with
      | unchanged | refreshed =>
        rw [htransition] at hversion
        exact environment.recorded _ _ hversion
      | deployed target previous =>
        rw [htransition] at hversion
        obtain rfl : target = version := Option.some.inj hversion
        exact ⟨_, hproduct, rfl⟩
      | removed target | unknown =>
        rw [htransition] at hversion
        cases hversion
    next hname =>
      rw [if_neg hname]
      exact environment.recorded _ _ hversion

variable {env : RecordedEnvironment} {inst product version : String}

theorem exists_runs (h : env.properties.get .deployed inst = some version) :
    ∃ prod, env.Runs inst prod version := by
  obtain ⟨prod, -, hrel⟩ := env.recorded _ _ h
  exact ⟨prod, h, hrel⟩

theorem Runs.at_notMem (h : env.Runs inst product version) : '@' ∉ product.toList := by
  obtain ⟨other, hoth, hrel⟩ := env.recorded _ _ h.1
  rw [h.2] at hrel
  rwa [releaseId_left_inj (Option.some.inj hrel)]

/-- The planner knows which product an instance is of. -/
theorem Runs.productForInstance (h : env.Runs inst product version) :
    env.properties.productForInstance inst = product := by
  unfold Properties.productForInstance
  rw [h.2, Option.bind_some, productOfReleaseId_releaseId h.at_notMem, Option.getD_some]

theorem Runs.deployedReleaseId (h : env.Runs inst product version) :
    env.properties.deployedReleaseId inst version = releaseId product version := by
  unfold Properties.deployedReleaseId
  rw [h.2, Option.getD_some]

end RecordedEnvironment

/-! ### Attribution -/

/-- What a reader finds does not depend on the releases of a product. -/
def Overlooks {α : Type} (reader : ReleaseStore → α) (store : ReleaseStore) (product : String) :
    Prop :=
  ∀ other : ReleaseStore,
    (∀ id, (∀ version, id ≠ releaseId product version) → other id = store id) →
      reader other = reader store

def Offered (offers : Std.TreeMap String (List (String × String))) (contract : String)
    (offer : String × String) : Prop :=
  ∃ offered, offers[contract]? = some offered ∧ offer ∈ offered

/-- Planner, document and admission all find that an instance runs a release with a profile,
    and none of them takes the instance for a product. -/
structure Attributed (store : ReleaseStore) (catalog : Catalog) (environment : Properties)
    («instance» product version : String) (profile : CompatibilityProfile) : Prop where
  planned : Returns (installedProfiles (store.serve catalog) environment) fun profiles =>
    profiles[product]? = some profile
  documented : Returns (deployedSet store environment) fun deployed =>
    deployed[product]? = some (version, profile)
  admitted : ∀ candidate own, candidate ≠ product →
    Returns (installedReleases store environment candidate own) fun installed =>
      profile ∈ installed.profiles ∧
        ∀ component ∈ profile.components.values, ∀ provided ∈ component.provides.toList,
          Offered installed.offers provided.1 (product ++ "@" ++ version, provided.2)
  unlisted : «instance» ≠ product →
    Returns (installedProfiles (store.serve catalog) environment) (fun profiles =>
      profiles[«instance»]? = none) ∧
    Returns (deployedSet store environment) fun deployed => deployed[«instance»]? = none
  overlooked : «instance» ≠ product →
    Overlooks (fun store => installedProfiles (store.serve catalog) environment) store «instance» ∧
    Overlooks (fun store => deployedSet store environment) store «instance» ∧
    ∀ candidate own,
      Overlooks (fun store => installedReleases store environment candidate own) store «instance»

variable {candidate rel : String} {e : String × String}
  {offers : Std.TreeMap String (List (String × String))}

section Attribution

variable {store : ReleaseStore} {cat : Catalog} {env : RecordedEnvironment}
  {product version : String} {profile : CompatibilityProfile}

/-- Every instance with a profile has the name of its product, and if there is one, every
    instance's name and version are those of a release that loads. -/
def WellNamed (store : ReleaseStore) (environment : RecordedEnvironment) : Prop :=
  ∀ inst product version, environment.Runs inst product version →
    (store.profile (releaseId product version)).isSome →
      inst = product ∧
        ∀ other deployed, environment.properties.get .deployed other = some deployed →
          store.Loads (releaseId other deployed)

theorem noteProfile_serve (profiles : Profiles) (rel : String) :
    noteProfile (store.serve cat) profiles product rel =
      .ok (if profiles.contains product then profiles else match store.profile rel with
          | some profile => profiles.insert product profile
          | none => profiles) := by
  unfold noteProfile ReleaseStore.profile ReleaseStore.serve
  cases profiles.contains product with
  | true => rfl
  | false =>
    cases hman : store.readableManifest rel with
    | none => simp [hman, bind, Except.bind, pure, Except.pure]
    | some manifest =>
      cases hprof : manifest.compatibility <;>
        simp [hman, hprof, bind, Except.bind, pure, Except.pure]

/-- A note for another product, or for one that has its note, changes nothing. -/
theorem noteProfile_keeps {profiles : Profiles} {other : String}
    (h : profiles[product]? = some profile) :
    Returns (noteProfile (store.serve cat) profiles other rel) fun profiles =>
      profiles[product]? = some profile := by
  rw [noteProfile_serve]
  refine ⟨_, rfl, ?_⟩
  split
  · exact h
  next hoth =>
    have hne : other ≠ product := by
      rintro rfl
      exact hoth (by rw [Std.TreeMap.contains_eq_isSome_getElem?, h]; rfl)
    split
    · simp [Std.TreeMap.getElem?_insert, hne, h]
    · exact h

theorem planned_of_wellNamed (h : WellNamed store env) (hruns : env.Runs product product version)
    (hprof : store.profile (releaseId product version) = some profile) :
    Returns (installedProfiles (store.serve cat) env.properties) fun profiles =>
      profiles[product]? = some profile := by
  refine .foldlM_of_mem (I := fun profiles : Profiles =>
    profiles[product]? = none ∨ profiles[product]? = some profile)
    (Properties.mem_listed.mpr hruns.1) (.inl (by simp)) ?_ ?_ ?_
  · rintro profiles ⟨_, deployed⟩ hoth hprofs
    rcases hprofs with hnone | hsome
    · obtain ⟨runs, hoth⟩ := env.exists_runs (Properties.mem_listed.mp hoth)
      rw [hoth.productForInstance, hoth.deployedReleaseId, noteProfile_serve]
      refine ⟨_, rfl, ?_⟩
      split
      · exact .inl hnone
      · split
        next found hfd =>
          -- only the instance that has the product's name is noted for it
          by_cases hruns' : runs = product
          · subst hruns'
            obtain ⟨rfl, -⟩ := h _ _ _ hoth (by rw [hfd]; rfl)
            obtain rfl : deployed = version := Option.some.inj (hoth.1.symm.trans hruns.1)
            rw [hprof] at hfd
            exact .inr (by simp [hfd])
          · exact .inl (by simp [Std.TreeMap.getElem?_insert, hruns', hnone])
        · exact .inl hnone
    · exact (noteProfile_keeps hsome).mono fun _ => .inr
  · intro profiles hprofs
    rw [hruns.productForInstance, hruns.deployedReleaseId]
    rcases hprofs with hnone | hsome
    · rw [noteProfile_serve, hprof]
      refine ⟨_, rfl, ?_⟩
      rw [if_neg (by rw [Std.TreeMap.contains_eq_isSome_getElem?, hnone]; simp)]
      simp
    · exact noteProfile_keeps hsome
  · rintro profiles e - hprofs
    exact noteProfile_keeps hprofs

theorem noteDeployed_of_loads {deployed : Deployed} (h : store.Loads (releaseId e.1 e.2)) :
    noteDeployed store deployed e = .ok (match store.profile (releaseId e.1 e.2) with
      | some profile => deployed.insert e.1 (e.2, profile)
      | none => deployed) := by
  unfold noteDeployed ReleaseStore.storedProfile
  rw [store.storedProfileById_of_loads h]
  cases store.profile (releaseId e.1 e.2) <;> rfl

theorem documented_of_wellNamed (h : WellNamed store env) (hruns : env.Runs product product version)
    (hprof : store.profile (releaseId product version) = some profile) :
    Returns (deployedSet store env.properties) fun deployed =>
      deployed[product]? = some (version, profile) := by
  obtain ⟨-, hloads⟩ := h _ _ _ hruns (by rw [hprof]; rfl)
  refine .foldlM_of_mem (I := fun _ => True) (Properties.mem_listed.mpr hruns.1) trivial ?_ ?_ ?_
  · rintro deployed ⟨other, found⟩ hoth -
    rw [noteDeployed_of_loads (hloads _ _ (Properties.mem_listed.mp hoth))]
    exact ⟨_, rfl, trivial⟩
  · rintro deployed -
    rw [noteDeployed_of_loads (hloads _ _ hruns.1), hprof]
    exact ⟨_, rfl, by simp⟩
  · rintro deployed ⟨other, found⟩ hoth hdepl
    have hfd := Properties.mem_listed.mp hoth
    rw [noteDeployed_of_loads (hloads _ _ hfd)]
    refine ⟨_, rfl, ?_⟩
    split
    next noted hnoted =>
      by_cases hname : other = product
      · subst hname
        obtain rfl : found = version := Option.some.inj (hfd.symm.trans hruns.1)
        rw [hprof] at hnoted
        simp [Option.some.inj hnoted]
      · simp [Std.TreeMap.getElem?_insert, hname, hdepl]
    · exact hdepl

/-! #### Admission -/

theorem offered_offer {c : String} {provided offer : String × String} (h : Offered offers c offer) :
    Offered (InstalledReleases.offer rel offers provided) c offer := by
  obtain ⟨offered, hoff, hmem⟩ := h
  unfold Offered InstalledReleases.offer
  by_cases hcontract : provided.1 = c
  · subst hcontract
    exact ⟨_, Std.TreeMap.getElem?_insert_self, by simp [hoff, hmem]⟩
  · exact ⟨offered, by simp [Std.TreeMap.getElem?_insert, hcontract, hoff], hmem⟩

theorem offered_offers {c : String} {offer : String × String}
    (provided : List (String × String)) (h : Offered offers c offer) :
    Offered (provided.foldl (InstalledReleases.offer rel) offers) c offer := by
  induction provided generalizing offers with
  | nil => exact h
  | cons e provided ih => exact ih (offered_offer h)

theorem offered_of_mem {provided : List (String × String)} (hmem : e ∈ provided) :
    Offered (provided.foldl (InstalledReleases.offer rel) offers) e.1 (rel, e.2) := by
  obtain ⟨before, after, rfl⟩ := List.append_of_mem hmem
  rw [List.foldl_append, List.foldl_cons]
  refine offered_offers _ ⟨_, Std.TreeMap.getElem?_insert_self, ?_⟩
  simp

theorem foldl_own (comps : List String) (installed : InstalledReleases) :
    (comps.foldl InstalledReleases.own installed).offers = installed.offers ∧
      (comps.foldl InstalledReleases.own installed).profiles = installed.profiles := by
  induction comps generalizing installed with
  | nil => exact ⟨rfl, rfl⟩
  | cons comp comps ih =>
    obtain ⟨hoffers, hprofs⟩ := ih (installed.own comp)
    rw [List.foldl_cons, hoffers, hprofs]
    unfold InstalledReleases.own
    split <;> exact ⟨rfl, rfl⟩

def Found (product version : String) (profile : CompatibilityProfile)
    (installed : InstalledReleases) : Prop :=
  profile ∈ installed.profiles ∧
    ∀ component ∈ profile.components.values, ∀ provided ∈ component.provides.toList,
      Offered installed.offers provided.1 (product ++ "@" ++ version, provided.2)

theorem found_add_self (installed : InstalledReleases) :
    Found product version profile (installed.add product version profile) := by
  refine ⟨by simp [InstalledReleases.add], ?_⟩
  intro comp hcmp _ hprvd
  exact offered_of_mem (List.mem_flatMap.mpr ⟨comp, hcmp, hprvd⟩)

theorem found_add {installed : InstalledReleases} {other deployed : String}
    {found : CompatibilityProfile} (h : Found product version profile installed) :
    Found product version profile (installed.add other deployed found) := by
  obtain ⟨hprof, hoff⟩ := h
  obtain ⟨hoffers, hprofs⟩ := foldl_own found.components.keys installed
  constructor
  · simp [InstalledReleases.add, InstalledReleases.addDeployedProvides, hprofs, hprof]
  · intro comp hcmp provided hprvd
    refine offered_offers _ ?_
    rw [hoffers]
    exact hoff comp hcmp provided hprvd

theorem noteInstalled_of_loads {installed : InstalledReleases}
  (h : store.Loads (releaseId e.1 e.2)) :
    noteInstalled store candidate installed e = .ok (if e.1 = candidate then installed
      else match store.profile (releaseId e.1 e.2) with
        | some profile => installed.add e.1 e.2 profile
        | none => installed) := by
  obtain ⟨manifest, hst⟩ := h
  unfold noteInstalled
  split
  · rfl
  · rw [store.recoverableManifest_eq_ok.mpr hst]
    cases hprof : manifest.compatibility <;>
      simp [ReleaseStore.profile, ReleaseStore.readableManifest, hst, hprof, bind,
        Except.bind, pure, Except.pure]

theorem admitted_of_wellNamed (h : WellNamed store env) (hruns : env.Runs product product version)
    (hprof : store.profile (releaseId product version) = some profile)
    (own : CompatibilityProfile) (hcand : candidate ≠ product) :
    Returns (installedReleases store env.properties candidate own) (Found product version profile)
      := by
  obtain ⟨-, hloads⟩ := h _ _ _ hruns (by rw [hprof]; rfl)
  have hdepl : ∀ e ∈ (env.properties.listed .deployed).insertionSort
      (fun a b => a.1 ≤ b.1), store.Loads (releaseId e.1 e.2) := by
    rintro ⟨_, deployed⟩ hent
    rw [List.mem_insertionSort] at hent
    exact hloads _ _ (Properties.mem_listed.mp hent)
  have hmem : (product, version) ∈ (env.properties.listed .deployed).insertionSort
      (fun a b => a.1 ≤ b.1) :=
    (List.mem_insertionSort _).mpr (Properties.mem_listed.mpr hruns.1)
  refine .foldlM_of_mem (I := fun _ => True) hmem trivial ?_ ?_ ?_
  · rintro installed e hent -
    rw [noteInstalled_of_loads (hdepl e hent)]
    exact ⟨_, rfl, trivial⟩
  · rintro installed -
    rw [noteInstalled_of_loads (hdepl _ hmem), if_neg hcand.symm, hprof]
    exact ⟨_, rfl, found_add_self installed⟩
  · intro installed e hent hfd
    rw [noteInstalled_of_loads (hdepl e hent)]
    refine ⟨_, rfl, ?_⟩
    split
    · exact hfd
    · split
      · exact found_add hfd
      · exact hfd

/-! #### The readers look a named instance up as a product -/

/-- The document's reader fails if the release it takes an instance for is unreadable. -/
theorem not_overlooks_deployedSet {«instance» : String}
    (hdepl : env.properties.get .deployed «instance» = some version)
    (hreturns : Returns (deployedSet store env.properties) fun _ => True) :
    ¬ Overlooks (fun store => deployedSet store env.properties) store «instance» := by
  intro hoverlooks
  let broken : ReleaseStore := fun id =>
    if id = releaseId «instance» version then .unreadable else store id
  have hsame : deployedSet broken env.properties = deployedSet store env.properties :=
    hoverlooks broken fun id hid => if_neg (hid version)
  rw [← hsame] at hreturns
  obtain ⟨deployed, deployed', hturn⟩ :=
    Returns.turn_of_foldlM (Properties.mem_listed.mpr hdepl) hreturns
  obtain ⟨error, hbroken⟩ : ∃ error, broken.storedProfile «instance» version = .error error := by
    unfold ReleaseStore.storedProfile ReleaseStore.storedProfileById
    simp [broken, throw, throwThe, MonadExceptOf.throw]
  unfold noteDeployed at hturn
  rw [hbroken] at hturn
  cases hturn

/-- Admission gets through only if whatever it takes the instances for loads. -/
theorem loads_of_installedReleases {inst : String} {own : CompatibilityProfile}
    {P : InstalledReleases → Prop} (hdepl : env.properties.get .deployed inst = some version)
    (hcand : inst ≠ candidate)
    (hreturns : Returns (installedReleases store env.properties candidate own) P) :
    store.Loads (releaseId inst version) := by
  obtain ⟨installed, installed', hturn⟩ := Returns.turn_of_foldlM
    ((List.mem_insertionSort _).mpr (Properties.mem_listed.mpr hdepl)) hreturns
  unfold noteInstalled at hturn
  rw [if_neg hcand] at hturn
  obtain ⟨manifest, hman, -⟩ := Returns.of_bind (Q := fun _ => True) ⟨_, hturn, trivial⟩
  exact ⟨manifest, store.recoverableManifest_eq_ok.mp hman⟩

/-- A product that is neither of two. -/
theorem exists_candidate (a b : String) : ∃ candidate, candidate ≠ a ∧ b ≠ candidate := by
  have hlen : (a ++ b ++ "-").length = a.length + b.length + 1 := by
    rw [String.length_append, String.length_append]
    rfl
  refine ⟨a ++ b ++ "-", fun h => ?_, fun h => ?_⟩
  · have := congrArg String.length h
    omega
  · have := congrArg String.length h
    omega

/-- Planner, document and admission agree on every release with a profile that runs exactly
    if the instances are well named. -/
theorem forall_attributed_iff (store : ReleaseStore) (catalog : Catalog)
    (environment : RecordedEnvironment) :
    (∀ inst product version profile, environment.Runs inst product version →
      store.profile (releaseId product version) = some profile →
        Attributed store catalog environment.properties inst product version profile) ↔
      WellNamed store environment := by
  constructor
  · intro h inst product version hruns hprofile
    obtain ⟨profile, hprofile⟩ := Option.isSome_iff_exists.mp hprofile
    have hattributed := h _ _ _ _ hruns hprofile
    constructor
    · by_contra hname
      refine not_overlooks_deployedSet hruns.1 ?_ (hattributed.overlooked hname).2.1
      exact hattributed.documented.mono fun _ _ => trivial
    · intro other _ hdeployed
      obtain ⟨candidate, hproduct, hother⟩ := exists_candidate product other
      exact loads_of_installedReleases hdeployed hother
        (hattributed.admitted candidate profile hproduct)
  · intro h inst product version profile hruns hprofile
    obtain ⟨rfl, -⟩ := h _ _ _ hruns (by rw [hprofile]; rfl)
    exact {
      planned := planned_of_wellNamed h hruns hprofile
      documented := documented_of_wellNamed h hruns hprofile
      admitted := fun candidate own => admitted_of_wellNamed h hruns hprofile own
      unlisted := absurd rfl
      overlooked := fun hname => absurd rfl hname }

end Attribution

/-! ### A named instance -/

def provider (contract version : String) : ComponentRequirement where
  requires := ∅
  provides := Std.TreeMap.empty.insert contract version

def providing (contract version : String) : CompatibilityProfile where
  version := 1
  components := Std.TreeMap.empty.insert "server" (provider contract version)

/-- A catalog that holds one release, `database@1.0.0`. -/
def databaseStore : ReleaseStore := fun id =>
  if id = releaseId "database" "1.0.0" then
    .stored ⟨.software, false, false, true, some (providing "sql" "15.0.0")⟩ true
  else .missing

/-- The instance `orders` of `database` runs, and nothing else. -/
def ordersEnvironment : RecordedEnvironment where
  properties := (Properties.set ∅ .deployed "orders" "1.0.0").set .deployedRelease "orders"
    (releaseId "database" "1.0.0")
  recorded := by
    intro inst version hversion
    rw [Properties.get_set, if_neg (by simp), Properties.get_set] at hversion
    split at hversion
    next hname =>
      obtain rfl : "1.0.0" = version := Option.some.inj hversion
      exact ⟨"database", by decide, by rw [Properties.get_set, if_pos ⟨rfl, hname.2⟩]⟩
    next => simp at hversion

/-- The document's deployed set misses the database, and no release is admitted beside it. -/
theorem database_not_attributed :
    ordersEnvironment.Runs "orders" "database" "1.0.0" ∧
      databaseStore.profile (releaseId "database" "1.0.0") = some (providing "sql" "15.0.0") ∧
      (∃ deployed, deployedSet databaseStore ordersEnvironment.properties = .ok deployed ∧
        deployed["database"]? = none) ∧
      (∀ candidate own, candidate ≠ "orders" →
        installedReleases databaseStore ordersEnvironment.properties candidate own =
          .error "release object tenkai:release:orders@1.0.0 not found") ∧
      ∀ catalog, ¬ Attributed databaseStore catalog ordersEnvironment.properties "orders"
        "database" "1.0.0" (providing "sql" "15.0.0") := by
  have hset : deployedSet databaseStore ordersEnvironment.properties = .ok ∅ := by rfl
  refine ⟨⟨by decide, by decide⟩, by rfl, ⟨∅, hset, by simp⟩, ?_, ?_⟩
  · intro candidate own hcandidate
    have hlisted : (ordersEnvironment.properties.listed .deployed).insertionSort
        (fun a b => a.1 ≤ b.1) = [("orders", "1.0.0")] := by decide
    unfold installedReleases
    rw [hlisted, List.foldlM_cons, noteInstalled, if_neg hcandidate.symm]
    rfl
  · intro catalog h
    obtain ⟨deployed, hdeployed, hfound⟩ := h.documented
    rw [hset] at hdeployed
    cases hdeployed
    simp at hfound

end Tenkai
