import Tenkai.ContractOrder
import Tenkai.Fallible

/-!
# Who provides a contract

The edges that order a plan go to the only product that offers the contract in any version, the
dependent included; the dependency document and `refuse_unsatisfied_dependents` look for the only
other product that offers a satisfying version. So the document's provider has its edge exactly if
nothing else offers the contract (`edge_of_present_iff`), and an ordered plan leaves every
satisfied requirement with one provider (`one_provider_remains`).
-/

namespace Tenkai

/-! ### What a profile offers, needs and satisfies -/

variable {semver : SemverCrate} {version contract product dep provider : String}
  {pv : Nat} {requirement : ContractRequirement} {profile : CompatibilityProfile}
  {depl : Deployed} {found : Option String} {prev remaining : Profiles}

theorem SemverCrate.parsed_eq_ok {context : String} {parsed : Semver} :
    semver.parsed version context = .ok parsed ↔ semver.parse version = some parsed := by
  unfold SemverCrate.parsed
  cases semver.parse version with
  | none => simp [throw, throwThe, MonadExceptOf.throw]
  | some found => simp [pure, Except.pure]

/-- A product of a set offers a contract, in some version. -/
def Profiles.Offer (profiles : Profiles) (contract product : String) : Prop :=
  ∃ profile, profiles[product]? = some profile ∧ contract ∈ profile.offers

/-- A profile provides a version of a contract that satisfies a requirement. -/
def CompatibilityProfile.Satisfies (semver : SemverCrate) (profile : CompatibilityProfile)
    (profileVersion : Nat) (contract : String) (requirement : ContractRequirement) : Prop :=
  ∃ component ∈ profile.components.values, ∃ version, component.provides[contract]? = some version ∧
    ∃ actual minimum, semver.parse version = some actual ∧
      semver.parse requirement.minimumVersion = some minimum ∧
      contractSatisfies semver profileVersion actual minimum

def SemverCrate.meets (semver : SemverCrate) (profileVersion : Nat)
    (requirement : ContractRequirement) (version : String) : Bool :=
  match semver.parse version, semver.parse requirement.minimumVersion with
  | some actual, some minimum => contractSatisfies semver profileVersion actual minimum
  | _, _ => false

theorem SemverCrate.meets_iff : semver.meets pv requirement version = true ↔ ∃ actual minimum,
      semver.parse version = some actual ∧ semver.parse requirement.minimumVersion = some minimum ∧
      contractSatisfies semver pv actual minimum := by
  unfold SemverCrate.meets
  cases semver.parse version <;> cases semver.parse requirement.minimumVersion <;> simp

def CompatibilityProfile.provided (semver : SemverCrate) (profile : CompatibilityProfile)
    (profileVersion : Nat) (contract : String) (requirement : ContractRequirement) :
    Option String :=
  profile.components.values.findSome? fun component =>
    component.provides[contract]?.filter (semver.meets profileVersion requirement)

/-- Another product of a set satisfies a requirement of a dependent. -/
def Profiles.Satisfier (semver : SemverCrate) (profiles : Profiles) (dependent : String)
    (profileVersion : Nat) (contract : String) (requirement : ContractRequirement)
    (product : String) : Prop :=
  product ≠ dependent ∧ ∃ profile, profiles[product]? = some profile ∧
    profile.Satisfies semver profileVersion contract requirement

theorem CompatibilityProfile.Satisfies.mem_offers
    (h : profile.Satisfies semver pv contract requirement) : contract ∈ profile.offers := by
  obtain ⟨comp, hcmp, v, hver, -⟩ := h
  apply List.mem_flatMap.mpr
  refine ⟨comp, hcmp, ?_⟩
  rw [Std.TreeMap.mem_keys, Std.TreeMap.mem_iff_isSome_getElem?, hver]
  rfl

theorem CompatibilityProfile.mem_needs : contract ∈ profile.needs ↔
      ∃ component ∈ profile.components.values, contract ∈ component.requires := by
  have hinsert : ∀ (contracts : List String) (needs : Std.TreeSet String),
      contract ∈ contracts.foldl (fun needs contract => needs.insert contract) needs ↔
        contract ∈ needs ∨ contract ∈ contracts := by
    intro contracts
    induction contracts with
    | nil => simp
    | cons first contracts ih =>
      intro needs
      rw [List.foldl_cons, ih, Std.TreeSet.mem_insert, List.mem_cons]
      simp only [Std.LawfulEqCmp.compare_eq_iff_eq, eq_comm (a := first)]
      tauto
  have hcomponents : ∀ (comps : List ComponentRequirement) (needs : Std.TreeSet String),
      contract ∈ comps.foldl (fun needs component =>
        component.requires.keys.foldl (fun needs contract => needs.insert contract) needs) needs ↔
        contract ∈ needs ∨ ∃ component ∈ comps, contract ∈ component.requires := by
    intro comps
    induction comps with
    | nil => simp
    | cons first comps ih =>
      intro needs
      rw [List.foldl_cons, ih, hinsert]
      simp [or_assoc]
  rw [CompatibilityProfile.needs, hcomponents]
  simp

/-! ### Edges -/

/-- A set with one element, as it is listed. -/
theorem toList_eq_singleton_iff {set : Std.TreeSet String} :
    set.toList = [product] ↔ ∀ other, other ∈ set ↔ other = product := by
  constructor
  · intro h other
    rw [← Std.TreeSet.mem_toList, h, List.mem_singleton]
  · intro h
    have hmem : ∀ other, other ∈ set.toList ↔ other = product := by
      intro other
      rw [Std.TreeSet.mem_toList, h]
    have hdist := Std.TreeSet.distinct_toList (t := set)
    -- two elements would be different, and both are `product`
    match hlist : set.toList with
    | [] =>
      rw [hlist] at hmem
      exact absurd ((hmem product).mpr rfl) List.not_mem_nil
    | [first] =>
      rw [hlist] at hmem
      rw [(hmem first).mp (List.mem_singleton_self first)]
    | first :: second :: rest =>
      rw [hlist] at hmem hdist
      have hfst := (hmem first).mp (by simp)
      have hsnd2 := (hmem second).mp (by simp)
      have hne := List.rel_of_pairwise_cons hdist (List.mem_cons_self ..)
      rw [hfst, hsnd2] at hne
      simp at hne

theorem mem_contractProviders {profiles : Profiles} :
    product ∈ (contractProviders profiles)[contract]?.getD ∅ ↔ profiles.Offer contract product := by
  have hoffers : ∀ (name : String) (contracts : List String)
      (providers : Std.TreeMap String (Std.TreeSet String)),
      product ∈ (contracts.foldl (fun providers contract =>
        providers.insert contract ((providers[contract]?.getD ∅).insert name))
          providers)[contract]?.getD ∅ ↔
        product ∈ providers[contract]?.getD ∅ ∨ contract ∈ contracts ∧ product = name := by
    intro name contracts
    induction contracts with
    | nil => simp
    | cons first contracts ih =>
      intro providers
      rw [List.foldl_cons, ih, Std.TreeMap.getElem?_insert]
      by_cases hfst : first = contract
      · subst hfst
        simp only [Std.ReflCmp.compare_self, if_true, Option.getD_some, Std.TreeSet.mem_insert,
          Std.LawfulEqCmp.compare_eq_iff_eq, List.mem_cons, true_or, true_and,
          eq_comm (a := name)]
        tauto
      · simp [hfst, Ne.symm hfst]
  have hproducts : ∀ (entries : List (String × CompatibilityProfile))
      (providers : Std.TreeMap String (Std.TreeSet String)),
      product ∈ (entries.foldl (fun providers entry =>
        entry.2.offers.foldl (fun providers contract =>
          providers.insert contract ((providers[contract]?.getD ∅).insert entry.1)) providers)
            providers)[contract]?.getD ∅ ↔
        product ∈ providers[contract]?.getD ∅ ∨
          ∃ profile, (product, profile) ∈ entries ∧ contract ∈ profile.offers := by
    intro entries
    induction entries with
    | nil => simp
    | cons first entries ih =>
      intro providers
      obtain ⟨name, profile⟩ := first
      rw [List.foldl_cons, ih, hoffers]
      simp only [List.mem_cons, Prod.mk.injEq, or_and_right, exists_or, or_assoc]
      apply or_congr_right
      apply or_congr_left
      constructor
      · rintro ⟨hoff, rfl⟩
        exact ⟨profile, ⟨rfl, rfl⟩, hoff⟩
      · rintro ⟨_, ⟨rfl, rfl⟩, hoff⟩
        exact ⟨hoff, rfl⟩
  rw [contractProviders, hproducts]
  simp [Profiles.Offer, Std.TreeMap.mem_toList_iff_getElem?_eq_some]

/-- An edge goes from the only product that offers a contract to each other that requires it. -/
theorem mem_crossReleaseContractEdges {profiles : Profiles} :
    (provider, dep, contract) ∈ crossReleaseContractEdges profiles ↔
      provider ≠ dep ∧ (∃ profile, profiles[dep]? = some profile ∧ contract ∈ profile.needs) ∧
      ∀ prod, profiles.Offer contract prod ↔ prod = provider := by
  unfold crossReleaseContractEdges
  simp only [List.mem_flatMap, List.mem_filterMap, Std.TreeSet.mem_toList, Prod.exists,
    Std.TreeMap.mem_toList_iff_getElem?_eq_some, ← mem_contractProviders, ← toList_eq_singleton_iff]
  constructor
  · rintro ⟨name, profile, hprof, _, hneeds, hedge⟩
    split at hedge
    next only hlist =>
        by_cases honly : only = name
        · rw [if_pos honly] at hedge
          cases hedge
        · rw [if_neg honly] at hedge
          cases hedge
          exact ⟨honly, ⟨profile, hprof, hneeds⟩, hlist⟩
    · cases hedge
  · rintro ⟨hne, ⟨profile, hprof, hneeds⟩, hlist⟩
    refine ⟨dep, profile, hprof, contract, hneeds, ?_⟩
    rw [hlist]
    exact if_neg hne

/-! ### Satisfied requirements -/

section Satisfied

variable {semver : SemverCrate} {contract : String} {requirement : ContractRequirement}
  {pv : Nat}

theorem providedBy_eq {component : ComponentRequirement}
    (h : providedBy semver provider dep pv contract requirement component = .ok found) :
    found = component.provides[contract]?.filter (semver.meets pv requirement) := by
  unfold providedBy at h
  cases hprvd : component.provides[contract]? with
  | none =>
    rw [hprvd] at h
    cases h
    rfl
  | some version =>
    rw [hprvd] at h
    obtain ⟨actual, hactual, h⟩ := Returns.of_bind (Q := (· = found)) ⟨_, h, rfl⟩
    obtain ⟨minimum, hmin, h⟩ := h.of_bind
    obtain ⟨_, ⟨⟩, rfl⟩ := h
    rw [SemverCrate.parsed_eq_ok] at hactual hmin
    simp [Option.filter, SemverCrate.meets, hactual, hmin]

theorem firstProvided_eq {comps : List ComponentRequirement}
    (h : firstProvided semver provider dep pv contract requirement comps = .ok found) :
    found = comps.findSome? fun comp =>
      comp.provides[contract]?.filter (semver.meets pv requirement) := by
  induction comps with
  | nil =>
    cases h
    rfl
  | cons comp comps ih =>
    obtain ⟨first, hfst, h⟩ := Returns.of_bind (Q := (· = found)) ⟨_, h, rfl⟩
    rw [List.findSome?_cons, ← providedBy_eq hfst]
    cases first with
    | some v =>
      obtain ⟨_, ⟨⟩, rfl⟩ := h
      rfl
    | none =>
      obtain ⟨_, hrest, rfl⟩ := h
      exact ih hrest

theorem CompatibilityProfile.provided_isSome :
    (profile.provided semver pv contract requirement).isSome ↔
      profile.Satisfies semver pv contract requirement := by
  unfold CompatibilityProfile.provided CompatibilityProfile.Satisfies
  simp only [List.findSome?_isSome_iff, Option.isSome_filter, Option.any_eq_true,
    SemverCrate.meets_iff]

def providerOf (semver : SemverCrate) (profileVersion : Nat) (contract : String)
    (requirement : ContractRequirement) (dependent name : String)
    (profile : CompatibilityProfile) : Except String (Option String) :=
  if name = dependent then pure none
  else firstProvided semver s!" on {name}" s!" on {dependent}" profileVersion contract requirement
    profile.components.values

theorem providerOf_eq {name : String}
    (h : providerOf semver pv contract requirement dep name profile = .ok found) :
    found = if name = dep then none else profile.provided semver pv contract requirement := by
  unfold providerOf at h
  by_cases hself : name = dep
  · rw [if_pos hself] at h
    cases h
    rw [if_pos hself]
  · rw [if_neg hself] at h
    rw [if_neg hself]
    exact firstProvided_eq h

theorem providerOf_eq_some {name : String}
    (h : providerOf semver pv contract requirement dep name profile = .ok (some version)) :
    name ≠ dep ∧ profile.provided semver pv contract requirement = some version := by
  have hfd := providerOf_eq h
  split at hfd
  · cases hfd
  · case isFalse hself => exact ⟨hself, hfd.symm⟩

/-- The loop over the products, which both searches for providers are: a loop that appends what
    it makes of the providers it finds. -/
theorem providerLoop_eq {γ β : Type} (name : γ → String) (profile : γ → CompatibilityProfile)
    (made : γ → String → β) (dep : String) (entries : List γ) :
    entries.foldlM (fun matching entry => do
      if name entry = dep then pure matching
      else
        match ← firstProvided semver s!" on {name entry}" s!" on {dep}" pv
            contract requirement (profile entry).components.values with
        | some version => pure (matching ++ [made entry version])
        | none => pure matching) [] =
    collect (fun entry => (providerOf semver pv contract requirement dep
      (name entry) (profile entry)).map (Option.map (made entry))) entries := by
  rw [foldlM_append_eq (f := fun entry => (providerOf semver pv contract requirement
    dep (name entry) (profile entry)).map (.map (made entry)))]
  · cases collect _ entries <;> simp [Except.map]
  · intro matching entry
    unfold providerOf
    by_cases hself : name entry = dep
    · simp only [hself, if_true]
      simp [Except.map, pure, Except.pure]
    · simp only [hself, if_false]
      cases firstProvided semver s!" on {name entry}" s!" on {dep}" pv contract
        requirement (profile entry).components.values with
      | error e => rfl
      | ok first => cases first <;> simp [Except.map, bind, Except.bind, pure, Except.pure]

theorem mem_matchingDeployedProviders {profiles : Profiles} {matching : List String}
    (h : matchingDeployedProviders semver profiles contract requirement pv dep = .ok matching) :
    product ∈ matching ↔ profiles.Satisfier semver dep pv contract requirement product := by
  have h := (providerLoop_eq Prod.fst Prod.snd (fun e _ => e.1) dep profiles.toList).symm.trans h
  rw [mem_of_collect h]
  constructor
  · rintro ⟨⟨_, profile⟩, hent, hfd⟩
    obtain ⟨v, hprov, rfl⟩ := map_eq_ok_some hfd
    obtain ⟨hself, hprvd⟩ := providerOf_eq_some hprov
    exact ⟨hself, profile, Std.TreeMap.mem_toList_iff_getElem?_eq_some.mp hent,
      CompatibilityProfile.provided_isSome.mp (by rw [hprvd]; rfl)⟩
  · rintro ⟨hself, profile, hprof, hsat⟩
    have hent := Std.TreeMap.mem_toList_iff_getElem?_eq_some.mpr hprof
    refine ⟨(product, profile), hent, ?_⟩
    -- the loop got through this product, so the search of its components ended
    obtain ⟨found, hfd⟩ := returned_of_collect h hent
    obtain ⟨first, hprov, rfl⟩ := map_eq_ok hfd
    obtain ⟨v, hprvd⟩ := Option.isSome_iff_exists.mp (CompatibilityProfile.provided_isSome.mpr hsat)
    rwa [providerOf_eq hprov, if_neg hself, hprvd] at hfd

/-- A product other than the dependent is deployed, and the first version it provides of those
    that satisfy a requirement. -/
def Deployed.Provider (semver : SemverCrate) (deployed : Deployed) (dependent : String)
    (profileVersion : Nat) (contract : String) (requirement : ContractRequirement)
    (product release version : String) : Prop :=
  product ≠ dependent ∧ ∃ profile, deployed[product]? = some (release, profile) ∧
    profile.provided semver profileVersion contract requirement = some version

/-- The providers a dependency document is made from. -/
theorem mem_matchingProviders {matching : List MatchingProvider}
    (h : matchingProviders semver dep contract requirement pv depl = .ok matching) {rel : String} :
    ⟨product, rel, version⟩ ∈ matching ↔
      depl.Provider semver dep pv contract requirement product rel version := by
  have h := (providerLoop_eq Prod.fst (fun e : String × String × CompatibilityProfile => e.2.2)
    (fun e version => MatchingProvider.mk e.1 e.2.1 version) dep
    depl.toList).symm.trans h
  rw [mem_of_collect h]
  constructor
  · rintro ⟨⟨_, _, profile⟩, hent, hfd⟩
    obtain ⟨found, hprov, heq⟩ := map_eq_ok_some hfd
    cases heq
    obtain ⟨hself, hprvd⟩ := providerOf_eq_some hprov
    exact ⟨hself, profile, Std.TreeMap.mem_toList_iff_getElem?_eq_some.mp hent, hprvd⟩
  · rintro ⟨hself, profile, hprof, hprvd⟩
    have hent := Std.TreeMap.mem_toList_iff_getElem?_eq_some.mpr hprof
    refine ⟨_, hent, ?_⟩
    obtain ⟨found, hfd⟩ := returned_of_collect h hent
    obtain ⟨first, hprov, rfl⟩ := map_eq_ok hfd
    rwa [providerOf_eq hprov, if_neg hself, hprvd] at hfd

end Satisfied

/-! ### Documents and edges -/

section Documents

variable {semver : SemverCrate}

def CompatibilityProfile.lastRequirement (profile : CompatibilityProfile) (contract : String) :
    Option ContractRequirement :=
  profile.components.values.reverse.findSome? fun component => component.requires[contract]?

theorem getElem?_foldl_requires {requires start : Std.TreeMap String ContractRequirement} :
    (requires.toList.foldl (fun requirements entry => requirements.insert entry.1 entry.2)
      start)[contract]? = requires[contract]?.or start[contract]? := by
  have hmany : ∀ (entries : List (String × ContractRequirement))
      (start : Std.TreeMap String ContractRequirement),
      entries.foldl (fun requirements entry => requirements.insert entry.1 entry.2) start =
        start.insertMany entries := by
    intro entries
    induction entries with
    | nil => simp
    | cons entry entries ih =>
      intro start
      rw [List.foldl_cons, ih, Std.TreeMap.insertMany_cons]
  rw [hmany]
  cases hreqs : requires[contract]? with
  | none =>
    rw [Std.TreeMap.getElem?_insertMany_list_of_contains_eq_false]
    · rfl
    · rw [Std.TreeMap.map_fst_toList_eq_keys]
      simp [Std.TreeMap.mem_iff_isSome_getElem?, hreqs]
  | some requirement =>
    rw [Std.TreeMap.getElem?_insertMany_list_of_mem
      Std.ReflCmp.compare_self Std.TreeMap.distinct_keys_toList
      (Std.TreeMap.mem_toList_iff_getElem?_eq_some.mpr hreqs)]
    rfl

theorem CompatibilityProfile.requirements_getElem? :
    profile.requirements[contract]? = profile.lastRequirement contract := by
  have hcomponents : ∀ (comps : List ComponentRequirement)
      (start : Std.TreeMap String ContractRequirement),
      (comps.foldl (fun requirements comp =>
        comp.requires.toList.foldl (fun requirements e =>
          requirements.insert e.1 e.2) requirements) start)[contract]? =
        (comps.reverse.findSome? fun comp => comp.requires[contract]?).or start[contract]? := by
    intro comps
    induction comps with
    | nil => simp
    | cons comp comps ih =>
      intro start
      rw [List.foldl_cons, ih, getElem?_foldl_requires, List.reverse_cons, List.findSome?_append,
        Option.or_assoc]
      simp
  unfold CompatibilityProfile.requirements CompatibilityProfile.lastRequirement
  simp [hcomponents]

theorem CompatibilityProfile.mem_needs_of_requirements
    (h : profile.requirements[contract]? = some requirement) : contract ∈ profile.needs := by
  rw [requirements_getElem?, lastRequirement] at h
  obtain ⟨comp, hcmp, hreqs⟩ := List.exists_of_findSome?_eq_some h
  rw [CompatibilityProfile.mem_needs]
  refine ⟨comp, List.mem_reverse.mp hcmp, ?_⟩
  rw [Std.TreeMap.mem_iff_isSome_getElem?, hreqs]
  rfl

theorem entry_of_document {document : DependencyDocument}
    (h : documentFor semver dep profile depl = .ok (some document))
    {entry : DependencyContract} (hent : document.contracts[contract]? = some entry) :
    ∃ requirement, profile.requirements[contract]? = some requirement ∧
      contractEntry semver dep profile depl contract requirement = .ok (some entry) := by
  let Made (contracts : Std.TreeMap String DependencyContract) : Prop :=
    ∀ contract entry, contracts[contract]? = some entry →
      ∃ requirement, profile.requirements[contract]? = some requirement ∧
        contractEntry semver dep profile depl contract requirement = .ok (some entry)
  unfold documentFor at h
  split at h
  · cases h
  · obtain ⟨contracts, hcontracts, h⟩ := Returns.of_bind (Q := (· = some document)) ⟨_, h, rfl⟩
    have hmade : Made contracts := Ensures.foldlM ?start ?turn contracts hcontracts
    case start =>
      intro contract entry hnone
      simp at hnone
    case turn =>
      rintro contracts ⟨name, requirement⟩ hname hmade
      refine .bind (.returned (contractEntry semver dep profile depl name
        requirement)) fun found hfd => ?_
      cases found with
      | none => exact .pure hmade
      | some made =>
        apply Ensures.pure
        intro other entry hoth
        rw [Std.TreeMap.getElem?_insert] at hoth
        by_cases heq : name = other
        · subst heq
          simp only [Std.ReflCmp.compare_self, if_true, Option.some.injEq] at hoth
          subst hoth
          exact ⟨requirement, Std.TreeMap.mem_toList_iff_getElem?_eq_some.mp hname, hfd⟩
        · rw [if_neg (by simpa using heq)] at hoth
          exact hmade other entry hoth
    obtain ⟨_, ⟨⟩, h⟩ := h
    split at h
    · cases h
    · cases h
      exact hmade contract entry hent

/-- A document says of each contract that the profile requires what is found for its requirement. -/
theorem entry_of_requirement {result : Option DependencyDocument}
    (h : documentFor semver dep profile depl = .ok result)
    (hreqm : profile.requirements[contract]? = some requirement) :
    contractEntry semver dep profile depl contract requirement =
      .ok (result.bind (·.contracts[contract]?)) := by
  cases hent : result.bind (·.contracts[contract]?) with
  | some entry =>
    obtain ⟨document, rfl, hent⟩ := Option.bind_eq_some_iff.mp hent
    obtain ⟨found, hfd, hmade⟩ := entry_of_document h hent
    cases hreqm.symm.trans hfd
    exact hmade
  | none =>
    have hmem := Std.TreeMap.mem_toList_iff_getElem?_eq_some.mpr hreqm
    unfold documentFor at h
    split at h
    · case isTrue hempty =>
        rw [Std.TreeMap.getElem?_of_isEmpty hempty] at hreqm
        cases hreqm
    · obtain ⟨contracts, hcontracts, h⟩ := Returns.of_bind (Q := (· = result)) ⟨_, h, rfl⟩
      obtain ⟨_, _, hturn⟩ := Returns.turn_of_foldlM (Q := fun _ => True) hmem
        ⟨_, hcontracts, trivial⟩
      obtain ⟨found, hfd, -⟩ := Returns.of_bind (Q := fun _ => True) ⟨_, hturn, trivial⟩
      cases found with
      | none => exact hfd
      | some made =>
        -- an entry that was made is in the document
        have hkept : contract ∈ contracts := Ensures.foldlM_of_mem
          (Q := fun contracts => contract ∈ contracts) hmem ?_ ?_ contracts hcontracts
        · obtain ⟨_, ⟨⟩, rfl⟩ := h
          rw [Std.TreeMap.mem_iff_isSome_getElem?] at hkept
          split at hent
          · case isTrue hempty =>
              rw [Std.TreeMap.getElem?_of_isEmpty hempty] at hkept
              cases hkept
          · rw [Option.bind_some] at hent
            rw [hent] at hkept
            cases hkept
        · intro contracts
          rw [hfd]
          exact .pure Std.TreeMap.mem_insert_self
        · intro contracts _ hcontract
          refine .after fun found => ?_
          cases found with
          | none => exact .pure hcontract
          | some made => exact .pure (Std.TreeMap.mem_insert.mpr (.inr hcontract))

/-- What a document says of a contract for a requirement: nothing if the profile satisfies it
    itself, and otherwise the only other product that does, if there is one. -/
theorem contractEntry_cases {e : Option DependencyContract}
    (h : contractEntry semver dep profile depl contract requirement = .ok e) :
    (profile.Satisfies semver profile.version contract requirement ∧ e = none) ∨
      (¬ profile.Satisfies semver profile.version contract requirement ∧ e = some .absent ∧
      ∀ prod rel v, ¬ depl.Provider semver dep profile.version contract requirement prod rel v) ∨
      (¬ profile.Satisfies semver profile.version contract requirement ∧ ∃ prod rel v,
      e = some (.present prod rel v) ∧ ∀ name stored offered,
      depl.Provider semver dep profile.version contract requirement name stored offered ↔
      name = prod ∧ stored = rel ∧ offered = v) := by
  obtain ⟨self, hself, h⟩ := Returns.of_bind (Q := (· = e)) ⟨_, h, rfl⟩
  obtain ⟨found, hfd, _, ⟨⟩, rfl⟩ := Returns.of_bind (Q := (· = self)) ⟨_, hself, rfl⟩
  have hsat : found.isSome ↔ profile.Satisfies semver profile.version contract requirement := by
    rw [firstProvided_eq hfd]
    exact CompatibilityProfile.provided_isSome
  by_cases hisSome : found.isSome = true
  · rw [if_pos hisSome] at h
    obtain ⟨_, ⟨⟩, rfl⟩ := h
    exact .inl ⟨hsat.mp hisSome, rfl⟩
  · rw [if_neg hisSome] at h
    have hnot := hsat.not.mp hisSome
    obtain ⟨matching, hmatching, h⟩ := h.of_bind
    have hmem {prod rel v : String} :
        ⟨prod, rel, v⟩ ∈ matching ↔ _ := mem_matchingProviders hmatching
    match matching with
    | [] =>
      obtain ⟨_, h, hent⟩ := h
      dsimp only at h
      split at h
      · cases h
        cases hent
        exact .inr (.inl ⟨hnot, rfl, fun prod rel v hprov => List.not_mem_nil (hmem.mpr hprov)⟩)
      · cases h
    | [provider] =>
      obtain ⟨_, ⟨⟩, rfl⟩ := h
      refine .inr (.inr ⟨hnot, provider.product, provider.release,
        provider.contractVersion, rfl, fun name stored offered => ?_⟩)
      rw [← hmem, List.mem_singleton, MatchingProvider.mk.injEq]
    | _ :: _ :: _ =>
      obtain ⟨_, h, -⟩ := h
      cases h

/-- A contract that a document lists as present comes from another product, which satisfies the
    requirement. -/
theorem satisfier_of_present {rel : String}
    (h : contractEntry semver dep profile depl contract requirement =
      .ok (some (.present product rel version))) :
    product ≠ dep ∧ ∃ provider, depl[product]? = some (rel, provider) ∧
      provider.Satisfies semver profile.version contract requirement := by
  rcases contractEntry_cases h with ⟨-, ⟨⟩⟩ | ⟨-, ⟨⟩, -⟩ | ⟨-, _, _, _, ⟨⟩, hprovs⟩
  obtain ⟨hself, provider, hprov, hprvd⟩ := (hprovs _ _ _).mpr ⟨rfl, rfl, rfl⟩
  refine ⟨hself, provider, hprov, CompatibilityProfile.provided_isSome.mp ?_⟩
  rw [hprvd]
  rfl

/-- A document gives every component what it requires: a version that satisfies its own minimum,
    and none only of a contract that no component insists on. -/
def MeetsEveryComponent (semver : SemverCrate) (profile : CompatibilityProfile)
    (result : Option DependencyDocument) : Prop :=
  ∀ component ∈ profile.components.values, ∀ contract requirement,
    component.requires[contract]? = some requirement →
    ¬ profile.Satisfies semver profile.version contract requirement →
    (requirement.isOptional = false → ∃ product release version,
      result.bind (·.contracts[contract]?) = some (.present product release version) ∧
      semver.meets profile.version requirement version) ∧
    (result.bind (·.contracts[contract]?) = some .absent →
      ∀ other ∈ profile.components.values, ∀ required,
        other.requires[contract]? = some required → required.isOptional = true)

/-- The requirement of the last component that requires a contract stands for those of all that
    insist on it: what is found for it is found for them. -/
def LastStandsForAll (semver : SemverCrate) (dependent : String) (profile : CompatibilityProfile)
    (deployed : Deployed) : Prop :=
  ∀ component ∈ profile.components.values, ∀ contract requirement last,
    component.requires[contract]? = some requirement → requirement.isOptional = false →
    profile.lastRequirement contract = some last →
    (profile.Satisfies semver profile.version contract requirement ∨
      ¬ profile.Satisfies semver profile.version contract last ∧ ∃ product release version,
        deployed.Provider semver dependent profile.version contract last product release version ∧
        semver.meets profile.version requirement version) ∧
    (profile.Satisfies semver profile.version contract last ∨ ∃ product release version,
      deployed.Provider semver dependent profile.version contract last product release version)

/-- Requirements are merged by contract before they are looked up, and the last one is kept. A
    document meets the requirement of every component exactly if that one stands for the others. -/
theorem document_meets_every_component_iff (semver : SemverCrate) (dependent : String)
    (profile : CompatibilityProfile) (deployed : Deployed) (result : Option DependencyDocument)
    (h : documentFor semver dependent profile deployed = .ok result) :
    MeetsEveryComponent semver profile result ↔
      LastStandsForAll semver dependent profile deployed := by
  have hentry : ∀ {contract last}, profile.lastRequirement contract = some last →
      contractEntry semver dependent profile deployed contract last = _ := fun hlast =>
    entry_of_requirement h (CompatibilityProfile.requirements_getElem?.trans hlast)
  constructor
  · intro hmeets component hcomponent contract requirement last hrequires hrequired hlast
    obtain ⟨origin, horigin, horiginal⟩ := List.exists_of_findSome?_eq_some hlast
    rw [List.mem_reverse] at horigin
    have hmet := hmeets component hcomponent contract requirement hrequires
    rcases contractEntry_cases (hentry hlast) with ⟨hself, hnone⟩ | ⟨hself, habsent, hproviders⟩ |
      ⟨hself, product, release, version, hpresent, hproviders⟩
    · constructor
      · by_contra hnot
        rw [not_or] at hnot
        obtain ⟨_, _, _, hpresent, -⟩ := (hmet hnot.1).1 hrequired
        rw [hnone] at hpresent
        cases hpresent
      · exact .inl hself
    · have hoptional := (hmeets origin horigin contract last horiginal hself).2 habsent component
        hcomponent requirement hrequires
      rw [hrequired] at hoptional
      cases hoptional
    · have hprovider := (hproviders product release version).mpr ⟨rfl, rfl, rfl⟩
      constructor
      · by_cases hown : profile.Satisfies semver profile.version contract requirement
        · exact .inl hown
        · obtain ⟨_, _, _, hfound, hversion⟩ := (hmet hown).1 hrequired
          rw [hpresent] at hfound
          cases hfound
          exact .inr ⟨hself, _, _, _, hprovider, hversion⟩
      · exact .inr ⟨_, _, _, hprovider⟩
  · intro hstands component hcomponent contract requirement hrequires hown
    obtain ⟨last, hlast⟩ : ∃ last, profile.lastRequirement contract = some last := by
      rw [← Option.isSome_iff_exists, CompatibilityProfile.lastRequirement,
        List.findSome?_isSome_iff]
      exact ⟨component, List.mem_reverse.mpr hcomponent, by rw [hrequires]; rfl⟩
    constructor
    · intro hrequired
      have hstand := hstands component hcomponent contract requirement last hrequires hrequired hlast
      obtain ⟨hself, product, release, version, hprovider, hversion⟩ := hstand.1.resolve_left hown
      rcases contractEntry_cases (hentry hlast) with ⟨hlastSelf, -⟩ | ⟨-, -, hproviders⟩ |
        ⟨-, _, _, _, hpresent, hproviders⟩
      · exact absurd hlastSelf hself
      · exact absurd hprovider (hproviders _ _ _)
      · obtain ⟨rfl, rfl, rfl⟩ := (hproviders _ _ _).mp hprovider
        exact ⟨_, _, _, hpresent, hversion⟩
    · intro habsent other hother required hrequires
      by_contra hrequired
      rw [Bool.not_eq_true] at hrequired
      have hstand := hstands other hother contract required last hrequires hrequired hlast
      rcases contractEntry_cases (hentry hlast) with ⟨-, hnone⟩ | ⟨hself, -, hproviders⟩ |
        ⟨-, _, _, _, hpresent, -⟩
      · rw [hnone] at habsent
        cases habsent
      · obtain ⟨_, _, _, hprovider⟩ := hstand.2.resolve_left hself
        exact hproviders _ _ _ hprovider
      · rw [hpresent] at habsent
        cases habsent

def Deployed.profiles (deployed : Deployed) : Profiles := deployed.map fun _ entry => entry.2

/-- A contract that the dependency document of a product lists as present from another has its
    edge in the plan's order if and only if no two products offer it, in whatever versions. -/
theorem edge_of_present_iff (semver : SemverCrate) (deployed : Deployed) (dependent release : String)
    (profile : CompatibilityProfile) (hdependent : deployed[dependent]? = some (release, profile))
    (document : DependencyDocument)
    (hdocument : documentFor semver dependent profile deployed = .ok (some document))
    (contract product provided version : String)
    (hpresent : document.contracts[contract]? = some (.present product provided version)) :
    (product, dependent, contract) ∈ crossReleaseContractEdges deployed.profiles ↔
      ∀ first second, deployed.profiles.Offer contract first →
        deployed.profiles.Offer contract second → first = second := by
  obtain ⟨requirement, hrequirement, hentry⟩ := entry_of_document hdocument hpresent
  obtain ⟨hself, provider, hprovider, hsatisfies⟩ := satisfier_of_present hentry
  have hprofiles : ∀ {name : String} {release : String} {profile : CompatibilityProfile},
      deployed[name]? = some (release, profile) → deployed.profiles[name]? = some profile := by
    intro name release profile h
    rw [Deployed.profiles, Std.TreeMap.getElem?_map, h]
    rfl
  have hoffer : deployed.profiles.Offer contract product :=
    ⟨provider, hprofiles hprovider, hsatisfies.mem_offers⟩
  rw [mem_crossReleaseContractEdges]
  constructor
  · rintro ⟨-, -, honly⟩ first second hfirst hsecond
    rw [(honly first).mp hfirst, (honly second).mp hsecond]
  · intro hunique
    refine ⟨hself, ⟨profile, hprofiles hdependent,
      CompatibilityProfile.mem_needs_of_requirements hrequirement⟩, fun other => ?_⟩
    constructor
    · intro hother
      exact hunique other product hother hoffer
    · rintro rfl
      exact hoffer

end Documents

/-! ### What a plan leaves -/

section Remaining

variable {semver : SemverCrate}

theorem Profiles.mem_requirements {profiles : Profiles} {comp : ComponentRequirement}
    (hprof : profiles[dep]? = some profile) (hcmp : comp ∈ profile.components.values)
    (hreqs : comp.requires[contract]? = some requirement) :
    (dep, profile.version, contract, requirement) ∈ profiles.requirements := by
  have hent := Std.TreeMap.mem_toList_iff_getElem?_eq_some.mpr hprof
  have hreq := Std.TreeMap.mem_toList_iff_getElem?_eq_some.mpr hreqs
  apply List.mem_flatMap.mpr
  refine ⟨_, hent, List.mem_flatMap.mpr ⟨comp, hcmp, ?_⟩⟩
  exact List.mem_map.mpr ⟨_, hreq, rfl⟩

/-- A requirement that is not refused and was satisfied before is left with one provider. -/
theorem existsUnique_of_requirementRefusal
    (h : requirementRefusal semver remaining prev dep pv contract requirement = .ok none)
    (hreq : requirement.isOptional = false)
    (hbef : ∃ product, prev.Satisfier semver dep pv contract requirement product) :
    ∃! product, remaining.Satisfier semver dep pv contract requirement product := by
  obtain ⟨matching, hmatching, h⟩ := Returns.of_bind (Q := (· = none)) ⟨_, h, rfl⟩
  match matching with
  | [] =>
    rw [hreq] at h
    obtain ⟨before, hpreviously, h⟩ := h.of_bind
    obtain ⟨product, hprod⟩ := hbef
    have hmem := (mem_matchingDeployedProviders hpreviously).mpr hprod
    -- the provider from before makes the code refuse
    obtain ⟨_, ⟨⟩, h⟩ := h
    rw [if_neg (by simp [List.ne_nil_of_mem hmem])] at h
    cases h
  | [product] =>
    refine ⟨product, (mem_matchingDeployedProviders hmatching).mp (by simp), ?_⟩
    intro _ hoth
    exact List.mem_singleton.mp ((mem_matchingDeployedProviders hmatching).mpr hoth)
  | _ :: _ :: _ =>
    obtain ⟨_, ⟨⟩, h⟩ := h
    cases h

theorem remainingDependentRefusal_eq_none
    (h : refuseUnsatisfiedDependents semver remaining prev = .ok ()) :
    remainingDependentRefusal semver remaining prev = .ok none := by
  obtain ⟨refusal, hrefusal, h⟩ := Returns.of_bind (Q := (· = ())) ⟨_, h, rfl⟩
  match refusal with
  | none => exact hrefusal
  | some ⟨_, _, .ambiguous⟩ | some ⟨_, _, .unsatisfied _⟩ =>
    obtain ⟨_, h, -⟩ := h
    cases h

/-- A plan that can be ordered leaves no dependent stranded: a contract that a product requires
    after the plan, and that some other product satisfied for it before, is satisfied by exactly
    one other product after it. -/
theorem one_provider_remains (semver : SemverCrate) (pending : List PendingAction)
    (target installed : Profiles) (order : ContractPlanOrder)
    (horder : contractPlanOrder semver pending target installed = .ok order)
    (dependent : String) (profile : CompatibilityProfile)
    (hremains : (overlayProfiles installed target pending)[dependent]? = some profile)
    (component : ComponentRequirement) (hcomponent : component ∈ profile.components.values)
    (contract : String) (requirement : ContractRequirement)
    (hrequires : component.requires[contract]? = some requirement)
    (hrequired : requirement.isOptional = false)
    (hbefore : ∃ product, installed.Satisfier semver dependent profile.version contract requirement
      product) :
    ∃! product, (overlayProfiles installed target pending).Satisfier semver dependent
      profile.version contract requirement product := by
  have hrefuse : refuseUnsatisfiedDependents semver (overlayProfiles installed target pending)
      installed = .ok () := by
    obtain ⟨_, hrefuse, -⟩ := Returns.of_bind (Q := (· = order)) ⟨_, horder, rfl⟩
    exact hrefuse
  have hnone := eq_none_of_foldlM (fun _ _ => rfl) (remainingDependentRefusal_eq_none hrefuse)
    (Profiles.mem_requirements hremains hcomponent hrequires)
  exact existsUnique_of_requirementRefusal hnone hrequired hbefore

end Remaining

/-! ### Published profiles -/

namespace CompatibilityProfile

variable (semver : SemverCrate)

def validateIdentifier (value : String) : Except String Unit :=
  refuseIf (value.isEmpty ∨ 128 < value.utf8ByteSize ∨
      ¬ value.toList.all fun c => c.isAlphanum || c = '.' || c = '_' || c = '-')
    "invalid software compatibility identifier"

def validateContractVersion (version : String) : Except String Unit := do
  let parsed ← semver.parsed version s!"{version} is not a semantic version"
  refuseIf (¬ parsed.identifiers.isEmpty)
    "software contract versions must be stable semantic versions"

def validateContracts (contracts : Std.TreeMap String String) : Except String Unit := do
  refuseIf (128 < contracts.size) "too many software contracts"
  contracts.toList.forM fun entry => do
    validateIdentifier entry.1
    validateContractVersion semver entry.2

def validateRequirements (profileVersion : Nat)
    (requirements : Std.TreeMap String ContractRequirement) : Except String Unit := do
  refuseIf (128 < requirements.size) "too many software contracts"
  requirements.toList.forM fun entry => do
    validateIdentifier entry.1
    validateContractVersion semver entry.2.minimumVersion
    match entry.2 with
    | .detailed _ _ =>
      refuseIf (profileVersion < 2)
        (s!"table-form contract requirements need [compatibility] version = 2 (contract " ++
          s!"{entry.1})")
    | .minimum _ => pure ()

/-- Edges from each component to those of the same release that provide what it requires. -/
def requirementEdges (components : Std.TreeMap String ComponentRequirement) : List ContractEdge :=
  components.toList.flatMap fun entry =>
    entry.2.requires.keys.flatMap fun contract =>
      (components.toList.filter fun provider => provider.2.provides.contains contract).map
        fun provider => (entry.1, provider.1, contract)

def refuseRequirementCycle (components : Std.TreeMap String ComponentRequirement) :
    Except String Unit := do
  let _ ← components.keys.foldlM (visitContractEdge "software compatibility"
    (requirementEdges components) (components.size + 1) [] ∅) []
  pure ()

/-- `CompatibilityProfile::validate`, of what a profile says about contracts. -/
def validate (profile : CompatibilityProfile) : Except String Unit := do
  refuseIf ((profile.version ≠ 1 ∧ profile.version ≠ 2) ∨ profile.components.isEmpty ∨
      128 < profile.components.size)
    "software compatibility requires version 1 or 2 and 1..128 components"
  profile.components.toList.forM fun entry => do
    validateIdentifier entry.1
    validateRequirements semver profile.version entry.2.requires
    validateContracts semver entry.2.provides
  if profile.version ≥ 2 then refuseRequirementCycle profile.components

end CompatibilityProfile

/-! ### A dependent and its database -/

/-- Enough of `semver` for the versions used here. -/
def sampleSemver : SemverCrate where
  parse version :=
    if version = "1.0.0" then some ⟨1, 0, 0, ""⟩
    else if version = "1.2.0" then some ⟨1, 2, 0, ""⟩
    else if version = "2.0.0" then some ⟨2, 0, 0, ""⟩
    else none
  lt a b := a.major < b.major || (a.major = b.major && a.minor < b.minor)

def oneComponent (requires : List (String × ContractRequirement))
    (provides : List (String × String)) : CompatibilityProfile where
  version := 2
  components := Std.TreeMap.empty.insert "main" ⟨.ofList requires, .ofList provides⟩

def shopProfile : CompatibilityProfile := oneComponent [("sql", .minimum "1.0.0")] []

def shopDeployed : Deployed :=
  .ofList [("postgres", "15.0.0", oneComponent [] [("sql", "1.2.0")]),
    ("shop", "3.0.0", shopProfile)]

/-- A second product offers `sql`, of another major version. -/
def shopDeployedTwice : Deployed :=
  shopDeployed.insert "legacy" ("9.0.0", oneComponent [] [("sql", "2.0.0")])

def sqlFromPostgres : DependencyContract := .present "postgres" "15.0.0" "1.2.0"

theorem edge_of_present_iff_shop :
    ("postgres", "shop", "sql") ∈ crossReleaseContractEdges shopDeployed.profiles ↔
      ∀ first second, shopDeployed.profiles.Offer "sql" first →
        shopDeployed.profiles.Offer "sql" second → first = second :=
  edge_of_present_iff sampleSemver shopDeployed "shop" "3.0.0" shopProfile (by rfl)
    ⟨1, .ofList [("sql", sqlFromPostgres)]⟩ (by rfl) "sql" "postgres" "15.0.0" "1.2.0" (by rfl)

/-- The document names `postgres`, and the planner sees no edge: `legacy` offers the contract too. -/
theorem document_provider_without_edge :
    (∀ entry ∈ shopDeployedTwice.toList, entry.2.2.validate sampleSemver = .ok ()) ∧
      (documentFor sampleSemver "shop" shopProfile shopDeployedTwice).map
        (Option.map (·.contracts.toList)) = .ok (some [("sql", sqlFromPostgres)]) ∧
      crossReleaseContractEdges shopDeployedTwice.profiles = [] := by
  decide +kernel

def sqlFrom (minimum : String) : ComponentRequirement :=
  ⟨Std.TreeMap.empty.insert "sql" (.minimum minimum), ∅⟩

/-- The first of two components requires it from a later version on. -/
def twoMinimums : CompatibilityProfile where
  version := 2
  components := .ofList [("api", sqlFrom "1.2.0"), ("worker", sqlFrom "1.0.0")]

theorem document_meets_every_component_iff_shop :
    documentFor sampleSemver "shop" shopProfile shopDeployed =
      .ok (some ⟨1, .ofList [("sql", sqlFromPostgres)]⟩) ∧
    (MeetsEveryComponent sampleSemver shopProfile
        (some ⟨1, .ofList [("sql", sqlFromPostgres)]⟩) ↔
      LastStandsForAll sampleSemver "shop" shopProfile shopDeployed) :=
  ⟨by rfl, document_meets_every_component_iff sampleSemver "shop" shopProfile shopDeployed _
    (by rfl)⟩

/-- The document is made for the worker's minimum and gives the other component too old a
    version. -/
theorem earlier_minimum_lost :
    twoMinimums.validate sampleSemver = .ok () ∧ ∃ document,
      documentFor sampleSemver "shop" twoMinimums
        (.ofList [("postgres", "14.0.0", oneComponent [] [("sql", "1.0.0")])]) =
          .ok (some document) ∧
      ¬ MeetsEveryComponent sampleSemver twoMinimums (some document) := by
  refine ⟨by decide +kernel,
    ⟨1, .ofList [("sql", DependencyContract.present "postgres" "14.0.0" "1.0.0")]⟩, by rfl, ?_⟩
  intro hmeets
  have hmet := (hmeets (sqlFrom "1.2.0") (List.mem_cons_self ..) "sql" (.minimum "1.2.0")
    (by rfl) ?_).1 rfl
  · obtain ⟨_, _, version, hpresent, hversion⟩ := hmet
    cases hpresent
    revert hversion
    decide
  · rw [← CompatibilityProfile.provided_isSome]
    decide +kernel

def postgresTarget : Profiles := .ofList [("postgres", oneComponent [] [("sql", "1.2.0")])]

/-- `postgres` is upgraded under `shop`. -/
theorem one_provider_remains_shop :
    ∃! product, (overlayProfiles shopDeployed.profiles postgresTarget
      [("postgres", .upgrade)]).Satisfier sampleSemver "shop" 2 "sql" (.minimum "1.0.0") product := by
  have hordered : (contractPlanOrder sampleSemver [("postgres", .upgrade)] postgresTarget
      shopDeployed.profiles).toOption.isSome = true := by
    decide +kernel
  have hpostgres : shopDeployed.profiles.Satisfier sampleSemver "shop" 2 "sql" (.minimum "1.0.0")
      "postgres" := by
    refine ⟨by decide, oneComponent [] [("sql", "1.2.0")], rfl, _, List.mem_cons_self .., "1.2.0",
      rfl, ⟨1, 2, 0, ""⟩, ⟨1, 0, 0, ""⟩, rfl, rfl, rfl⟩
  cases horder : contractPlanOrder sampleSemver [("postgres", .upgrade)] postgresTarget
      shopDeployed.profiles with
  | error e =>
    rw [horder] at hordered
    cases hordered
  | ok order =>
    exact one_provider_remains sampleSemver [("postgres", .upgrade)] postgresTarget
      shopDeployed.profiles order horder "shop" shopProfile rfl _ (List.mem_cons_self ..) "sql"
      (.minimum "1.0.0") rfl rfl ⟨_, hpostgres⟩

end Tenkai
