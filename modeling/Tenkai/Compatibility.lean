import Tenkai.Properties

/-!
# Compatibility profiles and dependency documents

A profile says which contracts the components of a release require, from which version on, and
which they provide; `dependency_document.rs` derives from the deployed profiles who provides what a
dependent requires. Versions are compared by the `semver` crate, which is a parameter.
-/

namespace Tenkai

/-- A parsed version; pre-release and build identifiers only take part in comparisons. -/
structure Semver where
  major : Nat
  minor : Nat
  patch : Nat
  identifiers : String

/-- The `semver` crate. -/
structure SemverCrate where
  parse : String → Option Semver
  lt : Semver → Semver → Bool

inductive ContractRequirement
  | minimum (value : String)
  | detailed (value : String) (optional : Bool)

def ContractRequirement.minimumVersion : ContractRequirement → String
  | .minimum value | .detailed value _ => value

def ContractRequirement.isOptional : ContractRequirement → Bool
  | .minimum _ => false
  | .detailed _ optional => optional

structure ComponentRequirement where
  requires : Std.TreeMap String ContractRequirement
  provides : Std.TreeMap String String

structure CompatibilityProfile where
  version : Nat
  components : Std.TreeMap String ComponentRequirement

/-- The profiles of a set of products. -/
abbrev Profiles : Type := Std.TreeMap String CompatibilityProfile

/-- What is deployed of a set of products: a version, and its profile. -/
abbrev Deployed : Type := Std.TreeMap String (String × CompatibilityProfile)

inductive DependencyContract
  | present (product release contract : String)
  | absent
  deriving DecidableEq

structure DependencyDocument where
  version : Nat
  contracts : Std.TreeMap String DependencyContract

def DependencyDocument.content (document : DependencyDocument) :
    Nat × List (String × DependencyContract) :=
  (document.version, document.contracts.toList)

section Documents

variable (semver : SemverCrate)

def contractSatisfies (profileVersion : Nat) (actual minimum : Semver) : Bool :=
  if actual.major ≠ minimum.major || semver.lt actual minimum then false
  else if profileVersion ≥ 2 && minimum.major = 0 && actual.minor ≠ minimum.minor then false
  else true

/-- A version that does not parse is an error with the context it is parsed in. -/
def SemverCrate.parsed (version context : String) : Except String Semver :=
  match semver.parse version with
  | some parsed => pure parsed
  | none => throw context

/-- Whether a component provides a satisfying version of a contract, and which; `provider` and
    `dependent` end the texts of the errors. -/
def providedBy (provider dependent : String) (profileVersion : Nat) (contract : String)
    (requirement : ContractRequirement) (component : ComponentRequirement) :
    Except String (Option String) :=
  match component.provides[contract]? with
  | none => pure none
  | some version => do
    let actual ← semver.parsed version s!"provided {contract} version {version}{provider}"
    let minimum ← semver.parsed requirement.minimumVersion
      s!"required {contract} minimum {requirement.minimumVersion}{dependent}"
    pure (if contractSatisfies semver profileVersion actual minimum then some version else none)

def firstProvided (provider dependent : String) (profileVersion : Nat) (contract : String)
    (requirement : ContractRequirement) :
    List ComponentRequirement → Except String (Option String)
  | [] => pure none
  | component :: components => do
    match ← providedBy semver provider dependent profileVersion contract requirement
        component with
    | some version => pure (some version)
    | none => firstProvided provider dependent profileVersion contract requirement components

def selfSatisfies (profile : CompatibilityProfile) (contract : String)
    (requirement : ContractRequirement) : Except String Bool := do
  let version ← firstProvided semver "" "" profile.version contract requirement
    profile.components.values
  pure version.isSome

structure MatchingProvider where
  product : String
  release : String
  contractVersion : String

/-- `matching_providers`: the deployed products are the keys of a map, so the sort and the
    deduplication that follow in the source change nothing. -/
def matchingProviders (dependent contract : String) (requirement : ContractRequirement)
    (profileVersion : Nat) (deployed : Deployed) : Except String (List MatchingProvider) :=
  deployed.toList.foldlM (fun matching entry => do
    if entry.1 = dependent then pure matching
    else
      match ← firstProvided semver s!" on {entry.1}" s!" on {dependent}" profileVersion contract
          requirement entry.2.2.components.values with
      | some version => pure (matching ++ [⟨entry.1, entry.2.1, version⟩])
      | none => pure matching) []

/-- What the components of a profile require; of several requirements for one contract the
    last counts. -/
def CompatibilityProfile.requirements (profile : CompatibilityProfile) :
    Std.TreeMap String ContractRequirement :=
  profile.components.values.foldl (fun requirements component =>
    component.requires.toList.foldl (fun requirements entry =>
      requirements.insert entry.1 entry.2) requirements) ∅

def contractEntry (product : String) (profile : CompatibilityProfile) (deployed : Deployed)
    (contract : String) (requirement : ContractRequirement) :
    Except String (Option DependencyContract) := do
  if ← selfSatisfies semver profile contract requirement then pure none
  else
    match ← matchingProviders semver product contract requirement profile.version deployed with
    | [] =>
      if requirement.isOptional then pure (some .absent)
      else throw (s!"required contract {contract} would be absent in the dependency document " ++
        s!"for {product}")
    | [provider] =>
      pure (some (.present provider.product provider.release provider.contractVersion))
    | _ =>
      throw s!"dependency document for {product} has ambiguous providers for {contract}"

def documentFor (product : String) (profile : CompatibilityProfile) (deployed : Deployed) :
    Except String (Option DependencyDocument) :=
  if profile.requirements.isEmpty then pure none
  else do
    let contracts ← profile.requirements.toList.foldlM (fun contracts entry => do
      match ← contractEntry semver product profile deployed entry.1 entry.2 with
      | some contract => pure (contracts.insert entry.1 contract)
      | none => pure contracts) (∅ : Std.TreeMap String DependencyContract)
    pure (if contracts.isEmpty then none else some ⟨1, contracts⟩)

end Documents

section Dependents

variable (semver : SemverCrate)

/-- `matching_deployed_providers`: as `matching_providers`, of profiles without versions. -/
def matchingDeployedProviders (profiles : Profiles) (contract : String)
    (requirement : ContractRequirement) (profileVersion : Nat) (dependent : String) :
    Except String (List String) :=
  profiles.toList.foldlM (fun matching entry => do
    if entry.1 = dependent then pure matching
    else
      match ← firstProvided semver s!" on {entry.1}" s!" on {dependent}" profileVersion contract
          requirement entry.2.components.values with
      | some _ => pure (matching ++ [entry.1])
      | none => pure matching) []

inductive RemainingDependentKind
  | ambiguous
  | unsatisfied (minimum : String)

structure RemainingDependentRefusal where
  dependent : String
  contract : String
  kind : RemainingDependentKind

/-- One requirement of a product that remains: why the plan may not be made. -/
def requirementRefusal (remaining previous : Profiles) (dependent : String) (profileVersion : Nat)
    (contract : String) (requirement : ContractRequirement) :
    Except String (Option RemainingDependentRefusal) := do
  let matching ← matchingDeployedProviders semver remaining contract requirement profileVersion
    dependent
  match matching with
  | _ :: _ :: _ => pure (some ⟨dependent, contract, .ambiguous⟩)
  | [_] => pure none
  | [] =>
    if requirement.isOptional then pure none
    else do
      let before ← matchingDeployedProviders semver previous contract requirement profileVersion
        dependent
      -- what was not satisfied before is not this plan's doing
      pure (if before.isEmpty then none
        else some ⟨dependent, contract, .unsatisfied requirement.minimumVersion⟩)

/-- Every requirement of every component, with its product. -/
def Profiles.requirements (profiles : Profiles) :
    List (String × Nat × String × ContractRequirement) :=
  profiles.toList.flatMap fun entry =>
    entry.2.components.values.flatMap fun component =>
      component.requires.toList.map fun required =>
        (entry.1, entry.2.version, required.1, required.2)

def remainingDependentRefusal (remaining previous : Profiles) :
    Except String (Option RemainingDependentRefusal) :=
  remaining.requirements.foldlM (fun found required =>
    match found with
    | some refusal => pure (some refusal)
    | none => requirementRefusal semver remaining previous required.1 required.2.1 required.2.2.1
        required.2.2.2) none

def refuseUnsatisfiedDependents (remaining previous : Profiles) : Except String Unit := do
  match ← remainingDependentRefusal semver remaining previous with
  | none => pure ()
  | some ⟨dependent, contract, .ambiguous⟩ =>
    throw s!"plan would leave installed dependent {dependent} with ambiguous contract {contract}"
  | some ⟨dependent, contract, .unsatisfied minimum⟩ =>
    throw (s!"plan would leave installed dependent {dependent} without required contract " ++
      s!"{contract} (>={minimum})")

end Dependents

end Tenkai
