import Tenkai.Compatibility
import Tenkai.Criticality
import Tenkai.Deployment
import Tenkai.Quorum

/-!
# Approval at execution

`verify_for_execution_named` verifies every approval it can find, keeps one for each key, and
counts them against the quorum rule of the live policy. An approval the policy signed itself is
checked once more against the policy as it is now. Only the first whose key counted is; that is
enough, because an automatic approval counts only for a rule that needs one (`mem_counted_unique`).
-/

namespace Tenkai

open Framing (Bytes)

/-! ### Policies -/

inductive PolicyMode
  | auto
  | manual
  deriving DecidableEq

structure ApprovalPolicy where
  version : Nat
  mode : PolicyMode
  ttlMs : Int
  autoSignerKey : Option String
  requireHuman : List String
  /-- `max_age_ms` of the preflight required. -/
  requirePreflight : Option Int
  quorum : List QuorumRule
  continueAfterFailureMaxCriticality : Option String
  sourceDigest : Option String

/-- Files, keys and names: what a policy is read and checked with. -/
structure PolicyExternals where
  validateIdentifier : (label value : String) → Except String Unit
  validatePolicyFilePath : String → Except String Unit
  /-- The policy file at a path; none if there is no file. -/
  readPolicy : String → Except String (Option ApprovalPolicy)
  /-- The key id of the signer whose seed is kept at a path. -/
  seedKeyId : String → Except String String
  serializedDigest : ApprovalPolicy → Except String String

def parsePolicyCriticality (label : String) : Option String → Except String Unit
  | none => pure ()
  | some value =>
    match CriticalityLevel.parse value with
    | .ok _ => pure ()
    | .error error => throw s!"{label} {error}"

/-- What two rules of one policy may not share. -/
def QuorumRule.slot (rule : QuorumRule) : QuorumPurpose × Option String :=
  (rule.purpose, rule.minCriticality)

namespace ApprovalPolicy

variable (ext : PolicyExternals) (policy : ApprovalPolicy)

def validateRule (seen : List (QuorumPurpose × Option String)) (rule : QuorumRule) :
    Except String (List (QuorumPurpose × Option String)) := do
  refuseIf (rule.n = 0) "plan approval policy quorum n must be at least 1"
  parsePolicyCriticality "quorum min_criticality" rule.minCriticality
  refuseIf (rule.slot ∈ seen) s!"plan approval policy quorum purpose {rule.purpose} is duplicated"
  rule.groups.forM (ext.validateIdentifier "quorum group")
  pure (rule.slot :: seen)

def validateSigner : Except String Unit :=
  match policy.mode, policy.autoSignerKey with
  | .manual, _ => pure ()
  | .auto, none => throw "auto plan approval policy requires auto_signer_key"
  | .auto, some key => ext.validatePolicyFilePath key

def validate : Except String Unit := do
  refuseIf (policy.version ≠ 1) "plan approval policy version must be 1"
  refuseIf (policy.ttlMs ≤ 0) "plan approval policy ttl_ms must be positive"
  policy.validateSigner ext
  policy.requireHuman.forM (ext.validateIdentifier "require_human product")
  refuseIf (∃ maxAge ∈ policy.requirePreflight, maxAge ≤ 0)
    "plan approval policy require_preflight.max_age_ms must be positive"
  let _ ← policy.quorum.foldlM (validateRule ext) []
  parsePolicyCriticality "continue_after_failure_max_criticality"
    policy.continueAfterFailureMaxCriticality

def digest : Except String String :=
  match policy.sourceDigest with
  | some digest => pure digest
  | none => ext.serializedDigest policy

def signerKeyId : Except String (Option String) :=
  match policy.autoSignerKey with
  | none => pure none
  | some path => do
    let keyId ← ext.seedKeyId path
    pure (some keyId)

end ApprovalPolicy

/-- The environment property with the path of the policy. -/
def planApprovalPolicyProperty : String := "plan_approval_policy"

section Policy

variable (ext : PolicyExternals)

def policyPathFromProperties (properties : Properties) : Except String (Option String) :=
  match properties.lookup planApprovalPolicyProperty with
  | none => pure none
  | some path => do
    ext.validatePolicyFilePath path
    pure (some path)

/-- `ApprovalPolicy::load`, of a file that is there. -/
def loadedPolicy (path : String) (policy : ApprovalPolicy) : Except String ApprovalPolicy :=
  match policy.validate ext with
  | .ok _ => pure policy
  | .error _ => throw s!"plan approval policy {path} failed validation"

def loadLivePolicy (properties : Properties) : Except String (Option ApprovalPolicy) := do
  match ← policyPathFromProperties ext properties with
  | none => pure none
  | some path => do
    match ← ext.readPolicy path with
    | none => pure none
    | some policy => do
      let loaded ← loadedPolicy ext path policy
      pure (some loaded)

end Policy

/-! ### The rule of a plan -/

/-- Purpose used to select a quorum rule for a plan and apply flags. -/
def quorumPurpose (plan : Plan) (skipGates : Bool) : QuorumPurpose :=
  if skipGates then .skipGates
  else if plan.steps.any (·.action = .rollback) then .rollback
  else if plan.steps.any (·.action = .downgrade) then .downgrade
  else .executePlan

/-- A rule with no `min_criticality` applies always, one with it from that level on. -/
def QuorumRule.appliesAt (rule : QuorumRule) (criticality : Option CriticalityLevel) : Bool :=
  match rule.minCriticality with
  | none => true
  | some min =>
    match CriticalityLevel.parse min, criticality with
    | .ok min, some got => min.rank ≤ got.rank
    | _, _ => false

/-- What the rules are sorted by: no `min_criticality` first, then by level, then by `n`. -/
def QuorumRule.sortKey (rule : QuorumRule) : Nat × Nat :=
  ((rule.minCriticality.bind fun min => (CriticalityLevel.parse min).toOption.map (·.rank + 1)).getD
    0, rule.n)

/-- The last of a stable sort: of the greatest rules, the one that comes last. -/
def lastSorted : List QuorumRule → Option QuorumRule
  | [] => none
  | rule :: rest =>
    match lastSorted rest with
    | none => some rule
    | some last =>
      if last.sortKey.1 < rule.sortKey.1 ∨
          (last.sortKey.1 = rule.sortKey.1 ∧ last.sortKey.2 < rule.sortKey.2) then some rule
      else some last

def quorumRule (policy : ApprovalPolicy) (purpose : QuorumPurpose)
    (criticality : Option CriticalityLevel) : QuorumRule :=
  (lastSorted (policy.quorum.filter fun rule =>
    rule.purpose = purpose && rule.appliesAt criticality)).getD (defaultQuorum purpose)

def planRule (policy : Option ApprovalPolicy) (plan : Plan) (skipGates : Bool)
    (criticality : Option CriticalityLevel) : QuorumRule :=
  match policy with
  | some policy => quorumRule policy (quorumPurpose plan skipGates) criticality
  | none => defaultQuorum (quorumPurpose plan skipGates)

/-! ### Delivery signals -/

/-- Signed release metadata that forces a human approval. -/
structure DeliverySignals where
  hasMigration : Bool
  changesIdentityConfig : Bool
  reversesMigration : Bool

def flag (properties : Properties) (key : String) : Bool := properties.lookup key == some "true"

namespace DeliverySignals

def default : DeliverySignals := ⟨false, false, false⟩

def target (properties : Properties) : DeliverySignals where
  hasMigration := flag properties "has_migration"
  changesIdentityConfig := flag properties "changes_identity_config"
  reversesMigration := false

/-- Signals of a release a downgrade or rollback moves away from. -/
def departed (properties : Properties) : DeliverySignals where
  hasMigration := false
  changesIdentityConfig := false
  reversesMigration := flag properties "has_migration"

def merge (signals other : DeliverySignals) : DeliverySignals where
  hasMigration := signals.hasMigration || other.hasMigration
  changesIdentityConfig := signals.changesIdentityConfig || other.changesIdentityConfig
  reversesMigration := signals.reversesMigration || other.reversesMigration

/-- Every signal of the one is a signal of the other. -/
structure Within (signals other : DeliverySignals) : Prop where
  hasMigration : signals.hasMigration → other.hasMigration
  changesIdentityConfig : signals.changesIdentityConfig → other.changesIdentityConfig

variable {signals other third : DeliverySignals}

theorem Within.refl : signals.Within signals := ⟨id, id⟩

theorem Within.trans (h : signals.Within other) (h' : other.Within third) : signals.Within third :=
  ⟨h'.1 ∘ h.1, h'.2 ∘ h.2⟩

end DeliverySignals

/-- What the verification reads at one time: the trust roots and the approvals on file, the
    environment, and the objects of the store. -/
structure Snapshot where
  /-- `TrustRoots::load`, which validates them. -/
  trustRoots : Except String TrustRoots
  envelopes : Except String (List ApprovalEnvelope)
  collected : (planId : String) → Except String (List ApprovalEnvelope)
  environment : String → Except String Properties
  object : String → Except String (Option Properties)
  releases : Except String (List Properties)
  effectiveForTargets : (environment : String) → (products : List String) →
    Except String (Option CriticalityLevel)
  /-- Whether some environment knows the key as one of its automatic signer's. -/
  hostAutomaticKey : String → Except String Bool
  /-- `host_preflight::require_passing`. -/
  requirePassing : Properties → (environment : String) → TrustRoots → (now maxAge : Int) →
    Except String Unit

section Signals

variable (semver : SemverCrate) (snapshot : Snapshot)

def Action.reverse : Action → Bool
  | .downgrade | .rollback => true
  | .install | .upgrade | .restart | .remove => false

def objectSignals (id : String) (read : Properties → DeliverySignals) :
    Except String DeliverySignals := do
  match ← snapshot.object id with
  | some release => pure (read release)
  | none => pure .default

/-- A release between the versions of a step, the later one included. -/
def crossed (step : Step) (low high : Semver) (release : Properties) : Bool :=
  release.lookup "product" = some step.product &&
    match (release.lookup "version").bind semver.parse with
    | some version => semver.lt low version && !semver.lt high version
    | none => false

/-- The signals of the releases a step crosses, or of the one it leaves where versions have no
    order. -/
def crossedSignals (step : Step) (from_ : String) : Except String DeliverySignals :=
  match semver.parse from_, semver.parse step.toVersion with
  | some source, some target => do
    let releases ← snapshot.releases
    pure <| if step.action.reverse then
      ((releases.filter (crossed semver step target source)).map .departed).foldl .merge .default
    else ((releases.filter (crossed semver step source target)).map .target).foldl .merge .default
  | _, _ =>
    if step.action.reverse then objectSignals snapshot (releaseId step.product from_) .departed
    else pure .default

def stepSignals (step : Step) : Except String DeliverySignals :=
  if step.action = .restart then pure .default
  else do
    let target ← objectSignals snapshot step.releaseId .target
    match step.fromVersion with
    | none => pure target
    | some from_ => do
      let crossed ← crossedSignals semver snapshot step from_
      pure (target.merge crossed)

def deliverySignalsForPlan (plan : Plan) : Except String DeliverySignals :=
  plan.steps.foldlM (fun signals step => do
    let found ← stepSignals semver snapshot step
    pure (signals.merge found)) .default

end Signals

/-! ### Automatic approval -/

inductive Decision
  | auto (evidenceId : String)
  | requireHuman (reason : String)

def planMentionsProduct (plan : Plan) (product : String) : Bool :=
  plan.steps.any (·.product = product) || plan.inputs.any (·.product = product)

def evaluate (policy : ApprovalPolicy) (plan : Plan) (skipGates : Bool) (signals : DeliverySignals)
    (criticality : Option CriticalityLevel) : Decision :=
  if policy.mode ≠ .auto then .requireHuman "policy mode is manual"
  else if plan.steps.any (·.host.isSome) then
    .requireHuman "host steps require human or external approval"
  else if (quorumRule policy (quorumPurpose plan skipGates) criticality).n > 1 then
    .requireHuman "multi-party approval requires human-signed envelopes"
  else if skipGates then .requireHuman "skip_gates requires a human-signed envelope"
  else if plan.steps.any (·.action.reverse) then
    .requireHuman "downgrade or rollback requires a human-signed envelope"
  else if signals.hasMigration then
    .requireHuman "has_migration requires a human-signed envelope"
  else if signals.changesIdentityConfig then
    .requireHuman "changes_identity_config requires a human-signed envelope"
  else if signals.reversesMigration then
    .requireHuman "downgrade across a migration boundary requires a human-signed envelope"
  else
    match policy.requireHuman.find? (planMentionsProduct plan) with
    | some product => .requireHuman s!"product {product} requires a human-signed envelope"
    | none => .auto "auto"

/-! ### Verification for execution -/

section Execution

variable (ext : PolicyExternals) (semver : SemverCrate) (signatures : Signatures)

/-- The envelopes that verify, each with its evidence. -/
def verifiedEnvelopes (plan : Plan) (roots : TrustRoots) (now : Int) (skipGates : Bool)
    (envelopes : List ApprovalEnvelope) : List (ApprovalEnvelope × VerificationEvidence) :=
  envelopes.filterMap fun envelope =>
    (verifyEnvelope signatures plan envelope roots now skipGates).toOption.map (envelope, ·)

def lastError (plan : Plan) (roots : TrustRoots) (now : Int) (skipGates : Bool)
    (envelopes : List ApprovalEnvelope) : Option String :=
  (envelopes.filterMap fun envelope =>
    match verifyEnvelope signatures plan envelope roots now skipGates with
    | .ok _ => none
    | .error error => some error).getLast?

/-- The first verified envelope of each key. -/
def uniqueByKey (seen : List String) :
    List (ApprovalEnvelope × VerificationEvidence) → List (ApprovalEnvelope × VerificationEvidence)
  | [] => []
  | item :: rest =>
    if item.1.keyId ∈ seen then uniqueByKey seen rest
    else item :: uniqueByKey (item.1.keyId :: seen) rest

def countedApprovals (roots : TrustRoots)
    (unique : List (ApprovalEnvelope × VerificationEvidence)) : List CountedApproval :=
  unique.filterMap fun item =>
    (roots.signer item.1.keyId).toOption.map fun signer =>
      { keyId := item.1.keyId
        identity := signer.identity
        groups := signer.groups
        auto := item.1.statement.policyProvider = policyProvider }

/-- The first of the verified envelopes whose key counted. -/
def selectEvidence (unique : List (ApprovalEnvelope × VerificationEvidence))
    (tally : QuorumTally) : Except String VerificationEvidence :=
  match unique.find? fun item => (tally.counted.map (·.keyId)).contains item.1.keyId with
  | some item => pure item.2
  | none => throw "plan approval is missing"

def refuseUnlessAuto : Decision → Except String Unit
  | .auto _ => pure ()
  | .requireHuman _ => throw "live environment policy requires human approval"

/-- The live policy, for an approval that it signed. -/
def requireLivePolicy : Option ApprovalPolicy → Except String ApprovalPolicy
  | some policy => pure policy
  | none => throw "automatic approval requires a live environment policy"

/-- An automatic approval is worth what the policy would sign now. -/
def recheckAutomatic (snapshot : Snapshot) (plan : Plan) (skipGates : Bool)
    (evidence : VerificationEvidence) : Except String Unit :=
  if evidence.policyProvider = policyProvider then do
    let environment ← snapshot.environment plan.environment
    let live ← loadLivePolicy ext environment
    let policy ← requireLivePolicy live
    refuseIf (policy.mode ≠ .auto)
      "automatic approval signer is not authorized by this environment's live policy"
    let keyId ← policy.signerKeyId ext
    refuseIf (keyId ≠ some evidence.keyId)
      "automatic approval signer is not authorized by this environment's live policy"
    let digest ← policy.digest ext
    refuseIf (evidence.policyDigest ≠ digest)
      "automatic approval policy digest no longer matches the current environment policy"
    let signals ← deliverySignalsForPlan semver snapshot plan
    let criticality ← snapshot.effectiveForTargets plan.environment
      (plan.steps.map (·.product))
    refuseUnlessAuto (evaluate policy plan skipGates signals criticality)
  else pure ()

def refuseUnscopedHostAutomaticKey (snapshot : Snapshot) (keyId : String)
    (signer : TrustedSigner) : Except String Unit :=
  if signer.environments ≠ [] ∧ signer.providers = [policyProvider] then pure ()
  else do
    let known ← snapshot.hostAutomaticKey keyId
    refuseIf known
      "host-configured automatic key requires explicit environment and builtin-auto scopes"

/-- The preflight that the policy requires; a policy that cannot be read may have required one. -/
def requirePreflight (snapshot : Snapshot) (plan : Plan) (roots : TrustRoots) (now : Int) :
    Except String Unit := do
  let environment ← snapshot.environment plan.environment
  let policy ← loadLivePolicy ext environment
  match policy with
  | none => do
    match ← policyPathFromProperties ext environment with
    | none => pure ()
    | some path => throw (s!"approval policy {path} is configured but unavailable; cannot " ++
        "check its preflight requirement")
  | some policy =>
    match policy.requirePreflight with
    | none => pure ()
    | some maxAge => snapshot.requirePassing environment plan.environment roots now maxAge

/-- `verify_for_execution_named`. It reads the environment and its policy when it counts, again
    when it checks an automatic approval, and again at its end; each may find another state. -/
def verifyForExecutionNamed (counting checking ending : Snapshot) (plan : Plan) (now : Int)
    (skipGates : Bool) (requester : Option String) : Except String VerificationEvidence := do
  let roots ← counting.trustRoots
  let onFile ← counting.envelopes
  let collected ← counting.collected plan.id
  let envelopes := onFile ++ collected
  refuseIf envelopes.isEmpty "plan approval is missing"
  -- each envelope is verified first, so that an expired one does not hide a renewal by its key
  let verified := verifiedEnvelopes signatures plan roots now skipGates envelopes
  refuseIf verified.isEmpty
    ((lastError signatures plan roots now skipGates envelopes).getD "plan approval is missing")
  let unique := uniqueByKey [] verified
  let environment ← counting.environment plan.environment
  let policy ← loadLivePolicy ext environment
  let criticality ← counting.effectiveForTargets plan.environment (plan.steps.map (·.product))
  let rule := planRule policy plan skipGates criticality
  refuseIf (rule.excludeRequester ∧ requester = none)
    ("this approval policy excludes the apply requester, but no authenticated requester " ++
      "identity was supplied")
  let tally := countQuorum rule (countedApprovals roots unique) requester
  refuseIf (tally.missing > 0) (quorumRefusal rule tally)
  let evidence ← selectEvidence unique tally
  recheckAutomatic ext semver checking plan skipGates evidence
  let reloaded ← ending.trustRoots
  tally.counted.forM fun counted => do
    let signer ← reloaded.signer counted.keyId
    refuseUnscopedHostAutomaticKey ending counted.keyId signer
  requirePreflight ext ending plan reloaded now
  pure evidence

end Execution

/-! ### What a live policy asks for -/

variable {rule : QuorumRule} {unique : List (ApprovalEnvelope × VerificationEvidence)}

section Rules

variable {ext : PolicyExternals}

theorem ApprovalPolicy.pos_of_validateRule {seen : List (QuorumPurpose × Option String)} :
    Ensures (validateRule ext seen rule) fun _ => 0 < rule.n :=
  Ensures.refuseIf.bind fun _ hpos => .after fun _ => .after fun _ =>
    .after fun _ => .pure (Nat.pos_of_ne_zero hpos)

theorem ApprovalPolicy.pos_of_validate {policy : ApprovalPolicy} :
    Ensures (policy.validate ext) fun _ => ∀ rule ∈ policy.quorum, 0 < rule.n := by
  refine .after fun _ => .after fun _ => .after fun _ => .after fun _ => .after fun _ => ?_
  refine (Ensures.returned _).bind fun seen hseen => ?_
  refine (Ensures.trivial _).mono fun _ _ rule hrule => ?_
  obtain ⟨_, _, hturn⟩ := Returns.turn_of_foldlM (Q := fun _ => True) hrule ⟨seen, hseen, trivial⟩
  exact pos_of_validateRule _ hturn

theorem pos_of_loadLivePolicy {props : Properties} : Ensures (loadLivePolicy ext props) fun live =>
      ∀ policy ∈ live, ∀ rule ∈ policy.quorum, 0 < rule.n := by
  refine .after fun path => ?_
  cases path with
  | none => exact .pure (by simp)
  | some path =>
    refine .after fun read => ?_
    cases read with
    | none => exact .pure (by simp)
    | some policy =>
      have hload : Ensures (loadedPolicy ext path policy) fun loaded =>
          ∀ rule ∈ loaded.quorum, 0 < rule.n := by
        unfold loadedPolicy
        split
        next hvld => exact .pure (ApprovalPolicy.pos_of_validate _ hvld)
        · exact .throw
      refine hload.bind fun loaded hpos => .pure ?_
      rintro _ ⟨⟩
      exact hpos

theorem mem_of_lastSorted {rules : List QuorumRule} (h : lastSorted rules = some rule) :
    rule ∈ rules := by
  induction rules generalizing rule with
  | nil => cases h
  | cons first rest ih =>
    unfold lastSorted at h
    split at h
    · cases h
      exact List.mem_cons_self
    next last hlast =>
      split at h
      · cases h
        exact List.mem_cons_self
      · cases h
        exact List.mem_cons_of_mem first (ih hlast)

theorem planRule_pos {live : Option ApprovalPolicy}
    (h : ∀ policy ∈ live, ∀ rule ∈ policy.quorum, 0 < rule.n) (plan : Plan) (skip : Bool)
    (criticality : Option CriticalityLevel) : 0 < (planRule live plan skip criticality).n := by
  cases live with
  | none => exact Nat.one_pos
  | some policy =>
    simp only [planRule, quorumRule]
    cases hlast : lastSorted (policy.quorum.filter fun rule =>
        rule.purpose = quorumPurpose plan skip && rule.appliesAt criticality) with
    | none => exact Nat.one_pos
    | some rule => exact h policy rfl rule (List.mem_of_mem_filter (mem_of_lastSorted hlast))

end Rules

/-! ### What an automatic approval is limited to -/

section Automatic

variable {ext : PolicyExternals} {semver : SemverCrate} {snapshot : Snapshot} {plan : Plan}

end Automatic

/-! ### Soundness -/

section Soundness

variable {ext : PolicyExternals} {semver : SemverCrate} {signatures : Signatures}
  {signed : String → Bytes → Prop} {plan : Plan} {roots : TrustRoots} {now : Int}
  {skipGates : Bool} {requester : Option String}

theorem uniqueByKey_spec (seen : List String)
    (items : List (ApprovalEnvelope × VerificationEvidence)) :
    ((uniqueByKey seen items).map (·.1.keyId)).Nodup ∧
      ∀ item ∈ uniqueByKey seen items, item ∈ items ∧ item.1.keyId ∉ seen := by
  induction items generalizing seen with
  | nil => simp [uniqueByKey]
  | cons first rest ih =>
    unfold uniqueByKey
    split
    · obtain ⟨hnodup, hmem⟩ := ih seen
      exact ⟨hnodup, fun item hitem =>
        ⟨List.mem_cons_of_mem _ (hmem item hitem).1, (hmem item hitem).2⟩⟩
    next hnew =>
      obtain ⟨hnodup, hmem⟩ := ih (first.1.keyId :: seen)
      constructor
      · rw [List.map_cons, List.nodup_cons]
        refine ⟨?_, hnodup⟩
        intro hlat
        obtain ⟨item, hitem, hsame⟩ := List.mem_map.mp hlat
        exact (hmem item hitem).2 (hsame ▸ List.mem_cons_self)
      · intro item hitem
        rcases List.mem_cons.mp hitem with rfl | hlat
        · exact ⟨List.mem_cons_self, hnew⟩
        · obtain ⟨hrest, hunseen⟩ := hmem item hlat
          exact ⟨List.mem_cons_of_mem _ hrest, fun hseen => hunseen (List.mem_cons_of_mem _ hseen)⟩

theorem verified_of_mem {envelopes : List ApprovalEnvelope}
    {item : ApprovalEnvelope × VerificationEvidence}
    (h : item ∈ verifiedEnvelopes signatures plan roots now skipGates envelopes) :
    item.1 ∈ envelopes ∧ verifyEnvelope signatures plan item.1 roots now skipGates = .ok item.2 := by
  obtain ⟨envelope, henvl, hsome⟩ := List.mem_filterMap.mp h
  obtain ⟨evidence, hevid, rfl⟩ := Option.map_eq_some_iff.mp hsome
  refine ⟨henvl, ?_⟩
  cases hvfd : verifyEnvelope signatures plan envelope roots now skipGates with
  | error error =>
    rw [hvfd] at hevid
    cases hevid
  | ok found =>
    rw [hvfd] at hevid
    cases hevid
    rfl

end Soundness

/-! ### An unattended installation -/

def labStep : Step where
  id := "p:step:0"
  order := 0
  product := "web"
  «instance» := ""
  action := .install
  fromVersion := none
  toVersion := "1.0.0"
  releaseId := releaseId "web" "1.0.0"
  releaseDigest := ""
  artifactDigest := ""
  workdir := ""
  restore := none
  host := none

def labPlan : Plan where
  id := "p"
  contentId := "c"
  environment := "lab"
  createdAt := 0
  inputs := []
  steps := [labStep]
  state := .computed
  gatesSkipped := none
  statusDetail := ""
  maintenanceBlocked := false
  recalledRecoveryReason := none

def labDigest (c : Char) : String := "sha256:" ++ String.ofList (List.replicate 64 c)

def labPolicy : ApprovalPolicy where
  version := 1
  mode := .auto
  ttlMs := 100
  autoSignerKey := some "/etc/seed"
  requireHuman := ["db"]
  requirePreflight := none
  quorum := [⟨.rollback, 2, [], true, none⟩]
  continueAfterFailureMaxCriticality := none
  sourceDigest := some (labDigest 'b')

def labApproval : ApprovalStatement :=
  ⟨labDigest 'a', "lab", "execute_plan", false, 100, 200, policyProvider, "auto", labDigest 'b'⟩

def labEnvelope : ApprovalEnvelope := ⟨approvalSchema, "id:key", labApproval, ""⟩

def labSignatures : Signatures where
  trim := id
  revoked _ := false
  wellFormedKey _ publicKey keyId :=
    if keyId = "id:" ++ publicKey then pure () else throw "key id does not match the key"
  verifyStrict publicKey _ _ bytes :=
    if publicKey = "key" ∧ bytes = statementBytes labApproval then pure ()
    else throw "signature does not verify"
  executableDigest _ := String.ofList (List.replicate 64 'a')

def labExternals : PolicyExternals where
  validateIdentifier _ _ := .ok ()
  validatePolicyFilePath _ := .ok ()
  readPolicy _ := .ok (some labPolicy)
  seedKeyId _ := .ok "id:key"
  serializedDigest _ := .ok ""

def labEnvironment : Properties :=
  (∅ : Properties).insert planApprovalPolicyProperty "/etc/policy.toml"

def labSnapshot : Snapshot where
  trustRoots := .ok ⟨1, [⟨"id:key", "auto", "key", ["lab"], [policyProvider], [], none, none⟩]⟩
  envelopes := .ok [labEnvelope]
  collected _ := .ok []
  environment _ := .ok labEnvironment
  object _ := .ok none
  releases := .ok []
  effectiveForTargets _ _ := .ok none
  hostAutomaticKey _ := .ok true
  requirePassing _ _ _ _ _ := .ok ()

theorem loadLivePolicy_lab : loadLivePolicy labExternals labEnvironment = .ok (some labPolicy) := by
  rfl

end Tenkai
