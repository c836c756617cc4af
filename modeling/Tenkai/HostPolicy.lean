import Tenkai.Quorum

/-!
# Approvals of host steps

The root side counts the approvals of a host step against a policy of its own, in which every rule
for a purpose must be met: at intake, again after the wait for the product's lock, and a third time
for a target that is not newer than the newest release ever applied. `quorumMet_of_require` says
what such a count is worth.
-/

namespace Tenkai

open Framing (Bytes)

/-! ### Policy -/

structure HostApprovalPolicy where
  maxApprovalTtlMs : Option Int
  signers : List TrustedSigner
  quorum : List QuorumRule

/-- One verified approval and when it stops counting: it counts while `now < validUntil`. -/
structure Candidate where
  approval : CountedApproval
  validUntil : Int
  deriving DecidableEq

/-- Verified approvals for one plan, and the host policy's rules to count them against. -/
structure HostApprovals where
  rules : List (QuorumPurpose × List QuorumRule)
  candidates : List Candidate
  rejected : List String
  deriving DecidableEq

/-- `expires_at - issued_at`, in `i64`. -/
def ApprovalStatement.lifetime (statement : ApprovalStatement) : Int :=
  saturatingSub statement.expiresAt.toInt statement.issuedAt.toInt

def int64Max : Int := 2 ^ 63 - 1

namespace HostApprovalPolicy

variable (policy : HostApprovalPolicy)

def trustRoots : TrustRoots := ⟨1, policy.signers⟩

/-- Every rule for a purpose, whatever its `min_criticality`, or the default of one trusted
    approval when the policy names none. -/
def rules (purpose : QuorumPurpose) : List QuorumRule :=
  let rules := policy.quorum.filter (·.purpose = purpose)
  if rules.isEmpty then [defaultQuorum purpose] else rules

/-- What becomes of one envelope: a candidate, or the reason it does not count. -/
def candidate (signatures : Signatures) (plan : Plan) (now : Int) (envelope : ApprovalEnvelope) :
    Except String Candidate := do
  let statement := envelope.statement
  refuseIf (statement.policyProvider = policyProvider)
    s!"{envelope.keyId}: automatic approvals never authorize host steps"
  refuseIf (∃ ttl ∈ policy.maxApprovalTtlMs, ttl < statement.lifetime)
    s!"{envelope.keyId}: approval lifetime exceeds the host policy's max_approval_ttl_ms"
  -- the gate-skip flag is server state; an approval binds it either way
  match verifyEnvelope signatures plan envelope policy.trustRoots now statement.skipGates with
  | .error error => throw s!"{envelope.keyId}: {error}"
  | .ok evidence =>
    let signer := (policy.trustRoots.signer envelope.keyId).toOption
    pure
      { approval :=
          { keyId := evidence.keyId
            identity := evidence.signerIdentity
            groups := (signer.map (·.groups)).getD []
            auto := false }
        validUntil := min statement.expiresAt.toInt
          (((signer.bind (·.notAfter)).map fun notAfter =>
            saturatingAdd notAfter.toInt 1).getD int64Max) }

def evaluate (signatures : Signatures) (plan : Plan) (envelopes : List ApprovalEnvelope)
    (now : Int) : HostApprovals :=
  let outcomes := envelopes.map (policy.candidate signatures plan now)
  { rules := [QuorumPurpose.executePlan, .skipGates, .rollback, .downgrade].map fun purpose =>
      (purpose, policy.rules purpose)
    candidates := outcomes.filterMap Except.toOption
    rejected := outcomes.filterMap fun
      | .error reason => some reason
      | .ok _ => none }

end HostApprovalPolicy

def planPurposes (plan : Plan) : List QuorumPurpose :=
  [.executePlan, .skipGates] ++
    (if plan.steps.any (·.action = .rollback) then [.rollback] else []) ++
    (if plan.steps.any (·.action = .downgrade) then [.downgrade] else [])

namespace HostApprovals

variable (approvals : HostApprovals)

def at_ (now : Int) : HostApprovals where
  rules := approvals.rules
  candidates := approvals.candidates.filter (now < ·.validUntil)
  rejected := approvals.rejected ++
    (approvals.candidates.filter fun candidate => ¬ now < candidate.validUntil).map
      fun candidate => candidate.approval.keyId ++
        ": stopped being valid before the step could start"

def missing (purpose : QuorumPurpose) : List String :=
  ((approvals.rules.lookup purpose).getD []).filterMap fun rule =>
    let tally := countQuorum rule (approvals.candidates.map (·.approval)) none
    if tally.missing > 0 then some (quorumRefusal rule tally) else none

def require (purpose : QuorumPurpose) : Except String Unit :=
  let refusal := "; ".intercalate (approvals.missing purpose)
  let rejected := "; ".intercalate approvals.rejected
  if approvals.missing purpose = [] then pure ()
  else if approvals.rejected = [] then throw s!"host approval policy: {refusal}"
  else throw s!"host approval policy: {refusal}; not counted: {rejected}"

def requireAll (purposes : List QuorumPurpose) : Except String Unit :=
  purposes.forM approvals.require

end HostApprovals

/-! ### What a count is worth -/

/-- A signer and the statement they signed, as an approval of the plan that counts for a rule
    at `at_`. -/
structure LiveApproval (signatures : Signatures) (signed : String → Bytes → Prop)
    (policy : HostApprovalPolicy) (plan : Plan) (at_ : Int) (rule : QuorumRule)
    (signer : TrustedSigner) (statement : ApprovalStatement) : Prop where
  trusted : signer ∈ policy.signers
  wellFormed : signatures.wellFormedKey "trusted signer public key" signer.publicKey signer.keyId =
    .ok ()
  groups : rule.groups = [] ∨ ∃ group ∈ signer.groups, group ∈ rule.groups
  approved : Approved signatures signed signer.publicKey statement
  digest : statement.planDigest = signatures.planDigest plan
  environment : statement.environment = plan.environment
  human : statement.policyProvider ≠ policyProvider
  lifetime : ∀ ttl ∈ policy.maxApprovalTtlMs, statement.lifetime ≤ ttl
  issued : statement.issuedAt.toInt ≤ at_
  unexpired : at_ < statement.expiresAt.toInt
  window : signer.ValidAt at_

/-- A rule is met: enough live approvals, no two by one identity or one key. -/
def QuorumMet (signatures : Signatures) (signed : String → Bytes → Prop)
    (policy : HostApprovalPolicy) (plan : Plan) (at_ : Int) (rule : QuorumRule) : Prop :=
  ∃ approvals : List (TrustedSigner × ApprovalStatement),
    rule.n ≤ approvals.length ∧
    (approvals.map (·.1.identity)).Nodup ∧
    (approvals.map (·.1.publicKey)).Nodup ∧
    ∀ approval ∈ approvals,
      LiveApproval signatures signed policy plan at_ rule approval.1 approval.2

section Counting

variable {signatures : Signatures} {signed : String → Bytes → Prop} {policy : HostApprovalPolicy}
  {plan : Plan} {envelopes : List ApprovalEnvelope} {now at_ : Int}

/-- The envelope and the signer behind a candidate. -/
structure Behind (signatures : Signatures) (policy : HostApprovalPolicy) (plan : Plan) (now : Int)
    (candidate : Candidate) (envelope : ApprovalEnvelope) (signer : TrustedSigner) : Prop where
  vouches : Vouches signatures plan policy.trustRoots now envelope.statement.skipGates envelope
    signer
  human : envelope.statement.policyProvider ≠ policyProvider
  lifetime : ∀ ttl ∈ policy.maxApprovalTtlMs, envelope.statement.lifetime ≤ ttl
  keyId : candidate.approval.keyId = signer.keyId
  identity : candidate.approval.identity = signer.identity
  groups : candidate.approval.groups = signer.groups
  validUntil : candidate.validUntil = min envelope.statement.expiresAt.toInt
    ((signer.notAfter.map fun notAfter => saturatingAdd notAfter.toInt 1).getD int64Max)

theorem HostApprovalPolicy.behind_of_candidate {envelope : ApprovalEnvelope} :
    Ensures (policy.candidate signatures plan now envelope) fun cand =>
      ∃ signer, Behind signatures policy plan now cand envelope signer := by
  refine Ensures.refuseIf.bind fun _ hhuman => ?_
  refine Ensures.refuseIf.bind fun _ hlifetime => ?_
  split
  · exact .throw
  next ev hvfd =>
    obtain ⟨signer, hvch, hkey, hidn, -, -⟩ := vouches_of_verifyEnvelope _ hvfd
    refine .pure ⟨signer, hvch, hhuman, ?_, hkey.trans hvch.key.symm, hidn, ?_, ?_⟩
    · intro ttl httl
      exact Int.not_lt.mp fun hlt => hlifetime ⟨ttl, httl, hlt⟩
    · simp [hvch.found, Except.toOption]
    · simp [hvch.found, Except.toOption]

theorem HostApprovalPolicy.behind_of_evaluate {cand : Candidate}
    (h : cand ∈ (policy.evaluate signatures plan envelopes now).candidates) :
    ∃ envelope ∈ envelopes, ∃ signer, Behind signatures policy plan now cand envelope signer := by
  obtain ⟨out, houtcome, hsome⟩ := List.mem_filterMap.mp h
  obtain ⟨envelope, hmem, rfl⟩ := List.mem_map.mp houtcome
  cases hcand : policy.candidate signatures plan now envelope with
  | error reason =>
    rw [hcand] at hsome
    cases hsome
  | ok found =>
    rw [hcand] at hsome
    cases hsome
    exact ⟨envelope, hmem, behind_of_candidate _ hcand⟩

/-- An instant before the saturated successor is not after the instant itself. -/
theorem le_of_lt_saturatingAdd_one {notAfter : Int64} (h : at_ < saturatingAdd notAfter.toInt 1) :
    at_ ≤ notAfter.toInt := by
  have hlow := notAfter.le_toInt
  unfold saturatingAdd at h
  omega

/-- What still counts after the wait is live then, not only when it was verified. -/
theorem Behind.live (hunf : Unforgeable signatures signed) (hclock : now ≤ at_) {cand : Candidate}
    {envelope : ApprovalEnvelope} {signer : TrustedSigner}
    (h : Behind signatures policy plan now cand envelope signer) (hvld : at_ < cand.validUntil)
    {rule : QuorumRule} (hpass : rule.passes none cand.approval) :
    LiveApproval signatures signed policy plan at_ rule signer envelope.statement := by
  rw [h.validUntil, lt_min_iff] at hvld
  obtain ⟨hunexpired, hopen⟩ := hvld
  refine ⟨h.vouches.trusted, h.vouches.wellFormed, ?_, h.vouches.approved hunf,
    h.vouches.digest, h.vouches.environment, h.human, h.lifetime, h.vouches.issued.trans hclock,
    hunexpired, ?_, ?_⟩
  · simp only [QuorumRule.passes, Bool.and_eq_true, Bool.or_eq_true, List.isEmpty_iff,
      List.any_eq_true, List.contains_iff_mem, h.groups] at hpass
    exact hpass.2
  · intro notBefore hsome
    exact (h.vouches.window.1 notBefore hsome).trans hclock
  · intro _ hsome
    rw [Option.mem_def.mp hsome] at hopen
    exact le_of_lt_saturatingAdd_one hopen

theorem HostApprovals.missing_of_require {approvals : HostApprovals} {purpose : QuorumPurpose} :
    Ensures (approvals.require purpose) fun _ => ∀ rule ∈ (approvals.rules.lookup purpose).getD [],
      (countQuorum rule (approvals.candidates.map (·.approval)) none).missing = 0 := by
  refine .ite (fun hnone => .pure ?_) (fun _ => ?_)
  · intro rule hrule
    have hmet := List.filterMap_eq_nil_iff.mp hnone rule hrule
    by_contra hmiss
    simp [Nat.pos_of_ne_zero hmiss] at hmet
  · exact .ite (fun _ => .throw) (fun _ => .throw)

theorem quorumMet_of_counted (hunf : Unforgeable signatures signed)
    (hkeys : signatures.KeyIdsDerived) (hclock : now ≤ at_) {rule : QuorumRule}
    {counted : List CountedApproval} (hcts : CountsFor rule none counted)
    (hlen : rule.n ≤ counted.length)
    (horig : ∀ approval ∈ counted, ∃ cand envelope signer,
      cand.approval = approval ∧ at_ < cand.validUntil ∧
      Behind signatures policy plan now cand envelope signer) :
    QuorumMet signatures signed policy plan at_ rule := by
  have hlive : ∀ approval ∈ counted, ∃ signer statement,
      LiveApproval signatures signed policy plan at_ rule signer statement ∧
        signer.keyId = approval.keyId ∧ signer.identity = approval.identity := by
    intro approval happr
    obtain ⟨cand, envelope, signer, rfl, hvld, hbehind⟩ := horig approval happr
    exact ⟨signer, envelope.statement,
      hbehind.live hunf hclock hvld (hcts.passes _ happr), hbehind.keyId.symm,
      hbehind.identity.symm⟩
  obtain ⟨found, hids, hidentities, hpublicKeys, hall⟩ :=
    hcts.behind hkeys (fun _ _ hlive => hlive.wellFormed) hlive
  refine ⟨found, ?_, hidentities, hpublicKeys, hall⟩
  have hsame := congrArg List.length hids
  rw [List.length_map, List.length_map] at hsame
  omega

/-- A purpose required of what was evaluated at intake and still counts at `at_`. -/
theorem quorumMet_of_require (hunf : Unforgeable signatures signed)
    (hkeys : signatures.KeyIdsDerived) (hclock : now ≤ at_) {purpose : QuorumPurpose} :
    Ensures (((policy.evaluate signatures plan envelopes now).at_ at_).require purpose) fun _ =>
      ∀ rule ∈ policy.rules purpose, QuorumMet signatures signed policy plan at_ rule := by
  refine HostApprovals.missing_of_require.mono ?_
  intro _ hmiss rule hrule
  have hlookup : rule ∈
      ((policy.evaluate signatures plan envelopes now).rules.lookup purpose).getD [] := by
    cases purpose <;> exact hrule
  obtain ⟨hcts, horig⟩ := countsFor_countQuorum rule
    (((policy.evaluate signatures plan envelopes now).at_ at_).candidates.map (·.approval)) none
  refine quorumMet_of_counted hunf hkeys hclock hcts (le_length_of_missing (hmiss rule hlookup)) ?_
  intro approval happr
  obtain ⟨cand, hcand, rfl⟩ := List.mem_map.mp (horig approval happr)
  obtain ⟨hmem, hvld⟩ := List.mem_filter.mp hcand
  obtain ⟨envelope, -, signer, hbehind⟩ := HostApprovalPolicy.behind_of_evaluate hmem
  exact ⟨cand, envelope, signer, rfl, of_decide_eq_true hvld, hbehind⟩

theorem HostApprovals.require_of_requireAll {approvals : HostApprovals}
    {purposes : List QuorumPurpose} (h : approvals.requireAll purposes = .ok ()) :
    ∀ purpose ∈ purposes, approvals.require purpose = .ok () := by
  induction purposes with
  | nil => simp
  | cons first rest ih =>
    obtain ⟨_, hfst, hrest⟩ := Returns.of_bind (Q := fun _ => True) ⟨(), h, trivial⟩
    obtain ⟨_, hrest, -⟩ := hrest
    intro purpose hpurp
    rcases List.mem_cons.mp hpurp with rfl | hlat
    · exact hfst
    · exact ih hrest purpose hlat

end Counting

end Tenkai
