import Tenkai.Fallible
import Tenkai.Framing
import Tenkai.Lease
import Tenkai.Plan
import Mathlib.Data.List.Perm.Subperm
import Mathlib.Data.Set.List

/-!
# Plan approvals

`verify_envelope` checks one approval, `count_quorum` counts how many of those that verified fulfil
a rule, distinct by key and by identity. Ed25519, SHA-256 and the revocation list are parameters.
What is signed is modelled byte by byte: it has one reading (`canonicalBytes_inj`).
-/

namespace Tenkai

open Framing (Bytes beBytes lenPrefixed utf8)

/-! ### Rules -/

inductive QuorumPurpose
  | executePlan
  | rollback
  | skipGates
  | downgrade
  deriving DecidableEq

instance : ToString QuorumPurpose where
  toString
    | .executePlan => "execute_plan"
    | .rollback => "rollback"
    | .skipGates => "skip_gates"
    | .downgrade => "downgrade"

structure QuorumRule where
  purpose : QuorumPurpose
  n : Nat
  groups : List String
  excludeRequester : Bool
  minCriticality : Option String
  deriving DecidableEq

def defaultQuorum (purpose : QuorumPurpose) : QuorumRule where
  purpose := purpose
  n := 1
  groups := []
  excludeRequester := false
  minCriticality := none

/-! ### Counting -/

/-- One verified envelope as quorum counting sees it. -/
structure CountedApproval where
  keyId : String
  identity : String
  groups : List String
  auto : Bool
  deriving DecidableEq

structure QuorumTally where
  counted : List CountedApproval
  missing : Nat

namespace QuorumRule

variable (rule : QuorumRule) (requester : Option String)

def passes (candidate : CountedApproval) : Bool :=
  !(rule.n > 1 && candidate.auto) &&
    !(rule.excludeRequester && requester == some candidate.identity) &&
    (rule.groups.isEmpty || candidate.groups.any fun group => rule.groups.contains group)

def count : List CountedApproval → List CountedApproval → List String → List String →
    List CountedApproval
  | [], counted, _, _ => counted
  | candidate :: rest, counted, seenKeys, seenIdentities =>
    if !rule.passes requester candidate || seenKeys.contains candidate.keyId ||
        seenIdentities.contains candidate.identity then
      count rest counted seenKeys seenIdentities
    else
      let counted := counted ++ [candidate]
      if counted.length ≥ rule.n then counted
      else count rest counted (candidate.keyId :: seenKeys)
        (candidate.identity :: seenIdentities)

end QuorumRule

def countQuorum (rule : QuorumRule) (candidates : List CountedApproval)
    (requester : Option String) : QuorumTally :=
  let counted := rule.count requester candidates [] [] []
  ⟨counted, rule.n - counted.length⟩

def quorumRefusal (rule : QuorumRule) (tally : QuorumTally) : String :=
  let named := ", ".intercalate rule.groups
  let groups := if rule.groups.isEmpty then "" else s!" from groups [{named}]"
  let identities := ", ".intercalate (tally.counted.map (·.identity))
  let have_ := if tally.counted.isEmpty then "none" else identities
  s!"need {rule.n} {rule.purpose} approvals{groups}; have {tally.counted.length} ({have_}); " ++
    s!"missing {tally.missing}"

/-- Approvals that count together: each passes the rule, no two by one key or one identity. -/
structure CountsFor (rule : QuorumRule) (requester : Option String)
    (counted : List CountedApproval) : Prop where
  passes : ∀ approval ∈ counted, rule.passes requester approval
  keys : (counted.map (·.keyId)).Nodup
  identities : (counted.map (·.identity)).Nodup

variable {counted candidates : List CountedApproval} {requester : Option String} {rule : QuorumRule}
  {seenIdentities seenKeys : List String}

theorem CountsFor.append (h : CountsFor rule requester counted) {cand : CountedApproval}
    (hpass : rule.passes requester cand) (hkey : cand.keyId ∉ counted.map (·.keyId))
    (hidn : cand.identity ∉ counted.map (·.identity)) :
    CountsFor rule requester (counted ++ [cand]) := by
  refine ⟨?_, ?_, ?_⟩
  · intro approval happr
    rcases List.mem_append.mp happr with hold | hnew
    · exact h.passes approval hold
    · rwa [List.mem_singleton.mp hnew]
  · rw [List.map_append, List.nodup_append]
    refine ⟨h.keys, by simp, ?_⟩
    rintro _ hkey' _ hnew rfl
    rw [List.map_singleton, List.mem_singleton] at hnew
    exact hkey (hnew ▸ hkey')
  · rw [List.map_append, List.nodup_append]
    refine ⟨h.identities, by simp, ?_⟩
    rintro identity hidn' _ hnew rfl
    rw [List.map_singleton, List.mem_singleton] at hnew
    exact hidn (hnew ▸ hidn')

/-- The loop adds to what counts already, from what is left, and keeps the sets of what it saw. -/
theorem QuorumRule.count_spec (h : CountsFor rule requester counted)
    (hkeys : ∀ approval ∈ counted, approval.keyId ∈ seenKeys)
    (hids : ∀ approval ∈ counted, approval.identity ∈ seenIdentities) :
    CountsFor rule requester (rule.count requester candidates counted seenKeys seenIdentities) ∧
      ∀ approval ∈ rule.count requester candidates counted seenKeys seenIdentities,
        approval ∈ counted ∨ approval ∈ candidates := by
  induction candidates generalizing counted seenKeys seenIdentities with
  | nil => exact ⟨h, fun _ => .inl⟩
  | cons cand rest ih =>
    unfold QuorumRule.count
    split
    · obtain ⟨hcts, horig⟩ := ih h hkeys hids
      exact ⟨hcts, fun approval happr => (horig approval happr).imp_right (List.mem_cons_of_mem _)⟩
    next hnew =>
      simp only [Bool.or_eq_true, Bool.not_eq_true', List.contains_iff_mem, not_or,
        Bool.not_eq_false] at hnew
      obtain ⟨⟨hpass, hkey⟩, hidn⟩ := hnew
      have hcts : CountsFor rule requester (counted ++ [cand]) := by
        refine h.append hpass ?_ ?_
        · rintro hseen
          obtain ⟨approval, happr, hsame⟩ := List.mem_map.mp hseen
          exact hkey (hsame ▸ hkeys approval happr)
        · rintro hseen
          obtain ⟨approval, happr, hsame⟩ := List.mem_map.mp hseen
          exact hidn (hsame ▸ hids approval happr)
      have horig : ∀ approval ∈ counted ++ [cand],
          approval ∈ counted ∨ approval ∈ cand :: rest := by
        intro approval happr
        rcases List.mem_append.mp happr with hold | hadded
        · exact .inl hold
        · rw [List.mem_singleton.mp hadded]
          exact .inr List.mem_cons_self
      dsimp only
      split
      · exact ⟨hcts, horig⟩
      · have hkeys' : ∀ approval ∈ counted ++ [cand], approval.keyId ∈ cand.keyId :: seenKeys := by
          intro approval happr
          rcases List.mem_append.mp happr with hold | hadded
          · exact List.mem_cons_of_mem _ (hkeys approval hold)
          · rw [List.mem_singleton.mp hadded]
            exact List.mem_cons_self
        have hids' : ∀ approval ∈ counted ++ [cand],
            approval.identity ∈ cand.identity :: seenIdentities := by
          intro approval happr
          rcases List.mem_append.mp happr with hold | hadded
          · exact List.mem_cons_of_mem _ (hids approval hold)
          · rw [List.mem_singleton.mp hadded]
            exact List.mem_cons_self
        obtain ⟨hcts', horig'⟩ := ih hcts hkeys' hids'
        refine ⟨hcts', fun approval happr => ?_⟩
        rcases horig' approval happr with hcnt | hrest
        · exact horig approval hcnt
        · exact .inr (List.mem_cons_of_mem _ hrest)

theorem countsFor_countQuorum (rule : QuorumRule) (candidates : List CountedApproval)
    (requester : Option String) :
    CountsFor rule requester (countQuorum rule candidates requester).counted ∧
      ∀ approval ∈ (countQuorum rule candidates requester).counted, approval ∈ candidates := by
  have hnone : CountsFor rule requester [] := ⟨by simp, by simp, by simp⟩
  have hspec : CountsFor rule requester (rule.count requester candidates [] [] []) ∧
      ∀ approval ∈ rule.count requester candidates [] [] [],
        approval ∈ ([] : List CountedApproval) ∨ approval ∈ candidates :=
    QuorumRule.count_spec hnone (by simp) (by simp)
  refine ⟨hspec.1, fun approval happr => ?_⟩
  exact (hspec.2 approval happr).resolve_left (by simp)

theorem le_length_of_missing (h : (countQuorum rule candidates requester).missing = 0) :
    rule.n ≤ (countQuorum rule candidates requester).counted.length :=
  Nat.sub_eq_zero_iff_le.mp h

theorem QuorumRule.subset_count :
    counted ⊆ rule.count requester candidates counted seenKeys seenIdentities := by
  induction candidates generalizing counted seenKeys seenIdentities with
  | nil => exact .refl _
  | cons cand rest ih =>
    unfold QuorumRule.count
    split
    · exact ih
    · dsimp only
      split
      · exact List.subset_append_left _ _
      · exact List.Subset.trans (List.subset_append_left _ _) ih

theorem mem_counted_of_passes {cand : CountedApproval} (h : rule.passes requester cand)
    (rest : List CountedApproval) : cand ∈ (countQuorum rule (cand :: rest) requester).counted := by
  simp only [countQuorum, QuorumRule.count, h]
  simp only [Bool.not_true, List.contains_nil, Bool.or_false, Bool.false_eq_true, if_false,
    List.nil_append]
  split
  · exact List.mem_cons_self
  · exact QuorumRule.subset_count List.mem_cons_self

/-- A loop that does not make the quorum has counted every identity it may count. -/
theorem QuorumRule.count_exhausts (hkeys : ∀ cand ∈ candidates, cand.keyId ∉ seenKeys)
    (hdist : (candidates.map (·.keyId)).Nodup)
    (hseen : ∀ identity ∈ seenIdentities, identity ∈ counted.map (·.identity)) :
    rule.n ≤ (rule.count requester candidates counted seenKeys seenIdentities).length ∨
      ∀ cand ∈ candidates, rule.passes requester cand → cand.identity ∈
        (rule.count requester candidates counted seenKeys seenIdentities).map (·.identity) := by
  induction candidates generalizing counted seenKeys seenIdentities with
  | nil => exact .inr nofun
  | cons cand rest ih =>
    have hfrs := hkeys cand List.mem_cons_self
    have hrest : ∀ other ∈ rest, other.keyId ∉ seenKeys := fun other hoth =>
      hkeys other (List.mem_cons_of_mem _ hoth)
    rw [List.map_cons, List.nodup_cons] at hdist
    unfold QuorumRule.count
    split
    next hskip =>
      refine (ih hrest hdist.2 hseen).imp_right ?_
      intro hcnt other hoth hpass
      rcases List.mem_cons.mp hoth with rfl | hoth
      · -- it passes and its key is new, so its identity is counted already
        simp only [hpass, hfrs, Bool.not_true, Bool.false_or, List.contains_iff_mem,
          Bool.or_eq_true, false_or] at hskip
        exact List.map_subset _ subset_count (hseen _ hskip)
      · exact hcnt other hoth hpass
    · dsimp only
      split
      next hfull => exact .inl hfull
      · have hkeys' : ∀ other ∈ rest, other.keyId ∉ cand.keyId :: seenKeys := by
          intro other hoth hmem
          rcases List.mem_cons.mp hmem with hsame | hmem
          · exact hdist.1 (hsame ▸ List.mem_map_of_mem hoth)
          · exact hrest other hoth hmem
        have hseen' : ∀ identity ∈ cand.identity :: seenIdentities,
            identity ∈ (counted ++ [cand]).map (·.identity) := by
          intro identity hmem
          rw [List.map_append, List.mem_append]
          rcases List.mem_cons.mp hmem with rfl | hmem
          · exact .inr (by simp)
          · exact .inl (hseen identity hmem)
        refine (ih hkeys' hdist.2 hseen').imp_right ?_
        intro hcnt other hoth hpass
        rcases List.mem_cons.mp hoth with rfl | hoth
        · refine List.map_subset _ subset_count ?_
          simp
        · exact hcnt other hoth hpass

/-- Of candidates with keys of their own, the count misses none exactly if enough of them pass,
    by identities of their own. -/
theorem missing_countQuorum_eq_zero_iff (hdist : (candidates.map (·.keyId)).Nodup) :
    (countQuorum rule candidates requester).missing = 0 ↔ ∃ approvals : List CountedApproval,
      rule.n ≤ approvals.length ∧ (approvals.map (·.identity)).Nodup ∧ ∀ approval ∈ approvals,
      approval ∈ candidates ∧ rule.passes requester approval := by
  constructor
  · intro hmiss
    obtain ⟨hcts, horig⟩ := countsFor_countQuorum rule candidates requester
    exact ⟨_, le_length_of_missing hmiss, hcts.identities, fun approval happr =>
      ⟨horig approval happr, hcts.passes approval happr⟩⟩
  · rintro ⟨approvals, henough, hids, hall⟩
    have hexhausts : rule.n ≤ (rule.count requester candidates [] [] []).length ∨ _ :=
      QuorumRule.count_exhausts (by simp) hdist (by simp)
    refine Nat.sub_eq_zero_iff_le.mpr ?_
    rcases hexhausts with hfull | hcnt
    · exact hfull
    · have hsub : approvals.map (·.identity) ⊆
          (rule.count requester candidates [] [] []).map (·.identity) := by
        intro identity hidn
        obtain ⟨approval, happr, rfl⟩ := List.mem_map.mp hidn
        exact hcnt approval (hall approval happr).1 (hall approval happr).2
      have hlen := (hids.subperm hsub).length_le
      rw [List.length_map, List.length_map] at hlen
      exact henough.trans hlen

/-! ### Envelopes -/

structure ApprovalStatement where
  planDigest : String
  environment : String
  purpose : String
  skipGates : Bool
  issuedAt : Int64
  expiresAt : Int64
  policyProvider : String
  policyEvidenceId : String
  policyDigest : String

structure ApprovalEnvelope where
  schema : String
  keyId : String
  statement : ApprovalStatement
  signature : String

structure TrustedSigner where
  keyId : String
  identity : String
  publicKey : String
  environments : List String
  providers : List String
  groups : List String
  notBefore : Option Int64
  notAfter : Option Int64

structure TrustRoots where
  version : Nat
  signers : List TrustedSigner

structure VerificationEvidence where
  planId : String
  planDigest : String
  environment : String
  signerIdentity : String
  keyId : String
  policyProvider : String
  policyEvidenceId : String
  policyDigest : String
  issuedAt : Int
  expiresAt : Int
  verifiedAt : Int
  skipGates : Bool
  bypassReason : Option String

/-- Ed25519, SHA-256 and the revocation list; the checks return their own errors. -/
structure Signatures where
  trim : String → String
  revoked : String → Bool
  /-- The key id is derived from the key, and the key is not weak. -/
  wellFormedKey : (label publicKey keyId : String) → Except String Unit
  verifyStrict : (publicKey label signature : String) → Bytes → Except String Unit
  executableDigest : ExecutableContent → String

def approvalSchema : String := "tenkai.plan-approval.v1"

def policyProvider : String := "builtin-auto"

def preflightProvider : String := "preflight"

/-- `sha256:<hex>` of the plan's executable content. -/
def Signatures.planDigest (signatures : Signatures) (plan : Plan) : String :=
  "sha256:" ++ signatures.executableDigest plan.executableContent

variable {statement : ApprovalStatement} {roots : TrustRoots}

section Statements

variable (signatures : Signatures)

def validateText (name value : String) : Except String Unit :=
  refuseIf ((signatures.trim value).isEmpty ∨ value ≠ signatures.trim value ∨
      (utf8 value).length > 512 ∨ Char.ofNat 0 ∈ value.toList)
    s!"{name} is empty, non-canonical, or too long"

def isHexDigit (c : Char) : Bool := c.isDigit || ('a' ≤ c && c ≤ 'f')

def stripSha256 (value : String) : Option (List Char) :=
  value.toList.dropPrefix? "sha256:".toList

def validatePrefixedDigest (label value : String) : Except String Unit :=
  match stripSha256 value with
  | none => throw s!"{label} must use sha256:<hex>"
  | some hex => refuseIf (hex.length ≠ 64 ∨ ¬ hex.all isHexDigit)
      s!"{label} must contain 64 lowercase hexadecimal characters"

def validateStatement (statement : ApprovalStatement) : Except String Unit := do
  validatePrefixedDigest "plan digest" statement.planDigest
  validateText signatures "environment" statement.environment
  refuseIf (statement.purpose ≠ "execute_plan") "approval purpose must be execute_plan"
  refuseIf (statement.expiresAt ≤ statement.issuedAt)
    "approval expiry must be after its issue time"
  validateText signatures "policy provider" statement.policyProvider
  validateText signatures "policy evidence id" statement.policyEvidenceId
  validatePrefixedDigest "policy digest" statement.policyDigest

def int64Bytes (value : Int64) : Bytes := beBytes 8 value.toBitVec.toNat

def statementBytes (statement : ApprovalStatement) : Bytes :=
  utf8 "TENKAI-PLAN-APPROVAL-V1" ++ 0 :: (lenPrefixed (utf8 statement.planDigest) ++
    (lenPrefixed (utf8 statement.environment) ++ (lenPrefixed (utf8 statement.purpose) ++
    (int64Bytes statement.issuedAt ++ (int64Bytes statement.expiresAt ++
    ((if statement.skipGates then 1 else 0) :: (lenPrefixed (utf8 statement.policyProvider) ++
    (lenPrefixed (utf8 statement.policyEvidenceId) ++
    lenPrefixed (utf8 statement.policyDigest)))))))))

def canonicalBytes (statement : ApprovalStatement) : Except String Bytes := do
  validateStatement signatures statement
  pure (statementBytes statement)

variable {signatures : Signatures}

theorem length_utf8_of_validateText {name value : String} :
    Ensures (validateText signatures name value) fun _ => (utf8 value).length < 2 ^ 64 := by
  refine Ensures.refuseIf.mono ?_
  intro _ h
  omega

theorem length_utf8_of_validatePrefixedDigest {label value : String} :
    Ensures (validatePrefixedDigest label value) fun _ => (utf8 value).length < 2 ^ 64 := by
  unfold validatePrefixedDigest
  split
  · exact .throw
  next hex hhex =>
    refine Ensures.refuseIf.mono ?_
    intro _ h
    obtain ⟨start, hsplit, hsta⟩ := List.dropPrefix?_eq_some_iff.mp hhex
    have hlen : value.toList.length = 7 + hex.length := by
      rw [hsplit, List.length_append, eq_of_beq hsta]
      rfl
    have hbytes := Framing.length_utf8_le value
    omega

/-- What a statement that can be signed is sure to have. -/
structure Signable (statement : ApprovalStatement) : Prop where
  planDigest : (utf8 statement.planDigest).length < 2 ^ 64
  environment : (utf8 statement.environment).length < 2 ^ 64
  purpose : statement.purpose = "execute_plan"
  policyProvider : (utf8 statement.policyProvider).length < 2 ^ 64
  policyEvidenceId : (utf8 statement.policyEvidenceId).length < 2 ^ 64
  policyDigest : (utf8 statement.policyDigest).length < 2 ^ 64

theorem signable_of_validateStatement :
    Ensures (validateStatement signatures statement) fun _ => Signable statement := by
  refine length_utf8_of_validatePrefixedDigest.bind fun _ hplan => ?_
  refine length_utf8_of_validateText.bind fun _ henv => ?_
  refine Ensures.refuseIf.bind fun _ hpurp => ?_
  refine .after fun _ => ?_
  refine length_utf8_of_validateText.bind fun _ hprov => ?_
  refine length_utf8_of_validateText.bind fun _ hevid => ?_
  refine length_utf8_of_validatePrefixedDigest.mono fun _ hpol => ?_
  exact ⟨hplan, henv, not_not.mp hpurp, hprov, hevid, hpol⟩

theorem int64Bytes_inj {value value' : Int64} (h : int64Bytes value = int64Bytes value') :
    value = value' := by
  have hnat := Framing.beBytes_inj (by exact value.toBitVec.isLt) (by exact value'.toBitVec.isLt) h
  exact Int64.toBitVec_inj.mp (BitVec.eq_of_toNat_eq hnat)

theorem statementBytes_inj {statement' : ApprovalStatement} (hs : Signable statement)
    (hs' : Signable statement') (h : statementBytes statement = statementBytes statement') :
    statement = statement' := by
  have h := List.tail_eq_of_cons_eq (List.append_cancel_left h)
  obtain ⟨hplan, h⟩ := Framing.lenPrefixed_append_inj hs.planDigest hs'.planDigest h
  obtain ⟨henv, h⟩ := Framing.lenPrefixed_append_inj hs.environment hs'.environment h
  rw [hs.purpose, hs'.purpose] at h
  have h := List.append_cancel_left h
  obtain ⟨hiss, h⟩ := List.append_inj h (by simp [int64Bytes])
  obtain ⟨hexpires, h⟩ := List.append_inj h (by simp [int64Bytes])
  obtain ⟨hgates, h⟩ := List.cons_eq_cons.mp h
  obtain ⟨hprov, h⟩ := Framing.lenPrefixed_append_inj hs.policyProvider hs'.policyProvider h
  obtain ⟨hevid, h⟩ := Framing.lenPrefixed_append_inj hs.policyEvidenceId hs'.policyEvidenceId h
  rw [← List.append_nil (lenPrefixed (utf8 statement.policyDigest)),
    ← List.append_nil (lenPrefixed (utf8 statement'.policyDigest))] at h
  obtain ⟨hdig, -⟩ := Framing.lenPrefixed_append_inj hs.policyDigest hs'.policyDigest h
  have hskip : statement.skipGates = statement'.skipGates := by
    cases hgate : statement.skipGates <;> cases hgate' : statement'.skipGates <;>
      simp [hgate, hgate'] at hgates ⊢
  obtain ⟨planDigest, env, purpose, skip, issuedAt, expiresAt, provider, ev,
    policyDigest⟩ := statement
  obtain ⟨planDigest', environment', purpose', skipGates', issuedAt', expiresAt', provider',
    evidence', policyDigest'⟩ := statement'
  obtain rfl := Framing.utf8_inj.mp hplan
  obtain rfl := Framing.utf8_inj.mp henv
  obtain rfl : purpose = purpose' := hs.purpose.trans hs'.purpose.symm
  obtain rfl := int64Bytes_inj hiss
  obtain rfl := int64Bytes_inj hexpires
  obtain rfl := Framing.utf8_inj.mp hprov
  obtain rfl := Framing.utf8_inj.mp hevid
  obtain rfl := Framing.utf8_inj.mp hdig
  obtain rfl := hskip
  rfl

/-- Signed bytes have one reading. -/
theorem canonicalBytes_inj {statement' : ApprovalStatement} {bytes : Bytes}
    (h : canonicalBytes signatures statement = .ok bytes)
    (h' : canonicalBytes signatures statement' = .ok bytes) : statement = statement' := by
  have hread : ∀ statement, Ensures (canonicalBytes signatures statement) fun bytes =>
      Signable statement ∧ bytes = statementBytes statement := by
    intro statement
    exact signable_of_validateStatement.bind fun _ hs => .pure ⟨hs, rfl⟩
  obtain ⟨hs, hbytes⟩ := hread statement bytes h
  obtain ⟨hs', hbytes'⟩ := hread statement' bytes h'
  exact statementBytes_inj hs hs' (hbytes.symm.trans hbytes')

end Statements

/-! ### Verification -/

section Verification

variable (signatures : Signatures)

def checkWindow (identity : String) (notBefore notAfter : Option Int64) (at_ : Int) :
    Except String Unit := do
  refuseIf (∃ bound ∈ notBefore, at_ < bound.toInt)
    s!"trusted signer {identity} is not yet valid (not_before)"
  refuseIf (∃ bound ∈ notAfter, bound.toInt < at_)
    s!"trusted signer {identity} is no longer valid (not_after)"

def TrustedSigner.checkValidity (signer : TrustedSigner) (at_ : Int) : Except String Unit :=
  checkWindow signer.identity signer.notBefore signer.notAfter at_

def TrustRoots.signer (roots : TrustRoots) (keyId : String) : Except String TrustedSigner :=
  match roots.signers.find? (·.keyId = keyId) with
  | some signer => pure signer
  | none => throw s!"plan approval signer {keyId} is not currently trusted"

def Signatures.trustedKey (label publicKey keyId : String) : Except String Unit := do
  refuseIf (signatures.revoked keyId) s!"{label} {keyId} is revoked"
  signatures.wellFormedKey label publicKey keyId

def verifyEnvelope (plan : Plan) (envelope : ApprovalEnvelope) (roots : TrustRoots) (now : Int)
    (skipGates : Bool) : Except String VerificationEvidence := do
  refuseIf (envelope.schema ≠ approvalSchema)
    s!"unsupported plan approval schema {envelope.schema}"
  let expectedDigest := signatures.planDigest plan
  let statement := envelope.statement
  refuseIf (statement.planDigest ≠ expectedDigest ∨ statement.environment ≠ plan.environment ∨
      statement.skipGates ≠ skipGates)
    "plan approval is bound to different executable content, environment, or gate policy"
  refuseIf (now < statement.issuedAt.toInt) "plan approval is not valid yet"
  refuseIf (statement.expiresAt.toInt ≤ now)
    s!"plan approval expired at {statement.expiresAt.toInt}"
  let signer ← roots.signer envelope.keyId
  signer.checkValidity now
  refuseIf (signer.environments ≠ [] ∧ plan.environment ∉ signer.environments)
    "plan approval signer is outside its environment scope"
  refuseIf (signer.providers ≠ [] ∧ statement.policyProvider ∉ signer.providers)
    "plan approval signer is outside its provider scope"
  refuseIf (statement.policyProvider = preflightProvider)
    "a preflight signer cannot approve plans"
  refuseIf (statement.policyProvider = policyProvider ∧
      (signer.environments = [] ∨ signer.providers ≠ [policyProvider]))
    "automatic approval requires an environment-scoped builtin-auto signer"
  signatures.trustedKey "trusted signer public key" signer.publicKey signer.keyId
  let bytes ← canonicalBytes signatures statement
  signatures.verifyStrict signer.publicKey "plan approval signature" envelope.signature bytes
  pure
    { planId := plan.id
      planDigest := expectedDigest
      environment := plan.environment
      signerIdentity := signer.identity
      keyId := envelope.keyId
      policyProvider := statement.policyProvider
      policyEvidenceId := statement.policyEvidenceId
      policyDigest := statement.policyDigest
      issuedAt := statement.issuedAt.toInt
      expiresAt := statement.expiresAt.toInt
      verifiedAt := now
      skipGates := statement.skipGates
      bypassReason := none }

def TrustedSigner.ValidAt (signer : TrustedSigner) (at_ : Int) : Prop :=
  (∀ notBefore ∈ signer.notBefore, notBefore.toInt ≤ at_) ∧
    ∀ notAfter ∈ signer.notAfter, at_ ≤ notAfter.toInt

variable {signatures}

theorem TrustedSigner.validAt_of_checkValidity {signer : TrustedSigner} {at_ : Int} :
    Ensures (signer.checkValidity at_) fun _ => signer.ValidAt at_ := by
  refine Ensures.refuseIf.bind fun _ hbef => Ensures.refuseIf.mono fun _ haft => ⟨?_, ?_⟩
  · intro notBefore hsome
    exact Int.not_lt.mp fun hlt => hbef ⟨notBefore, hsome, hlt⟩
  · intro notAfter hsome
    exact Int.not_lt.mp fun hlt => haft ⟨notAfter, hsome, hlt⟩

theorem TrustRoots.signer_spec {keyId : String} :
    Ensures (roots.signer keyId) fun signer => roots.signer keyId = .ok signer ∧
      signer ∈ roots.signers ∧ signer.keyId = keyId := by
  intro signer hsgn
  refine ⟨hsgn, ?_⟩
  unfold TrustRoots.signer at hsgn
  split at hsgn
  next found hfd =>
    cases hsgn
    exact ⟨List.mem_of_find?_eq_some hfd, by simpa using List.find?_some hfd⟩
  · cases hsgn

/-- What is known of an envelope that verified for a plan, and of its signer. -/
structure Vouches (signatures : Signatures) (plan : Plan) (roots : TrustRoots) (now : Int)
    (skipGates : Bool) (envelope : ApprovalEnvelope) (signer : TrustedSigner) : Prop where
  found : roots.signer envelope.keyId = .ok signer
  trusted : signer ∈ roots.signers
  key : signer.keyId = envelope.keyId
  digest : envelope.statement.planDigest = signatures.planDigest plan
  environment : envelope.statement.environment = plan.environment
  gates : envelope.statement.skipGates = skipGates
  issued : envelope.statement.issuedAt.toInt ≤ now
  unexpired : now < envelope.statement.expiresAt.toInt
  window : signer.ValidAt now
  wellFormed : signatures.wellFormedKey "trusted signer public key" signer.publicKey signer.keyId =
    .ok ()
  scope : envelope.statement.policyProvider = policyProvider →
    signer.environments ≠ [] ∧ signer.providers = [policyProvider]
  signed : ∃ bytes, canonicalBytes signatures envelope.statement = .ok bytes ∧
    signatures.verifyStrict signer.publicKey "plan approval signature" envelope.signature bytes =
      .ok ()

theorem vouches_of_verifyEnvelope {plan : Plan} {envelope : ApprovalEnvelope} {now : Int}
    {skip : Bool} :
    Ensures (verifyEnvelope signatures plan envelope roots now skip) fun ev => ∃ signer,
      Vouches signatures plan roots now skip envelope signer ∧ ev.keyId = envelope.keyId ∧
      ev.signerIdentity = signer.identity ∧ ev.policyProvider = envelope.statement.policyProvider ∧
      ev.policyDigest = envelope.statement.policyDigest := by
  refine .after fun _ => ?_
  refine Ensures.refuseIf.bind fun _ hbnd => ?_
  simp only [not_or, not_not] at hbnd
  obtain ⟨hdig, henv, hgates⟩ := hbnd
  refine Ensures.refuseIf.bind fun _ hiss => ?_
  refine Ensures.refuseIf.bind fun _ hexpires => ?_
  refine TrustRoots.signer_spec.bind fun signer hsgn => ?_
  obtain ⟨hfd, htrusted, hkey⟩ := hsgn
  refine TrustedSigner.validAt_of_checkValidity.bind fun _ hwindow => ?_
  refine .after fun _ => .after fun _ => .after fun _ => ?_
  refine Ensures.refuseIf.bind fun _ hscope => ?_
  refine (Ensures.after fun _ => .returned _).bind fun _ hkeyed => ?_
  refine (Ensures.returned _).bind fun bytes hbytes => ?_
  refine (Ensures.returned _).bind fun _ hvfd => ?_
  refine .pure ⟨signer, ?_, rfl, rfl, rfl, rfl⟩
  refine ⟨hfd, htrusted, hkey, hdig, henv, hgates, Int.not_lt.mp hiss,
    Int.not_le.mp hexpires, hwindow, hkeyed, ?_, bytes, hbytes, hvfd⟩
  intro hauto
  simp only [not_and, not_or, not_not] at hscope
  exact hscope hauto

/-- Only what the holder of a key signed verifies under it. -/
def Unforgeable (signatures : Signatures) (signed : String → Bytes → Prop) : Prop :=
  ∀ publicKey label signature bytes,
    signatures.verifyStrict publicKey label signature bytes = .ok () → signed publicKey bytes

/-- The holder of a key signed bytes that read as this statement and as no other. -/
def Approved (signatures : Signatures) (signed : String → Bytes → Prop) (publicKey : String)
    (statement : ApprovalStatement) : Prop :=
  ∃ bytes, signed publicKey bytes ∧
    ∀ statement', canonicalBytes signatures statement' = .ok bytes ↔ statement' = statement

theorem Vouches.approved {signed : String → Bytes → Prop} (hunf : Unforgeable signatures signed)
    {plan : Plan} {now : Int} {skip : Bool} {envelope : ApprovalEnvelope} {signer : TrustedSigner}
    (h : Vouches signatures plan roots now skip envelope signer) :
    Approved signatures signed signer.publicKey envelope.statement := by
  obtain ⟨bytes, hbytes, hvfd⟩ := h.signed
  refine ⟨bytes, hunf _ _ _ _ hvfd, fun _' => ⟨?_, ?_⟩⟩
  · exact fun hbytes' => canonicalBytes_inj hbytes' hbytes
  · rintro rfl
    exact hbytes

/-- A key has one id: it is the digest of the key. -/
def Signatures.KeyIdsDerived (signatures : Signatures) : Prop :=
  ∀ label publicKey keyId keyId', signatures.wellFormedKey label publicKey keyId = .ok () →
    signatures.wellFormedKey label publicKey keyId' = .ok () → keyId = keyId'

/-- What stands behind counted approvals, one for one: signers who differ in identity and key. -/
theorem CountsFor.behind {β : Type} (hcts : CountsFor rule requester counted)
    (hkeys : signatures.KeyIdsDerived) {P : TrustedSigner → β → Prop}
    (hformed : ∀ signer b, P signer b →
      signatures.wellFormedKey "trusted signer public key" signer.publicKey signer.keyId = .ok ())
    (horig : ∀ approval ∈ counted, ∃ signer b,
      P signer b ∧ signer.keyId = approval.keyId ∧ signer.identity = approval.identity) :
    ∃ found : List (TrustedSigner × β),
      found.map (·.1.keyId) = counted.map (·.keyId) ∧ (found.map (·.1.identity)).Nodup ∧
      (found.map (·.1.publicKey)).Nodup ∧ ∀ one ∈ found, P one.1 one.2 := by
  -- each counted approval, by its key and identity, is one of the signers'
  have hrange : counted.map (fun approval => (approval.keyId, approval.identity)) ∈
      Set.range (.map fun one : {one : TrustedSigner × β // P one.1 one.2} =>
        (one.1.1.keyId, one.1.1.identity)) := by
    rw [Set.range_list_map]
    intro _ hnam
    obtain ⟨approval, happr, rfl⟩ := List.mem_map.mp hnam
    obtain ⟨signer, b, hP, hkey, hidn⟩ := horig approval happr
    exact ⟨⟨(signer, b), hP⟩, Prod.ext hkey hidn⟩
  obtain ⟨found, hfd⟩ := hrange
  have hids : (found.map (·.1)).map (·.1.keyId) = counted.map (·.keyId) := by
    simpa [Function.comp_def] using congrArg (List.map Prod.fst) hfd
  have hidentities : (found.map (·.1)).map (·.1.identity) = counted.map (·.identity) := by
    simpa [Function.comp_def] using congrArg (List.map Prod.snd) hfd
  have hall : ∀ one ∈ found.map (·.1), P one.1 one.2 := by
    intro one hone
    obtain ⟨⟨_, hP⟩, -, rfl⟩ := List.mem_map.mp hone
    exact hP
  refine ⟨found.map (·.1), hids, ?_, ?_, hall⟩
  · rw [hidentities]
    exact hcts.identities
  · have hdist : ((found.map (·.1)).map (·.1.keyId)).Nodup := hids ▸ hcts.keys
    rw [List.Nodup, List.pairwise_map] at hdist ⊢
    refine hdist.imp_of_mem ?_
    intro a b ha hb hne hsame
    refine hne (hkeys _ _ _ _ (hformed _ _ (hall a ha)) ?_)
    rw [hsame]
    exact hformed _ _ (hall b hb)

end Verification

end Tenkai
