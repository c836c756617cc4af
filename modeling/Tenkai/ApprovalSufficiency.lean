import Tenkai.ExecutionApproval

/-!
# Which approvals suffice

What counts is a matter of the signers whose envelopes verify (`mem_candidates_iff`), not of the
order of the envelopes. The checks after the count are made of what was counted only: an envelope
that counts but does not stand up to them takes the place of one that would
(`insertions_harmless_iff`). Each purpose has its own rules, so skipping the gates may need fewer
approvals than running them (`skipping_gates_needs_as_much`).
-/

namespace Tenkai

/-! ### Signers -/

/-- A verified approval by the signer as quorum counting sees it. -/
def TrustedSigner.approval (signer : TrustedSigner) : CountedApproval where
  keyId := signer.keyId
  identity := signer.identity
  groups := signer.groups
  auto := signer.providers = [policyProvider]

variable {envelope : ApprovalEnvelope} {envelopes : List ApprovalEnvelope}

section Candidates

variable {signatures : Signatures} {plan : Plan} {roots : TrustRoots} {now : Int}
  {skip : Bool}

/-- A signer whose approval of the plan, with or without its gates, is among the envelopes. -/
def Signs (signatures : Signatures) (plan : Plan) (roots : TrustRoots) (now : Int)
    (skipGates : Bool) (envelopes : List ApprovalEnvelope) (signer : TrustedSigner) : Prop :=
  ∃ envelope ∈ envelopes, roots.signer envelope.keyId = .ok signer ∧
    ∃ evidence, verifyEnvelope signatures plan envelope roots now skipGates = .ok evidence

/-- A key that signs automatic approvals signs no others. -/
theorem automatic_iff_of_verifyEnvelope :
    Ensures (verifyEnvelope signatures plan envelope roots now skip) fun _ =>
      ∃ signer, roots.signer envelope.keyId = .ok signer ∧ signer.keyId = envelope.keyId ∧
        (envelope.statement.policyProvider = policyProvider ↔
          signer.providers = [policyProvider]) := by
  refine .after fun _ => .after fun _ => .after fun _ => .after fun _ => ?_
  refine TrustRoots.signer_spec.bind fun signer hsgn => ?_
  refine .after fun _ => .after fun _ => ?_
  refine Ensures.refuseIf.bind fun _ hprov => .after fun _ => ?_
  refine Ensures.refuseIf.bind fun _ hscope => ?_
  refine .after fun _ => .after fun _ => .after fun _ => .pure ?_
  refine ⟨signer, hsgn.1, hsgn.2.2, ?_, ?_⟩
  · intro hauto
    simp only [not_and, not_or, not_not] at hscope
    exact (hscope hauto).2
  · intro hprovs
    rw [hprovs] at hprov
    simpa using hprov

theorem exists_mem_uniqueByKey {seen : List String}
    {items : List (ApprovalEnvelope × VerificationEvidence)}
    {item : ApprovalEnvelope × VerificationEvidence} (hitem : item ∈ items)
    (hnew : item.1.keyId ∉ seen) :
    ∃ first ∈ uniqueByKey seen items, first.1.keyId = item.1.keyId := by
  induction items generalizing seen with
  | nil => cases hitem
  | cons head rest ih =>
    unfold uniqueByKey
    split
    next hseen =>
      rcases List.mem_cons.mp hitem with rfl | hitem
      · exact absurd hseen hnew
      · exact ih hitem hnew
    · by_cases hsame : item.1.keyId = head.1.keyId
      · exact ⟨head, List.mem_cons_self, hsame.symm⟩
      · have hlat : item ∈ rest := by
          rcases List.mem_cons.mp hitem with rfl | hlat
          · exact absurd rfl hsame
          · exact hlat
        have hunseen : item.1.keyId ∉ head.1.keyId :: seen := by simp [hsame, hnew]
        obtain ⟨first, hfst, hkey⟩ := ih hlat hunseen
        exact ⟨first, List.mem_cons_of_mem _ hfst, hkey⟩

def candidates (signatures : Signatures) (plan : Plan) (roots : TrustRoots) (now : Int)
    (skipGates : Bool) (envelopes : List ApprovalEnvelope) : List CountedApproval :=
  countedApprovals roots (uniqueByKey [] (verifiedEnvelopes signatures plan roots now skipGates
    envelopes))

theorem approval_of_verified (item : ApprovalEnvelope × VerificationEvidence)
    (h : verifyEnvelope signatures plan item.1 roots now skip = .ok item.2) :
    ∃ signer, roots.signer item.1.keyId = .ok signer ∧
      (CountedApproval.mk item.1.keyId signer.identity signer.groups
        (item.1.statement.policyProvider = policyProvider)) = signer.approval := by
  obtain ⟨signer, hsgn, hkey, hauto⟩ := automatic_iff_of_verifyEnvelope _ h
  refine ⟨signer, hsgn, ?_⟩
  simp only [TrustedSigner.approval, hkey, hauto]

theorem mem_candidates_iff {approval : CountedApproval} :
    approval ∈ candidates signatures plan roots now skip envelopes ↔ ∃ signer,
      Signs signatures plan roots now skip envelopes signer ∧ approval = signer.approval := by
  constructor
  · intro happr
    obtain ⟨item, hitem, hsome⟩ := List.mem_filterMap.mp happr
    obtain ⟨henvl, hvfd⟩ := verified_of_mem ((uniqueByKey_spec [] _).2 item hitem).1
    obtain ⟨signer, hsgn, hsame⟩ := approval_of_verified _ hvfd
    rw [hsgn] at hsome
    cases hsome
    exact ⟨signer, ⟨item.1, henvl, hsgn, item.2, hvfd⟩, hsame⟩
  · rintro ⟨signer, ⟨envelope, henvl, hsgn, ev, hvfd⟩, rfl⟩
    have hmem : (envelope, ev) ∈ verifiedEnvelopes signatures plan roots now skip envelopes :=
      List.mem_filterMap.mpr ⟨envelope, henvl, by rw [hvfd]; rfl⟩
    obtain ⟨first, hfst, hkey⟩ := exists_mem_uniqueByKey hmem (List.not_mem_nil)
    obtain ⟨-, hfd⟩ := verified_of_mem ((uniqueByKey_spec [] _).2 first hfst).1
    obtain ⟨signer', hsgn', hsame⟩ := approval_of_verified _ hfd
    obtain rfl : signer = signer' := Except.ok.inj (by rw [← hsgn, ← hsgn', hkey])
    refine List.mem_filterMap.mpr ⟨first, hfst, ?_⟩
    rw [hsgn', ← hsame]
    rfl

theorem nodup_candidates (envelopes : List ApprovalEnvelope) :
    ((candidates signatures plan roots now skip envelopes).map (·.keyId)).Nodup := by
  have huniq := (uniqueByKey_spec [] (verifiedEnvelopes signatures plan roots now skip envelopes)).1
  rw [List.Nodup, List.pairwise_map] at huniq ⊢
  refine List.pairwise_filterMap.mpr (huniq.imp ?_)
  intro _ _' hne _ happr _' happr'
  obtain ⟨_, -, rfl⟩ := Option.map_eq_some_iff.mp happr
  obtain ⟨_, -, rfl⟩ := Option.map_eq_some_iff.mp happr'
  exact hne

/-- Enough approvals are a matter of the signers. -/
theorem missing_eq_zero_iff {rule : QuorumRule} {requester : Option String} :
    (countQuorum rule (candidates signatures plan roots now skip envelopes) requester).missing = 0 ↔
      ∃ approvals : List CountedApproval,
      rule.n ≤ approvals.length ∧ (approvals.map (·.identity)).Nodup ∧ ∀ approval ∈ approvals,
      (∃ signer, Signs signatures plan roots now skip envelopes signer ∧ approval = signer.approval)
      ∧ rule.passes requester approval := by
  rw [missing_countQuorum_eq_zero_iff (nodup_candidates envelopes)]
  simp only [mem_candidates_iff]

end Candidates

/-! ### Verifications -/

/-- A verification for execution, with what it reads but for the envelopes. -/
structure Inquiry where
  ext : PolicyExternals
  semver : SemverCrate
  signatures : Signatures
  counting : Snapshot
  checking : Snapshot
  ending : Snapshot
  plan : Plan
  now : Int
  skipGates : Bool
  requester : Option String
  roots : TrustRoots
  live : Option ApprovalPolicy
  criticality : Option CriticalityLevel
  trusted : counting.trustRoots = .ok roots
  policed : ∃ environment, counting.environment plan.environment = .ok environment ∧
    loadLivePolicy ext environment = .ok live
  critical : counting.effectiveForTargets plan.environment (plan.steps.map (·.product)) =
    .ok criticality

namespace Inquiry

variable (q : Inquiry)

def rule : QuorumRule := planRule q.live q.plan q.skipGates q.criticality

def verify (onFile collected : List ApprovalEnvelope) : Except String VerificationEvidence :=
  verifyForExecutionNamed q.ext q.semver q.signatures
    { q.counting with envelopes := .ok onFile, collected := fun _ => .ok collected }
    q.checking q.ending q.plan q.now q.skipGates q.requester

def Succeeds (onFile collected : List ApprovalEnvelope) : Prop :=
  ∃ evidence, q.verify onFile collected = .ok evidence

instance (onFile collected : List ApprovalEnvelope) : Decidable (q.Succeeds onFile collected) :=
  match h : q.verify onFile collected with
  | .ok evidence => .isTrue ⟨evidence, h⟩
  | .error _ => .isFalse fun ⟨_, h'⟩ => nomatch h.symm.trans h'

def unique (envelopes : List ApprovalEnvelope) : List (ApprovalEnvelope × VerificationEvidence) :=
  uniqueByKey [] (verifiedEnvelopes q.signatures q.plan q.roots q.now q.skipGates envelopes)

def tally (envelopes : List ApprovalEnvelope) : QuorumTally :=
  countQuorum q.rule (candidates q.signatures q.plan q.roots q.now q.skipGates envelopes)
    q.requester

/-- The check of a counted key against the trust roots as they are at the end. -/
def checkKey (reloaded : TrustRoots) (keyId : String) : Except String Unit := do
  let signer ← reloaded.signer keyId
  refuseUnscopedHostAutomaticKey q.ending keyId signer

variable {q} {onFile collected : List ApprovalEnvelope}

theorem rule_pos : 0 < q.rule.n := by
  obtain ⟨env, -, hlive⟩ := q.policed
  exact planRule_pos (pos_of_loadLivePolicy _ hlive) q.plan q.skipGates q.criticality

/-- A full tally has a signer behind it. -/
theorem exists_signs_of_missing (h : (q.tally envelopes).missing = 0) :
    ∃ signer, Signs q.signatures q.plan q.roots q.now q.skipGates envelopes signer := by
  obtain ⟨approvals, henough, -, hall⟩ := missing_eq_zero_iff.mp h
  obtain ⟨approval, happr⟩ := List.exists_mem_of_length_pos (q.rule_pos.trans_le henough)
  obtain ⟨⟨signer, hsigns, -⟩, -⟩ := hall approval happr
  exact ⟨signer, hsigns⟩

theorem succeeds_iff :
    q.Succeeds onFile collected ↔ ¬ (q.rule.excludeRequester ∧ q.requester = none) ∧
      (q.tally (onFile ++ collected)).missing = 0 ∧
      (∃ ev, selectEvidence (q.unique (onFile ++ collected)) (q.tally (onFile ++ collected)) =
      .ok ev ∧ recheckAutomatic q.ext q.semver q.checking q.plan q.skipGates ev = .ok ()) ∧
      ∃ reloaded, q.ending.trustRoots = .ok reloaded ∧
      (∀ counted ∈ (q.tally (onFile ++ collected)).counted,
      q.checkKey reloaded counted.keyId = .ok ()) ∧
      requirePreflight q.ext q.ending q.plan reloaded q.now = .ok () := by
  obtain ⟨env, henv, hlive⟩ := q.policed
  constructor
  · rintro ⟨ev, hvfd⟩
    have h : Returns (q.verify onFile collected) fun _ => True := ⟨ev, hvfd, trivial⟩
    obtain ⟨_, hroots, h⟩ := h.of_bind
    obtain rfl := Except.ok.inj (q.trusted.symm.trans hroots)
    obtain ⟨_, ⟨⟩, h⟩ := h.of_bind
    obtain ⟨_, ⟨⟩, h⟩ := h.of_bind
    obtain ⟨_, -, h⟩ := h.of_bind
    obtain ⟨_, -, h⟩ := h.of_bind
    obtain ⟨_, hfd, h⟩ := h.of_bind
    cases henv.symm.trans hfd
    obtain ⟨_, hload, h⟩ := h.of_bind
    cases hlive.symm.trans hload
    obtain ⟨_, hcriticality, h⟩ := h.of_bind
    obtain rfl := Except.ok.inj (q.critical.symm.trans hcriticality)
    obtain ⟨_, hnam, h⟩ := h.of_bind
    obtain ⟨_, hmiss, h⟩ := h.of_bind
    obtain ⟨selected, hsel, h⟩ := h.of_bind
    obtain ⟨_, hrchk, h⟩ := h.of_bind
    obtain ⟨reloaded, hrld, h⟩ := h.of_bind
    obtain ⟨_, hkeys, h⟩ := h.of_bind
    obtain ⟨_, hpref, -⟩ := h.of_bind
    exact ⟨Ensures.refuseIf _ hnam, Nat.eq_zero_of_not_pos (Ensures.refuseIf _ hmiss),
      ⟨selected, hsel, hrchk⟩, reloaded, hrld, forM_eq_ok_iff.mp hkeys, hpref⟩
  · rintro ⟨hnam, hmiss, ⟨ev, hsel, hrchk⟩, reloaded, hrld, hkeys, hpref⟩
    have hpres : verifiedEnvelopes q.signatures q.plan q.roots q.now q.skipGates
        (onFile ++ collected) ≠ [] := by
      obtain ⟨signer, envelope, henvl, -, found, hvfd⟩ := exists_signs_of_missing hmiss
      exact List.ne_nil_of_mem (List.mem_filterMap.mpr ⟨envelope, henvl, by rw [hvfd]; rfl⟩)
    have hsome : onFile ++ collected ≠ [] := by
      intro hnone
      rw [hnone] at hpres
      exact hpres rfl
    have h : Returns (q.verify onFile collected) fun _ => True := by
      refine .step q.trusted (.step rfl (.step rfl (.step (if_neg ?_) (.step (if_neg ?_) ?_))))
      · simpa using hsome
      · simpa using hpres
      refine .step henv (.step hlive (.step q.critical (.step (if_neg hnam) ?_)))
      refine .step (if_neg (Nat.not_lt.mpr hmiss.le)) (.step hsel (.step hrchk ?_))
      exact .step hrld (.step (forM_eq_ok_iff.mpr hkeys) (.step hpref (.pure trivial)))
    obtain ⟨found, hfd, -⟩ := h
    exact ⟨found, hfd⟩

/-- A counted approval stands up to the checks that follow. -/
structure Stands (q : Inquiry) (evidence : VerificationEvidence) : Prop where
  current : recheckAutomatic q.ext q.semver q.checking q.plan q.skipGates evidence = .ok ()
  keyed : ∀ reloaded, q.ending.trustRoots = .ok reloaded →
    q.checkKey reloaded evidence.keyId = .ok ()

def Counts (q : Inquiry) (envelope : ApprovalEnvelope) (evidence : VerificationEvidence) : Prop :=
  verifyEnvelope q.signatures q.plan envelope q.roots q.now q.skipGates = .ok evidence ∧
    ∃ signer, q.roots.signer envelope.keyId = .ok signer ∧
      q.rule.passes q.requester signer.approval

/-- An envelope that counts is counted where it comes first. -/
theorem Counts.stands {evidence : VerificationEvidence} (h : q.Counts envelope evidence)
    (hsuc : q.Succeeds (envelope :: onFile) collected) : q.Stands evidence := by
  obtain ⟨hvfd, signer, hsgn, hpass⟩ := h
  have huniq : q.unique (envelope :: onFile ++ collected) = (envelope, evidence) ::
      uniqueByKey [envelope.keyId] (verifiedEnvelopes q.signatures q.plan q.roots q.now
        q.skipGates (onFile ++ collected)) := by
    simp only [unique, verifiedEnvelopes, List.cons_append, List.filterMap_cons, hvfd]
    rfl
  generalize uniqueByKey [envelope.keyId] _ = rest at huniq
  have hcand : signer.approval ∈ (q.tally (envelope :: onFile ++ collected)).counted := by
    obtain ⟨signer', hsgn', hsame⟩ := approval_of_verified (envelope, evidence) hvfd
    obtain rfl : signer = signer' := Except.ok.inj (hsgn.symm.trans hsgn')
    have hcandidates : candidates q.signatures q.plan q.roots q.now q.skipGates
        (envelope :: onFile ++ collected) = signer.approval :: countedApprovals q.roots rest := by
      have hlist : candidates q.signatures q.plan q.roots q.now q.skipGates
          (envelope :: onFile ++ collected) =
            countedApprovals q.roots ((envelope, evidence) :: rest) :=
        congrArg (countedApprovals q.roots) huniq
      rw [hlist, countedApprovals, List.filterMap_cons, hsgn, ← hsame]
      rfl
    unfold tally
    rw [hcandidates]
    exact mem_counted_of_passes hpass _
  have hkey : signer.keyId = envelope.keyId := (TrustRoots.signer_spec _ hsgn).2.2
  have hcnt : envelope.keyId ∈ (q.tally (envelope :: onFile ++ collected)).counted.map (·.keyId) :=
    List.mem_map.mpr ⟨_, hcand, hkey⟩
  obtain ⟨-, -, ⟨selected, hsel, hrchk⟩, reloaded, hrld, hkeys, -⟩ := succeeds_iff.mp hsuc
  have hfst : evidence = selected := by
    unfold selectEvidence at hsel
    rw [huniq, List.find?_cons_of_pos (by simpa using hcnt)] at hsel
    exact Except.ok.inj hsel
  obtain ⟨-, -, hevid, -⟩ := vouches_of_verifyEnvelope _ hvfd
  refine ⟨hfst ▸ hrchk, ?_⟩
  intro roots hroots
  cases hrld.symm.trans hroots
  rw [hevid, ← hkey]
  exact hkeys _ hcand

theorem counts_of_counted {approval : CountedApproval} (h : approval ∈ (q.tally envelopes).counted)
    {evidence : VerificationEvidence}
    (hvfd : verifyEnvelope q.signatures q.plan envelope q.roots q.now q.skipGates = .ok evidence)
    (hkey : envelope.keyId = approval.keyId) : q.Counts envelope evidence := by
  obtain ⟨hcts, horig⟩ := countsFor_countQuorum q.rule
    (candidates q.signatures q.plan q.roots q.now q.skipGates envelopes) q.requester
  obtain ⟨signer, ⟨other, -, hsgn, -⟩, hsame⟩ := mem_candidates_iff.mp (horig approval h)
  have hoth : signer.keyId = other.keyId := (TrustRoots.signer_spec _ hsgn).2.2
  refine ⟨hvfd, signer, ?_, hsame ▸ hcts.passes approval h⟩
  rw [hkey, hsame]
  change q.roots.signer signer.keyId = .ok signer
  rw [hoth, hsgn]

/-- More envelopes do no harm where all that count stand. -/
theorem Succeeds.of_subset {onFile' collected' : List ApprovalEnvelope}
    (hstands : ∀ envelope ev, q.Counts envelope ev → q.Stands ev)
    (hmore : onFile ++ collected ⊆ onFile' ++ collected')
    (hsuc : q.Succeeds onFile collected) : q.Succeeds onFile' collected' := by
  obtain ⟨hnam, hmiss, -, reloaded, hrld, -, hpref⟩ := succeeds_iff.mp hsuc
  have hmiss' : (q.tally (onFile' ++ collected')).missing = 0 := by
    obtain ⟨approvals, henough, hids, hall⟩ := missing_eq_zero_iff.mp hmiss
    refine missing_eq_zero_iff.mpr ⟨approvals, henough, hids, ?_⟩
    intro approval happr
    obtain ⟨⟨signer, ⟨envelope, henvl, hsgn⟩, hsame⟩, hpass⟩ := hall approval happr
    exact ⟨⟨signer, ⟨envelope, hmore henvl, hsgn⟩, hsame⟩, hpass⟩
  have horig := (countsFor_countQuorum q.rule (candidates q.signatures q.plan q.roots q.now
    q.skipGates (onFile' ++ collected')) q.requester).2
  -- every counted approval has its item among the verified ones
  have hitem : ∀ approval ∈ (q.tally (onFile' ++ collected')).counted,
      ∃ item ∈ q.unique (onFile' ++ collected'), item.1.keyId = approval.keyId := by
    intro approval happr
    obtain ⟨item, hitem, hsome⟩ := List.mem_filterMap.mp (horig approval happr)
    obtain ⟨signer, -, rfl⟩ := Option.map_eq_some_iff.mp hsome
    exact ⟨item, hitem, rfl⟩
  have hvfd : ∀ item ∈ q.unique (onFile' ++ collected'), verifyEnvelope q.signatures q.plan
      item.1 q.roots q.now q.skipGates = .ok item.2 := fun item hitem =>
    (verified_of_mem ((uniqueByKey_spec [] _).2 item hitem).1).2
  refine succeeds_iff.mpr ⟨hnam, hmiss', ?_, reloaded, hrld, ?_, hpref⟩
  · unfold selectEvidence
    split
    next item hfd =>
      have hcnt := List.find?_some hfd
      rw [List.contains_iff_mem, List.mem_map] at hcnt
      obtain ⟨approval, happr, hkey⟩ := hcnt
      exact ⟨item.2, rfl, (hstands _ _ (counts_of_counted happr
        (hvfd item (List.mem_of_find?_eq_some hfd)) hkey.symm)).current⟩
    next hnone =>
      obtain ⟨approval, happr⟩ := List.exists_mem_of_length_pos
        (q.rule_pos.trans_le (le_length_of_missing hmiss'))
      obtain ⟨item, hmem, hkey⟩ := hitem approval happr
      refine absurd ?_ (List.find?_eq_none.mp hnone item hmem)
      rw [List.contains_iff_mem, hkey]
      exact List.mem_map_of_mem happr
  · intro approval happr
    obtain ⟨item, hmem, hkey⟩ := hitem approval happr
    have hstand := hstands _ _ (counts_of_counted happr (hvfd item hmem) hkey)
    obtain ⟨-, -, hevid, -⟩ := vouches_of_verifyEnvelope _ (hvfd item hmem)
    rw [← hkey, ← hevid]
    exact hstand.keyed reloaded hrld

/-- More approvals do no harm, wherever they are put, exactly if every envelope that counts
    stands up to the checks made of what was counted: an automatic approval is one that the live
    policy would sign now, and no counted key is one of a host's automatic signer without the
    scopes of one. -/
theorem insertions_harmless_iff (q : Inquiry) (onFile collected : List ApprovalEnvelope)
    (hsucceeds : q.Succeeds onFile collected) :
    (∀ onFile' collected', (onFile ++ collected).Sublist (onFile' ++ collected') →
        q.Succeeds onFile' collected') ↔
      ∀ envelope evidence, q.Counts envelope evidence → q.Stands evidence := by
  constructor
  · intro hinserted envelope evidence hcounts
    exact hcounts.stands (hinserted (envelope :: onFile) collected (List.sublist_cons_self _ _))
  · intro hstands onFile' collected' hmore
    exact hsucceeds.of_subset hstands hmore.subset

end Inquiry

section Sample

def bob : TrustedSigner := ⟨"id:bob", "bob", "bob", [], [], [], none, none⟩

def bobsApproval (skipGates : Bool) : ApprovalEnvelope :=
  ⟨approvalSchema, "id:bob", ⟨labDigest 'a', "lab", "execute_plan", skipGates, 100, 200, "human",
    "ticket", labDigest 'b'⟩, ""⟩

/-- The policy's own approval, from before the policy was changed. -/
def staleApproval : ApprovalEnvelope :=
  ⟨approvalSchema, "id:key", { labApproval with policyDigest := labDigest 'c' }, ""⟩

/-- A verification that trusts these signers. -/
def labInquiry (plan : Plan) (skipGates : Bool) (signers : List TrustedSigner) : Inquiry :=
  let snapshot := { labSnapshot with
    trustRoots := .ok ⟨1, signers⟩
    hostAutomaticKey := fun keyId => .ok (keyId == "id:key") }
  { ext := labExternals
    semver := ⟨fun _ => none, fun _ _ => false⟩
    signatures := { labSignatures with verifyStrict := fun _ _ _ _ => .ok () }
    counting := snapshot
    checking := snapshot
    ending := snapshot
    plan := plan
    now := 150
    skipGates := skipGates
    requester := some "carol"
    roots := ⟨1, signers⟩
    live := some labPolicy
    criticality := none
    trusted := rfl
    policed := ⟨labEnvironment, rfl, loadLivePolicy_lab⟩
    critical := rfl }

/-- Where only `bob` is trusted, nothing that counts fails a later check. -/
theorem insertions_harmless_bob :
    (labInquiry labPlan false [bob]).Succeeds [bobsApproval false] [] ∧
      ∀ onFile collected, ([bobsApproval false] ++ []).Sublist (onFile ++ collected) →
        (labInquiry labPlan false [bob]).Succeeds onFile collected := by
  have hsucceeds : (labInquiry labPlan false [bob]).Succeeds [bobsApproval false] [] := by
    decide +kernel
  refine ⟨hsucceeds, (Inquiry.insertions_harmless_iff _ _ _ hsucceeds).mpr ?_⟩
  rintro envelope evidence ⟨hverified, -⟩
  obtain ⟨signer, hvouches, hkey, -, hprovider, -⟩ := vouches_of_verifyEnvelope _ hverified
  obtain rfl : signer = bob := List.mem_singleton.mp hvouches.trusted
  constructor
  · refine if_neg ?_
    rw [hprovider]
    intro hautomatic
    exact absurd (hvouches.scope hautomatic).1 (by decide)
  · rintro _ ⟨⟩
    rw [hkey, ← hvouches.key]
    rfl

/-- An approval that its policy would no longer sign takes the place of `bob`'s. -/
theorem stale_approval_displaces :
    (labInquiry labPlan false (bob :: [⟨"id:key", "auto", "key", ["lab"], [policyProvider], [],
        none, none⟩])).Succeeds [bobsApproval false] [] ∧
      ¬ (labInquiry labPlan false (bob :: [⟨"id:key", "auto", "key", ["lab"], [policyProvider], [],
        none, none⟩])).Succeeds [staleApproval, bobsApproval false] [] := by
  decide +kernel

end Sample

/-! ### Skipping the gates -/

/-- Whoever is enough for the other rule is enough for this one. -/
structure QuorumRule.Within (rule other : QuorumRule) : Prop where
  n : rule.n ≤ other.n
  groups : rule.groups = [] ∨ other.groups ≠ [] ∧ other.groups ⊆ rule.groups
  requester : rule.excludeRequester → other.excludeRequester

theorem QuorumRule.Within.passes {rule other : QuorumRule} (h : rule.Within other)
    {requester : Option String} {approval : CountedApproval}
    (hpass : other.passes requester approval) : rule.passes requester approval := by
  simp only [QuorumRule.passes, Bool.and_eq_true, Bool.not_eq_true', Bool.and_eq_false_imp,
    decide_eq_true_eq, Bool.or_eq_true, List.isEmpty_iff, List.any_eq_true,
    List.contains_iff_mem] at hpass ⊢
  obtain ⟨⟨hhuman, hrequester⟩, hgroups⟩ := hpass
  refine ⟨⟨fun hseveral => hhuman (hseveral.trans_le h.n), hrequester ∘ h.requester⟩, ?_⟩
  rcases h.groups with hnone | ⟨hsome, hsub⟩
  · exact .inl hnone
  · obtain ⟨group, hgroup, hneed⟩ := hgroups.resolve_left hsome
    exact .inr ⟨group, hgroup, hsub hneed⟩

/-- Signers whose approvals are enough to run a plan without its gates are enough to run it with
    them, where the rule for skipping the gates asks for as much as the plan's own. -/
theorem skipping_gates_needs_as_much (q : Inquiry) (hskips : q.skipGates = true)
    (hwithin : (planRule q.live q.plan false q.criticality).Within
      (planRule q.live q.plan true q.criticality))
    (onFile collected envelopes : List ApprovalEnvelope) (hsucceeds : q.Succeeds onFile collected)
    (hsame : ∀ signer, Signs q.signatures q.plan q.roots q.now true (onFile ++ collected) signer →
        Signs q.signatures q.plan q.roots q.now false envelopes signer) :
    let rule := planRule q.live q.plan false q.criticality
    ¬ (rule.excludeRequester ∧ q.requester = none) ∧
      (countQuorum rule (candidates q.signatures q.plan q.roots q.now false envelopes)
        q.requester).missing = 0 := by
  intro rule
  obtain ⟨hnamed, hmissing, -⟩ := Inquiry.succeeds_iff.mp hsucceeds
  rw [Inquiry.rule, hskips] at hnamed
  rw [Inquiry.tally, Inquiry.rule, hskips] at hmissing
  constructor
  · rintro ⟨hexcludes, hnone⟩
    exact hnamed ⟨hwithin.requester hexcludes, hnone⟩
  · obtain ⟨approvals, henough, hidentities, hall⟩ := missing_eq_zero_iff.mp hmissing
    refine missing_eq_zero_iff.mpr ⟨approvals, hwithin.n.trans henough, hidentities, ?_⟩
    intro approval happroval
    obtain ⟨⟨signer, hsigns, heq⟩, hpasses⟩ := hall approval happroval
    exact ⟨⟨signer, hsame signer hsigns, heq⟩, hwithin.passes hpasses⟩

theorem skipping_gates_needs_as_much_bob :
    (labInquiry labPlan true [bob]).Succeeds [bobsApproval true] [] ∧
      (countQuorum (planRule (some labPolicy) labPlan false none)
        (candidates (labInquiry labPlan true [bob]).signatures labPlan ⟨1, [bob]⟩ 150 false
          [bobsApproval false]) (some "carol")).missing = 0 := by
  have hsucceeds : (labInquiry labPlan true [bob]).Succeeds [bobsApproval true] [] := by
    decide +kernel
  have hverified : ∃ evidence, verifyEnvelope (labInquiry labPlan true [bob]).signatures labPlan
      (bobsApproval false) ⟨1, [bob]⟩ 150 false = .ok evidence := ⟨_, rfl⟩
  refine ⟨hsucceeds, (skipping_gates_needs_as_much _ rfl ⟨by decide, .inl rfl, by decide⟩ _ _
    [bobsApproval false] hsucceeds ?_).2⟩
  rintro signer ⟨envelope, henvelope, hsigner, -⟩
  obtain rfl := List.mem_singleton.mp henvelope
  exact ⟨_, List.mem_cons_self, hsigner, hverified⟩

/-- A plan that rolls back, of which the policy says that two have to approve it. -/
def rollbackPlan : Plan := { labPlan with steps := [{ labStep with action := .rollback }] }

/-- `bob` alone may run it without its gates, and may not run it with them. -/
theorem skipping_gates_needs_less :
    (labInquiry rollbackPlan true [bob]).Succeeds [bobsApproval true] [] ∧
      (countQuorum (planRule (some labPolicy) rollbackPlan false none)
        (candidates (labInquiry rollbackPlan true [bob]).signatures rollbackPlan ⟨1, [bob]⟩ 150
          false [bobsApproval false]) (some "carol")).missing = 1 := by
  decide +kernel

end Tenkai
