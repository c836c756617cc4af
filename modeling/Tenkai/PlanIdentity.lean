import Mathlib
import Tenkai.Fallible
import Tenkai.Plan
import Tenkai.Properties

/-!
# The identity of a plan

The id of a plan ends in its content address; approvals sign another digest, of the executable
content. The two bind the same content but for one value: the address takes an empty recovery
reason for none, and the executable digest does not (`identity_binds_content_iff`).
-/

namespace Tenkai.PlanIdentity

/-! ### Plans as they are stored -/

structure CredentialRunway where
  credential : String
  expiresAtMs : Int
  windowOpensAtMs : Int

/-- A plan with the fields that only its document has. -/
structure PlanDocument extends Plan where
  formatVersion : Nat
  priorWarnings : List String
  credentialRunway : Option CredentialRunway

def planFormatVersion : Nat := 1

/-- What the two digests are taken of. The address has two shapes, a tuple of five without a
    reason and one of six with it. -/
inductive Content
  | address (formatVersion : Nat) (environment : String) (createdAt : Int)
      (inputs : List DesiredStateInput) (steps : List Step)
  | addressWithReason (formatVersion : Nat) (environment : String) (createdAt : Int)
      (inputs : List DesiredStateInput) (steps : List Step) (reason : String)
  | executable (formatVersion : Nat) (content : ExecutableContent)

/-- `serde_json` and SHA-256. Encoding is injective and no two encodings collide, so the digest of
    the encoding is an injective function of the content; it is written in hexadecimal digits. A
    document that was written is read back. -/
structure Codec where
  digest : Content → String
  injective : Function.Injective digest
  hexadecimal : ∀ content, ':' ∉ (digest content).toList
  encode : PlanDocument → String
  decode : String → Option PlanDocument
  decode_encode : ∀ plan, decode (encode plan) = some plan
  /-- `str::parse` of an `i64`. -/
  integer : String → Option Int
  integer_toString : ∀ n : Int, integer (toString n) = some n

/-- A stored object. -/
structure Object where
  id : String
  kind : String
  name : String
  properties : Properties
  created : Int

section Identity

variable (codec : Codec)

def normalizedSteps (steps : List Step) : List Step := steps.map fun step => { step with id := "" }

def contentAddress (environment : String) (createdAt : Int) (inputs : List DesiredStateInput)
    (steps : List Step) (reason : Option String) : String :=
  match reason.filter (!·.isEmpty) with
  | some reason => codec.digest (.addressWithReason planFormatVersion environment createdAt inputs
      (normalizedSteps steps) reason)
  | none => codec.digest (.address planFormatVersion environment createdAt inputs
      (normalizedSteps steps))

def planId (environment : String) (createdAt : Int) (contentId : String) : String :=
  "tenkai:plan:" ++ environment ++ ":" ++ toString createdAt ++ ":" ++ contentId

def stepId (planId : String) (order : Nat) : String := s!"{planId}:step:{order}"

def PlanDocument.executableDigest (plan : PlanDocument) : String :=
  codec.digest (.executable plan.formatVersion plan.executableContent)

def placeOf (index : Nat) : Nat := index % 2 ^ 32

def assemblePlan (environment : String) (inputs : List DesiredStateInput) (steps : List Step)
    (reason : Option String) (createdAt : Int) : PlanDocument :=
  let ordered := steps.mapIdx fun index step => { step with order := placeOf index }
  let contentId := contentAddress codec environment createdAt inputs ordered reason
  let id := planId environment createdAt contentId
  { id, contentId, environment, createdAt, inputs
    steps := ordered.mapIdx fun index step => { step with id := stepId id index }
    state := .computed
    gatesSkipped := none
    statusDetail := ""
    maintenanceBlocked := false
    recalledRecoveryReason := reason
    formatVersion := planFormatVersion
    priorWarnings := []
    credentialRunway := none }

def hasSteps (plan : PlanDocument) : String := if plan.steps.isEmpty then "false" else "true"

def toObject (plan : PlanDocument) : Object where
  id := plan.id
  kind := "tenkai.plan"
  name := s!"{plan.environment} plan {plan.createdAt}"
  properties := ((((((AList.singleton "format_version" (toString plan.formatVersion)).insert
    "environment" plan.environment).insert "created_at" (toString plan.createdAt)).insert
      "content_digest" (plan.executableDigest codec)).insert "plan" (codec.encode plan)).insert
        "status" (toString plan.state)).insert "has_steps" (hasSteps plan)
  created := plan.createdAt

def required {α : Type} (value : Option α) (context : String) : Except String α :=
  match value with
  | some value => pure value
  | none => throw context

def requireHasStepsIndex (object : Object) (plan : PlanDocument) : Except String Unit := do
  let indexed ← required (object.properties.lookup "has_steps")
    s!"plan object {object.id} has no has_steps index"
  refuseIf (indexed ≠ hasSteps plan)
    s!"plan {object.id} has_steps index {indexed} does not match payload steps"

def stepsInOrder (plan : PlanDocument) : Bool :=
  plan.steps.zipIdx.all fun entry =>
    entry.1.order = placeOf entry.2 && entry.1.id = stepId plan.id entry.2

def fromObject (object : Object) : Except String PlanDocument := do
  refuseIf (object.kind ≠ "tenkai.plan") s!"object {object.id} is {object.kind}, not tenkai.plan"
  let raw ← required (object.properties.lookup "plan")
    s!"plan object {object.id} has no serialized plan"
  let plan ← required (codec.decode raw) s!"parsing stored plan {object.id}"
  refuseIf (plan.formatVersion ≠ planFormatVersion)
    s!"plan {object.id} uses unsupported format version {plan.formatVersion}"
  refuseIf (plan.maintenanceBlocked = true ∧ plan.state ≠ .blocked)
    s!"plan {plan.id} has a maintenance-block marker outside the blocked state"
  refuseIf (plan.id ≠ object.id)
    s!"stored plan id {plan.id} does not match object id {object.id}"
  let expected := contentAddress codec plan.environment plan.createdAt plan.inputs plan.steps
    plan.recalledRecoveryReason
  refuseIf (plan.contentId ≠ expected ∨
      plan.id ≠ planId plan.environment plan.createdAt expected)
    s!"stored plan {object.id} does not match its content-addressed id"
  refuseIf (¬ stepsInOrder plan) s!"stored plan {object.id} has invalid step ordering or ids"
  let status ← required (object.properties.lookup "status")
    s!"plan object {object.id} has no lifecycle status"
  refuseIf (status ≠ toString plan.state)
    s!"stored plan {object.id} has inconsistent lifecycle state"
  let digest ← required (object.properties.lookup "content_digest")
    s!"plan object {object.id} has no content digest"
  refuseIf (plan.executableDigest codec ≠ digest)
    s!"stored plan {object.id} executable content was mutated"
  let indexed ← required (object.properties.lookup "created_at")
    s!"plan object {object.id} has no created_at index"
  let indexed ← required (codec.integer indexed)
    s!"plan {object.id} created_at index is not an integer"
  refuseIf (indexed ≠ plan.createdAt)
    s!"plan {object.id} created_at index {indexed} does not match payload {plan.createdAt}"
  requireHasStepsIndex object plan
  let environment ← required (object.properties.lookup "environment")
    s!"plan object {object.id} has no environment index"
  refuseIf (environment ≠ plan.environment)
    s!"plan {object.id} environment index {environment} does not match payload {plan.environment}"
  pure plan

end Identity

/-! ### What an accepted plan is -/

/-- What `from_object` checks of the plan itself. -/
structure Accepted (codec : Codec) (plan : PlanDocument) : Prop where
  version : plan.formatVersion = planFormatVersion
  address : plan.contentId = contentAddress codec plan.environment plan.createdAt plan.inputs
    plan.steps plan.recalledRecoveryReason
  id : plan.id = planId plan.environment plan.createdAt plan.contentId
  steps : stepsInOrder plan = true

variable {other plan : PlanDocument}

section Accepted

variable {codec : Codec}

theorem accepted_of_fromObject {object : Object} (h : fromObject codec object = .ok plan) :
    Accepted codec plan := by
  have hensures : Ensures (fromObject codec object) (Accepted codec) := by
    refine .after fun _ => .after fun _ => .after fun plan => ?_
    refine Ensures.refuseIf.bind fun _ hver => .after fun _ => .after fun _ => ?_
    refine Ensures.refuseIf.bind fun _ haddress => Ensures.refuseIf.bind fun _ hsteps => ?_
    rw [not_or, not_not, not_not] at haddress
    have hacc : Accepted codec plan :=
      { version := not_not.mp hver
        address := haddress.1
        id := by rw [haddress.1]; exact haddress.2
        steps := not_not.mp hsteps }
    refine .after fun _ => .after fun _ => .after fun _ => ?_
    refine .after fun _ => .after fun _ => .after fun _ => ?_
    refine .after fun _ => .after fun _ => .after fun _ => ?_
    exact .after fun _ => .pure hacc
  exact hensures plan h

/-- The content address of a plan is what stands after the last colon of its id. -/
theorem contentId_eq_of_planId {env environment' : String} {createdAt createdAt' : Int}
    {content content' : Content}
    (h : planId env createdAt (codec.digest content) =
      planId environment' createdAt' (codec.digest content')) : content = content' := by
  have hlist : ∀ env createdAt content,
      (planId env createdAt (codec.digest content)).toList.reverse =
        (codec.digest content).toList.reverse ++ ':' ::
          ("tenkai:plan:" ++ env ++ ":" ++ toString createdAt).toList.reverse := by
    intro env createdAt content
    have hcolon : ":".toList = [':'] := rfl
    simp [planId, String.toList_append, hcolon]
  have hdig : ∀ content, ':' ∉ (codec.digest content).toList.reverse := by
    intro content
    rw [List.mem_reverse]
    exact codec.hexadecimal content
  have hreversed := congrArg (fun id => id.toList.reverse) h
  rw [hlist, hlist, append_cons_inj_of_notMem_left (hdig content) (hdig content')] at hreversed
  exact codec.injective (String.toList_inj.mp (List.reverse_injective hreversed.1))

/-- The reason as the content address takes it. -/
def addressedReason (plan : PlanDocument) : Option String :=
  plan.recalledRecoveryReason.filter (!·.isEmpty)

def addressContent (plan : PlanDocument) : Content :=
  match addressedReason plan with
  | some reason => .addressWithReason planFormatVersion plan.environment plan.createdAt plan.inputs
      (normalizedSteps plan.steps) reason
  | none => .address planFormatVersion plan.environment plan.createdAt plan.inputs
      (normalizedSteps plan.steps)

theorem contentAddress_eq (plan : PlanDocument) :
    contentAddress codec plan.environment plan.createdAt plan.inputs plan.steps
      plan.recalledRecoveryReason = codec.digest (addressContent plan) := by
  unfold contentAddress addressContent addressedReason
  cases plan.recalledRecoveryReason.filter (!·.isEmpty) <;> rfl

theorem addressContent_inj (h : addressContent plan = addressContent other) :
    plan.environment = other.environment ∧ plan.createdAt = other.createdAt ∧
      plan.inputs = other.inputs ∧ normalizedSteps plan.steps = normalizedSteps other.steps ∧
      addressedReason plan = addressedReason other := by
  unfold addressContent at h
  cases hplan : addressedReason plan <;> cases hoth : addressedReason other <;> simp_all

/-- A step is known from its place, the id of its plan, and what the address covers. -/
theorem steps_eq_of_normalizedSteps (hid : plan.id = other.id) (hplan : stepsInOrder plan = true)
    (hoth : stepsInOrder other = true)
    (h : normalizedSteps plan.steps = normalizedSteps other.steps) : plan.steps = other.steps := by
  have hat : ∀ {document : PlanDocument}, stepsInOrder document = true → ∀ (i : Nat) (step : Step),
      document.steps[i]? = some step → step.id = stepId document.id i := by
    intro document horder i step hstep
    have hent := List.all_eq_true.mp horder (step, i) (List.mem_zipIdx_iff_getElem?.mpr hstep)
    simp only [Bool.and_eq_true, decide_eq_true_eq] at hent
    exact hent.2
  apply List.ext_getElem?
  intro i
  have hi := congrArg (·[i]?) h
  simp only [normalizedSteps, List.getElem?_map] at hi
  cases hp : plan.steps[i]? with
  | none =>
    rw [hp] at hi
    exact (Option.map_eq_none_iff.mp hi.symm).symm
  | some step =>
    rw [hp] at hi
    obtain ⟨otherStep, ho, hstep⟩ := Option.map_eq_some_iff.mp hi.symm
    have hids : step.id = otherStep.id := by rw [hat hplan i step hp, hat hoth i otherStep ho, hid]
    cases step
    cases otherStep
    simp_all

/-- Reasons that the address takes for the same are the same unless one of them is present and
    empty. -/
theorem reason_eq_iff (h : addressedReason plan = addressedReason other) :
    plan.recalledRecoveryReason = other.recalledRecoveryReason ↔
      (plan.recalledRecoveryReason = some "" ↔ other.recalledRecoveryReason = some "") := by
  unfold addressedReason at h
  constructor
  · intro heq
    rw [heq]
  · intro hempty
    cases hplan : plan.recalledRecoveryReason with
    | none =>
      cases hoth : other.recalledRecoveryReason with
      | none => rfl
      | some reason =>
        rw [hplan, hoth] at h hempty
        by_cases hreason : reason = ""
        · simp [hreason] at hempty
        · simp [Option.filter, hreason] at h
    | some reason =>
      cases hoth : other.recalledRecoveryReason with
      | none =>
        rw [hplan, hoth] at h hempty
        by_cases hreason : reason = ""
        · simp [hreason] at hempty
        · simp [Option.filter, hreason] at h
      | some otherReason =>
        rw [hplan, hoth] at h hempty
        by_cases hreason : reason = ""
        · simp_all
        · by_cases hoth : otherReason = ""
          · simp_all
          · simpa [Option.filter, hreason, hoth] using h

/-- Two accepted plans of one id have the same executable digest if and only if both or neither
    have a recovery reason that is present and empty. -/
theorem digest_eq_iff (hplan : Accepted codec plan) (hoth : Accepted codec other)
    (hid : plan.id = other.id) :
    plan.executableDigest codec = other.executableDigest codec ↔
      (plan.recalledRecoveryReason = some "" ↔ other.recalledRecoveryReason = some "") := by
  have hcont : addressContent plan = addressContent other := by
    have hids := hid
    rw [hplan.id, hoth.id, hplan.address, hoth.address, contentAddress_eq,
      contentAddress_eq] at hids
    exact contentId_eq_of_planId hids
  obtain ⟨henv, hcrt, hinputs, hsteps, hreason⟩ := addressContent_inj hcont
  have hsteps := steps_eq_of_normalizedSteps hid hplan.steps hoth.steps hsteps
  have hcontentId : plan.contentId = other.contentId := by
    rw [hplan.address, hoth.address, contentAddress_eq, contentAddress_eq, hcont]
  rw [← reason_eq_iff hreason]
  unfold PlanDocument.executableDigest
  rw [codec.injective.eq_iff, hplan.version, hoth.version]
  simp only [Content.executable.injEq, true_and, Plan.executableContent,
    ExecutableContent.mk.injEq, hid, hcontentId, henv, hcrt, hinputs, hsteps]

/-! ### Reading back what was written -/

theorem returns_required {α : Type} {value : Option α} (found : α) (h : value = some found)
    (context : String) : Returns (required value context) (· = found) := by
  rw [h]
  exact .pure rfl

theorem returns_refuseIf {c : Prop} [Decidable c] (h : ¬ c) (error : String) :
    Returns (refuseIf c error) fun _ => True := ⟨(), if_neg h, True.intro⟩

theorem fromObject_toObject (h : Accepted codec plan)
    (hmarker : plan.maintenanceBlocked = true → plan.state = .blocked) :
    fromObject codec (toObject codec plan) = .ok plan := by
  have hreturns : Returns (fromObject codec (toObject codec plan)) (· = plan) := by
    refine (returns_refuseIf (by simp [toObject]) _).bind fun _ _ => ?_
    refine (returns_required (codec.encode plan)
      (by simp [toObject, AList.lookup_insert_ne]) _).bind ?_
    rintro _ rfl
    refine (returns_required _ (codec.decode_encode plan) _).bind fun _ hread => ?_
    rw [hread]
    -- the checks of the plan itself
    refine (returns_refuseIf (not_not.mpr h.version) _).bind fun _ _ => ?_
    refine (returns_refuseIf (fun hblocked => hblocked.2 (hmarker hblocked.1)) _).bind fun _ _ => ?_
    refine (returns_refuseIf (by simp [toObject]) _).bind fun _ _ => ?_
    refine (returns_refuseIf (by rw [← h.address]; simp [← h.id]) _).bind fun _ _ => ?_
    refine (returns_refuseIf (not_not.mpr h.steps) _).bind fun _ _ => ?_
    -- the properties that repeat parts of it
    refine (returns_required (toString plan.state)
      (by simp [toObject, AList.lookup_insert_ne]) _).bind ?_
    rintro _ rfl
    refine (returns_refuseIf (by simp) _).bind fun _ _ => ?_
    refine (returns_required (plan.executableDigest codec)
      (by simp [toObject, AList.lookup_insert_ne]) _).bind ?_
    rintro _ rfl
    refine (returns_refuseIf (by simp) _).bind fun _ _ => ?_
    refine (returns_required (toString plan.createdAt)
      (by simp [toObject, AList.lookup_insert_ne]) _).bind ?_
    rintro _ rfl
    refine (returns_required _ (codec.integer_toString plan.createdAt) _).bind ?_
    rintro _ rfl
    refine (returns_refuseIf (by simp) _).bind fun _ _ => ?_
    refine .bind (P := fun _ => True) ((returns_required (hasSteps plan)
      (by simp [toObject]) _).bind ?_) fun _ _ => ?_
    · rintro _ rfl
      exact returns_refuseIf (by simp) _
    refine (returns_required plan.environment
      (by simp [toObject, AList.lookup_insert_ne]) _).bind ?_
    rintro _ rfl
    refine (returns_refuseIf (by simp) _).bind fun _ _ => ?_
    exact .pure rfl
  obtain ⟨_, hread, rfl⟩ := hreturns
  exact hread

theorem accepted_assemblePlan (env : String) (inputs : List DesiredStateInput)
    (steps : List Step) (reason : Option String) (createdAt : Int) :
    Accepted codec (assemblePlan codec env inputs steps reason createdAt) := by
  have hnormal : ∀ (id : String) (ordered : List Step),
      normalizedSteps (ordered.mapIdx fun k step => { step with id := stepId id k }) =
        normalizedSteps ordered := by
    intro id ordered
    apply List.ext_getElem?
    intro i
    simp only [normalizedSteps, List.getElem?_map, List.getElem?_mapIdx]
    cases ordered[i]? <;> rfl
  constructor
  · rfl
  · simp only [assemblePlan, contentAddress, hnormal]
  · rfl
  · apply List.all_eq_true.mpr
    rintro ⟨step, i⟩ hstep
    have hat := List.mem_zipIdx_iff_getElem?.mp hstep
    simp only [assemblePlan, List.getElem?_mapIdx] at hat
    cases hs : steps[i]? with
    | none =>
      rw [hs] at hat
      cases hat
    | some given =>
      rw [hs] at hat
      cases hat
      simp [assemblePlan]

/-- A plan's id binds its executable content, but for a recovery reason that is present and empty:
    accepted plans of one id have one executable digest if and only if both or neither have such a
    reason. And what `assemble_plan` makes is read back as it was. -/
theorem identity_binds_content_iff (codec : Codec) :
    (∀ (object other : Object) (plan otherPlan : PlanDocument),
      fromObject codec object = .ok plan → fromObject codec other = .ok otherPlan →
      plan.id = otherPlan.id →
      (plan.executableDigest codec = otherPlan.executableDigest codec ↔
        (plan.recalledRecoveryReason = some "" ↔ otherPlan.recalledRecoveryReason = some ""))) ∧
    ∀ (environment : String) (inputs : List DesiredStateInput) (steps : List Step)
      (reason : Option String) (createdAt : Int),
      fromObject codec (toObject codec
        (assemblePlan codec environment inputs steps reason createdAt)) =
          .ok (assemblePlan codec environment inputs steps reason createdAt) := by
  constructor
  · intro object other plan otherPlan hplan hother hid
    exact digest_eq_iff (accepted_of_fromObject hplan) (accepted_of_fromObject hother) hid
  · intro environment inputs steps reason createdAt
    exact fromObject_toObject (accepted_assemblePlan environment inputs steps reason createdAt)
      (by simp [assemblePlan])

end Accepted

/-! ### A recovery without a reason -/

section Sample

-- plans and what is digested of them can be numbered, which is a codec with the assumed properties
instance encodableChar : Encodable Char :=
  .ofLeftInjection Char.toNat (fun n => some (Char.ofNat n)) (by simp)

instance encodableString : Encodable String :=
  .ofLeftInjection String.toList (fun chars => some (String.ofList chars)) (by simp)

deriving instance Encodable for Action
deriving instance Encodable for HostAction
deriving instance Encodable for HostStep
deriving instance Encodable for ReleasePin
deriving instance Encodable for Step
deriving instance Encodable for DesiredStateInput
deriving instance Encodable for PlanState
deriving instance Encodable for Plan
deriving instance Encodable for ExecutableContent
deriving instance Encodable for CredentialRunway
deriving instance Encodable for PlanDocument
deriving instance Encodable for Content

/-- As many digits as the number of a value says. -/
def tally (n : Nat) : String := String.ofList (List.replicate n '0')

theorem length_tally (n : Nat) : (tally n).toList.length = n := by simp [tally]

def sampleCodec : Codec where
  digest content := tally (Encodable.encode content)
  injective := by
    intro content other h
    have hlength := congrArg (·.toList.length) h
    simp only [length_tally] at hlength
    exact Encodable.encode_injective hlength
  hexadecimal := by
    intro content h
    simp [tally] at h
  encode plan := tally (Encodable.encode plan)
  decode text := Encodable.decode text.toList.length
  decode_encode := by
    intro plan
    rw [length_tally, Encodable.encodek]
  integer := String.toInt?
  integer_toString := Int.toInt?_repr

def rollbackPlan (reason : Option String) : PlanDocument :=
  assemblePlan sampleCodec "prod" []
    [⟨"", 0, "web", "", .rollback, some "2.0.0", "1.0.0", "tenkai:release:web@1.0.0", "sha256:1",
      "sha256:2", "", none, none⟩] reason 5

theorem identity_binds_content_rollback :
    (rollbackPlan none).executableDigest sampleCodec =
        PlanDocument.executableDigest sampleCodec { rollbackPlan none with state := .succeeded } ∧
      fromObject sampleCodec (toObject sampleCodec (rollbackPlan none)) = .ok (rollbackPlan none) :=
  have hread := (identity_binds_content_iff sampleCodec).2 "prod" [] _ none 5
  have haccepted : Accepted sampleCodec (rollbackPlan none) := accepted_assemblePlan ..
  ⟨((identity_binds_content_iff sampleCodec).1 (toObject sampleCodec (rollbackPlan none))
    (toObject sampleCodec { rollbackPlan none with state := .succeeded }) (rollbackPlan none)
    { rollbackPlan none with state := .succeeded } hread
    (fromObject_toObject ⟨haccepted.1, haccepted.2, haccepted.3, haccepted.4⟩
      (by simp [rollbackPlan, assemblePlan])) rfl).mpr Iff.rfl, hread⟩

/-- Two stored plans of one id, one without a recovery reason and one with an empty one, are both
    accepted, and an approval of the one does not cover the other. -/
theorem empty_reason_not_bound :
    fromObject sampleCodec (toObject sampleCodec (rollbackPlan none)) = .ok (rollbackPlan none) ∧
      fromObject sampleCodec (toObject sampleCodec (rollbackPlan (some ""))) =
        .ok (rollbackPlan (some "")) ∧
      (rollbackPlan none).id = (rollbackPlan (some "")).id ∧
      (rollbackPlan none).executableDigest sampleCodec ≠
        (rollbackPlan (some "")).executableDigest sampleCodec := by
  have haccepted : ∀ reason, Accepted sampleCodec (rollbackPlan reason) := fun reason =>
    accepted_assemblePlan ..
  have hid : (rollbackPlan none).id = (rollbackPlan (some "")).id := rfl
  refine ⟨fromObject_toObject (haccepted none) (by simp [rollbackPlan, assemblePlan]),
    fromObject_toObject (haccepted _) (by simp [rollbackPlan, assemblePlan]), hid, ?_⟩
  intro hdigest
  have hreasons := (digest_eq_iff (haccepted none) (haccepted (some "")) hid).mp hdigest
  exact absurd (hreasons.mpr rfl) (by simp [rollbackPlan, assemblePlan])

end Sample

end Tenkai.PlanIdentity
