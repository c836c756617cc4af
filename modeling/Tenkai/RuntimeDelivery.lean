import Tenkai.DeployedSet
import Tenkai.StepLifecycle

/-!
# What a runtime reports

A runtime executes a whole plan and reports a receipt for each step, which `complete_runtime_work`
records; the server records the steps it executes itself through transitions. A step leaves the
same record either way only under the condition of `Alike`.
-/

namespace Tenkai

/-! ### Completions -/

structure RuntimeReceipt where
  stepId : String
  succeeded : Bool
  detail : String

structure RuntimeCompletion where
  planId : String
  generation : Nat
  succeeded : Bool
  detail : String
  receipts : List RuntimeReceipt

def runtimeSkippedDetail : String := "not executed after an earlier step failed"

inductive TerminalOutcomeState
  | deploymentSucceeded
  | deploymentFailed
  | rollbackSucceeded
  | rollbackFailed

/-- `classify_runtime`: a step that was skipped has no terminal outcome. -/
def classifyRuntime (action : Action) (succeeded : Bool) (detail : String) :
    Option TerminalOutcomeState :=
  if detail = runtimeSkippedDetail then none
  else some (match action, succeeded with
    | .rollback, true => .rollbackSucceeded
    | _, true => .deploymentSucceeded
    | .rollback, false => .rollbackFailed
    | _, false => .deploymentFailed)

def RuntimeCompletion.terminal (completion : RuntimeCompletion) : PlanState :=
  if completion.succeeded then .succeeded else .failed

def validateRuntimeCompletion (environment : String) (stored : Plan)
    (completion : RuntimeCompletion) : Except String Unit :=
  let received := completion.receipts.map (·.stepId)
  if stored.environment ≠ environment then
    throw s!"plan {completion.planId} belongs to {stored.environment}, not {environment}"
  else if !(stored.steps.all (fun step => received.contains step.id) &&
      received.all (fun id => (stored.steps.map (·.id)).contains id) && decide received.Nodup) then
    throw "runtime completion receipts must cover every plan step exactly once"
  else if completion.succeeded && !completion.receipts.all (·.succeeded) then
    throw "a successful runtime completion cannot contain a failed step receipt"
  else if stored.state.terminal then
    if stored.state = completion.terminal then pure ()
    else throw "runtime completion conflicts with terminal plan state"
  else if stored.state = .computed || stored.state = .running then pure ()
  else throw "runtime plan is not executable"

/-- Code outside the model: what planning uses, and the check of names. -/
structure DeliveryExternals extends PlanExternals where
  validateIdentifier : String → String → Except String Unit

section Completion

variable (ext : DeliveryExternals) (store : ReleaseStore)

def setReconciled (properties : Properties) (product key : String) :
    Option String → Except String Properties
  | some version => do
    ext.validateIdentifier "version" version
    match store (releaseId product version) with
    | .missing => throw s!"release {product}@{version} is not published"
    | _ => pure ((properties.set .deployed key version).set .deployedRelease key
        (releaseId product version))
  | none => pure ((properties.remove .deployed key).remove .deployedRelease key)

def updateReconciledDeployment (properties : Properties) (product inst : String)
    (deployed : Option String) : Except String Properties := do
  let key := instanceKey product inst
  let moved ← setReconciled ext store properties product key deployed
  let healthy := ((moved.set .deploymentHealth key "healthy").remove .deploymentError
    key).stampAppliedOverlays ext.overlayDigest product inst
  let stamped ← stampDocument ext.semver ext.documentDigest store healthy product
  pure ((stamped.remove .deployedPrev key).clearUnknownOrigin key)

/-- One turn of the loop of `update_runtime_deployments_object`. -/
def updateRuntimeDeployment (properties : Properties) (step : Step) : Except String Properties := do
  ext.validateIdentifier "product" step.product
  let kept := properties.get .deployedPrev step.instanceName
  let updated ← updateReconciledDeployment ext store properties step.product step.instanceName
    (some step.toVersion)
  -- a same-version step replaced nothing and keeps the version recorded before
  pure (updated.setPrevious step.instanceName
    (step.fromVersion.filter (· != step.toVersion) <|> kept))

def updateRuntimeDeployments (properties : Properties) (steps : List Step) :
    Except String Properties :=
  steps.foldlM (updateRuntimeDeployment ext store) properties

/-- The hold of a step's release, kept under its product. -/
def recordRuntimeTarget (planId : String) (receipts : List RuntimeReceipt) (observedAt : Int)
    (properties : Properties) (step : Step) : Properties :=
  match receipts.find? (·.stepId = step.id) with
  | none => properties
  | some receipt =>
    if (classifyRuntime step.action receipt.succeeded receipt.detail).isNone then properties
    else if !receipt.succeeded && step.action ≠ .rollback then
      (((properties.set .failedTarget step.product step.releaseId).set .failedTargetPlan
        step.product planId).set .failedTargetAt step.product (toString observedAt)).set
          .failedTargetError step.product (step.releaseId ++ "\n" ++
            String.ofList (receipt.detail.toList.take Properties.failedTargetErrorChars))
    else if receipt.succeeded && properties.get .failedTarget step.product = some step.releaseId
    then (properties.remove .failedTarget step.product).remove .failedTargetPlan step.product
    else properties

/-- The steps recorded as deployed: all of a plan that succeeded, of a plan that failed those
    whose receipt says so. -/
def RuntimeCompletion.deployedSteps (completion : RuntimeCompletion) (stored : Plan) : List Step :=
  if completion.succeeded then stored.steps
  else stored.steps.filter fun step =>
    completion.receipts.any fun receipt => receipt.stepId = step.id && receipt.succeeded

/-- `complete_runtime_work`: the plan and the environment it stores. `leased` says that a
    server holds the environment's lease. -/
def completeRuntimeWork (environment : String) (leased : Bool) (observedAt : Int) (stored : Plan)
    (properties : Properties) (completion : RuntimeCompletion) :
    Except String (Plan × Properties) := do
  validateRuntimeCompletion environment stored completion
  if stored.state.terminal then pure (stored, properties)
  else if leased then throw s!"environment {environment} has an apply in progress"
  else do
    let running := if stored.state = .computed then
      (Transition.new .running "claimed by assigned environment runtime").apply stored else stored
    let updated ← updateRuntimeDeployments ext store properties (completion.deployedSteps stored)
    let held := stored.steps.foldl (recordRuntimeTarget stored.id completion.receipts observedAt)
      updated
    pure ((Transition.new completion.terminal completion.detail).apply running, held)

end Completion

/-! ### One outcome, reported twice -/

/-- The transitions with which the server records a failure: nothing changed, the release
    running before was applied again, the new one is live against its gate, or nobody knows. -/
def failureTransitions (step : Step) : List DeploymentTransition :=
  [.unchanged, .refreshed, .deployed step.toVersion step.fromVersion, .unknown]

/-- What became of a step, as a server records it and as a runtime reports it. -/
structure StepReport where
  step : Step
  hostless : step.host = none
  succeeded : Bool
  detail : String
  transition : DeploymentTransition
  used : if succeeded then transition = StepLifecycle.liveTransition step
    else transition ∈ failureTransitions step
  attempt : String
  observedAt : Int

namespace StepReport

variable (report : StepReport)

def observation (planId : String) : DeploymentObservation where
  planId := planId
  step := report.step
  status := if report.succeeded then .succeeded else .failed
  detail := report.detail
  transition := report.transition

def receipt : RuntimeReceipt := ⟨report.step.id, report.succeeded, report.detail⟩

def plan (stored : Plan) (reports : List StepReport) : Plan :=
  { stored with steps := reports.map (·.step) }

def completion (base : RuntimeCompletion) (reports : List StepReport) : RuntimeCompletion :=
  { base with
    succeeded := reports.all (·.succeeded)
    receipts := reports.map (·.receipt) }

def instances (reports : List StepReport) : List String := reports.map (·.step.instanceName)

end StepReport

def recordSteps (ext : DeliveryExternals) (store : ReleaseStore) (planId : String)
    (properties : Properties) (reports : List StepReport) : Except String Properties :=
  reports.foldlM (fun properties report =>
    recordDeploymentObservation ext.semver ext.documentDigest store ext.overlayDigest properties
      (report.observation planId) report.attempt report.observedAt) properties

open DeploymentObservation (isOutcomeField)

/-- The same outcome is recorded of the instances. -/
def Agree (names : List String) (server runtime : Properties) : Prop :=
  ∀ name ∈ names, ∀ field, isOutcomeField field →
    server.get field name = runtime.get field name

/-- The condition under which a step leaves the same record either way, on the properties
    before it. -/
structure Alike (names : List String) (digest : Option String → String) (planId : String)
    (report : StepReport) (state : Properties) : Prop where
  /-- What is restarted is what is recorded as deployed. -/
  restarted : report.succeeded → report.step.action = .restart →
    state.get .deployed report.step.instanceName = some report.step.toVersion ∧
    state.get .deployedRelease report.step.instanceName =
      some (releaseId report.step.product report.step.toVersion) ∧
    ∀ previous, report.step.fromVersion = some previous → previous ≠ report.step.toVersion →
      state.get .deployedPrev report.step.instanceName = some previous
  /-- What is deployed is not what was deployed, or is its own predecessor already. -/
  moved : report.succeeded → report.step.action ≠ .restart →
    report.step.fromVersion = some report.step.toVersion →
      state.get .deployedPrev report.step.instanceName = some report.step.toVersion
  /-- The server records a failure without a change of what is deployed. -/
  failed : report.succeeded = false → ∀ field, isOutcomeField field → field ≠ .failedTarget →
    (report.observation planId).valueAfter digest state field =
      state.get field report.step.instanceName
  /-- A hold kept under another name, or not at all, is not needed. -/
  held : report.step.instanceName ≠ report.step.product ∨ report.detail = runtimeSkippedDetail →
    (report.observation planId).holdAfter (state.get .failedTarget report.step.instanceName) =
      state.get .failedTarget report.step.instanceName
  /-- And changes nothing for the instance that has the name of the product. -/
  heldProduct : report.step.instanceName ≠ report.step.product →
    report.detail ≠ runtimeSkippedDetail → report.step.product ∈ names →
      (report.observation planId).holdAfter (state.get .failedTarget report.step.product) =
        state.get .failedTarget report.step.product

/-! #### What the runtime's record of a step does -/

variable {before : Option String} {field : Field} {name id product : String} {observedAt : Int}
  {report : StepReport} {reports : List StepReport}

section Runtime

variable {ext : DeliveryExternals} {store : ReleaseStore} {properties : Properties} {step : Step}

def runtimeValue (digest : Option String → String) (properties : Properties) (step : Step)
    (field : Field) : Option String :=
  match field with
  | .deployed => some step.toVersion
  | .deployedRelease => some (releaseId step.product step.toVersion)
  | .deployedPrev => step.fromVersion.filter (· != step.toVersion) <|>
      properties.get .deployedPrev step.instanceName
  | .deploymentHealth => some "healthy"
  | .appliedConfig => properties.stampedConfig digest step.product
  | field => properties.get field step.instanceName

theorem get_stampDocument :
    Ensures (stampDocument ext.semver ext.documentDigest store properties product) fun after => ∀
      field,
      field ≠ .appliedDependencies → ∀ name, after.get field name = properties.get field name := by
  refine .after fun document => ?_
  cases document with
  | none => exact .pure fun field hfld name => by simp [Properties.get_remove, hfld]
  | some document => exact .pure fun field hfld name => by simp [Properties.get_set, hfld]

theorem ensures_setReconciled {key v : String} :
    Ensures (setReconciled ext store properties product key (some v)) fun after => after =
      (properties.set .deployed key v).set .deployedRelease key (releaseId product v) := by
  refine .after fun _ => ?_
  split
  · exact .throw
  · exact .pure rfl

/-- Recording a version as deployed forgets the one before. -/
theorem get_updateReconciledDeployment {inst version : String} :
    Ensures (updateReconciledDeployment ext store properties product inst (some version))
      fun after => ∀ field, isOutcomeField field ∨ field = .overlay → ∀ name, after.get field name =
          if name = instanceKey product inst then
            match field with
            | .deployed => some version
            | .deployedRelease => some (releaseId product version)
            | .deployedPrev => none
            | .deploymentHealth => some "healthy"
            | .appliedConfig => properties.stampedConfig ext.overlayDigest product
            | field => properties.get field name
          else properties.get field name := by
  refine .bind ensures_setReconciled fun _ _ => ?_
  refine .bind get_stampDocument fun _ _ => .pure ?_
  intro field _ name
  by_cases hname : name = instanceKey product inst <;> cases field <;>
    simp_all [isOutcomeField, Properties.get_clearUnknownOrigin, Properties.get_remove,
      Properties.get_set, Properties.get_stampAppliedOverlays, Properties.stampedConfig,
      Properties.overlayDigestFor]

theorem get_updateRuntimeDeployment :
    Ensures (updateRuntimeDeployment ext store properties step) fun after =>
      ∀ field, isOutcomeField field ∨ field = .overlay → ∀ name,
        after.get field name = if name = step.instanceName then
          runtimeValue ext.overlayDigest properties step field else properties.get field name := by
  refine .after fun _ => ?_
  refine .bind get_updateReconciledDeployment fun _ hupd => .pure ?_
  intro field hfld name
  have hval := hupd field hfld name
  rw [instanceKey_instanceName] at hval
  rw [Properties.get_setPrevious, hval]
  by_cases hname : name = step.instanceName
  · subst hname
    cases field <;> simp [runtimeValue]
  · simp [hname]

/-- The runtime's record of one step's hold, from its own receipt. -/
def holdRuntimeTarget (planId : String) (observedAt : Int) (properties : Properties)
    (report : StepReport) : Properties :=
  recordRuntimeTarget planId [report.receipt] observedAt properties report.step

theorem holdAfter_of_succeeded (h : report.succeeded) : (report.observation id).holdAfter before =
      if before = some report.step.releaseId then none else before := by
  have hused := report.used
  rw [if_pos h] at hused
  have hlive : report.transition ≠ .unchanged ∧ report.transition ≠ .unknown := by
    rw [hused]
    unfold StepLifecycle.liveTransition
    split <;> simp
  simp [DeploymentObservation.holdAfter, StepReport.observation, h, hlive]

theorem get_holdRuntimeTarget :
    (holdRuntimeTarget id observedAt properties report).get .failedTarget name =
      if name = report.step.product ∧ report.detail ≠ runtimeSkippedDetail then
        (report.observation id).holdAfter (properties.get .failedTarget name)
      else properties.get .failedTarget name := by
  have hfind : [report.receipt].find? (·.stepId = report.step.id) = some report.receipt := by
    simp [StepReport.receipt]
  have hclass : (classifyRuntime report.step.action report.succeeded report.detail).isNone ↔
      report.detail = runtimeSkippedDetail := by
    unfold classifyRuntime
    split <;> simp_all
  unfold holdRuntimeTarget recordRuntimeTarget
  rw [hfind]
  dsimp only [StepReport.receipt]
  rw [if_congr hclass rfl rfl]
  by_cases hskip : report.detail = runtimeSkippedDetail
  · simp [hskip]
  cases hsucc : report.succeeded with
  | false =>
    rw [DeploymentObservation.holdAfter, StepReport.observation, hsucc]
    by_cases hact : report.step.action = .rollback <;>
      by_cases hname : name = report.step.product <;> simp [hact, hname, hskip, Properties.get_set]
  | true =>
    rw [holdAfter_of_succeeded hsucc]
    by_cases hheld : properties.get .failedTarget report.step.product =
        some report.step.releaseId <;>
      by_cases hname : name = report.step.product <;>
        simp [hheld, hname, hskip, Properties.get_remove]

theorem get_holdRuntimeTarget_ne (hfld : isOutcomeField field ∨ field = .overlay)
    (htgt : field ≠ .failedTarget) :
    (holdRuntimeTarget id observedAt properties report).get field name =
      properties.get field name := by
  have hne : field ≠ .failedTargetPlan ∧ field ≠ .failedTargetAt ∧ field ≠ .failedTargetError := by
    refine ⟨?_, ?_, ?_⟩ <;> rintro rfl <;> simp [isOutcomeField] at hfld
  unfold holdRuntimeTarget recordRuntimeTarget
  split
  · rfl
  · split
    · rfl
    · split
      · simp [Properties.get_set, hne, htgt]
      · split
        · simp [Properties.get_remove, hne, htgt]
        · rfl

/-! #### A completion, report by report -/

theorem find_receipt (hmem : report ∈ reports) (hnodup : (reports.map (·.step.id)).Nodup) :
    (reports.map (·.receipt)).find? (·.stepId = report.step.id) = some report.receipt := by
  induction reports with
  | nil => cases hmem
  | cons other reports ih =>
    rw [List.map_cons, List.nodup_cons] at hnodup
    rcases List.mem_cons.mp hmem with rfl | hmem
    · simp [StepReport.receipt]
    · have hne : other.step.id ≠ report.step.id := by
        intro hid
        exact hnodup.1 (hid ▸ List.mem_map_of_mem hmem)
      rw [List.map_cons, List.find?_cons_of_neg (by simp [StepReport.receipt, hne])]
      exact ih hmem hnodup.2

theorem foldl_recordRuntimeTarget {all : List StepReport} (hnodup : (all.map (·.step.id)).Nodup)
    (hsub : ∀ report ∈ reports, report ∈ all) :
    (reports.map (·.step)).foldl (recordRuntimeTarget id (all.map (·.receipt)) observedAt)
      properties =
      reports.foldl (holdRuntimeTarget id observedAt) properties := by
  induction reports generalizing properties with
  | nil => rfl
  | cons report reports ih =>
    have hrep := find_receipt (hsub report (by simp)) hnodup
    have hown : [report.receipt].find? (·.stepId = report.step.id) = some report.receipt := by
      simp [StepReport.receipt]
    rw [List.map_cons, List.foldl_cons, List.foldl_cons,
      ih fun other hoth => hsub other (by simp [hoth])]
    unfold holdRuntimeTarget recordRuntimeTarget
    rw [hrep, hown]

theorem deployedSteps_completion {stored : Plan} {base : RuntimeCompletion}
    (hnodup : (reports.map (·.step.id)).Nodup) :
    (StepReport.completion base reports).deployedSteps (StepReport.plan stored reports) =
      (reports.filter (·.succeeded)).map (·.step) := by
  unfold RuntimeCompletion.deployedSteps
  split
  next hall =>
    have : reports.filter (·.succeeded) = reports :=
      List.filter_eq_self.mpr (List.all_eq_true.mp hall)
    rw [this]
    rfl
  · have hany : ∀ report ∈ reports, ((reports.map (·.receipt)).any fun receipt =>
        receipt.stepId = report.step.id && receipt.succeeded) = report.succeeded := by
      intro report hrep
      have hfind := find_receipt hrep hnodup
      rw [Bool.eq_iff_iff]
      simp only [List.any_map, List.any_eq_true, Function.comp, Bool.and_eq_true, decide_eq_true_eq]
      constructor
      · rintro ⟨other, hoth, hid, hsucc⟩
        have hsame := find_receipt hoth hnodup
        rw [show other.step.id = report.step.id from hid, hfind] at hsame
        have : report.receipt.succeeded = other.receipt.succeeded := by rw [Option.some.inj hsame]
        exact this.trans hsucc
      · intro hsucc
        exact ⟨report, hrep, rfl, hsucc⟩
    unfold StepReport.plan StepReport.completion
    rw [List.filter_map]
    congr 1
    exact List.filter_congr fun report hrep => hany report hrep

variable {env : String} {leased : Bool} {observedAt : Int} {stored plan : Plan}
  {base : RuntimeCompletion} {reports : List StepReport} {report : StepReport}
  {after before : Properties}

theorem completeRuntimeWork_ok (hstate : stored.state.terminal = false)
    (h : completeRuntimeWork ext store env leased observedAt (StepReport.plan stored reports)
      properties (StepReport.completion base reports) = .ok (plan, after)) :
    (reports.map (·.step.id)).Nodup ∧ ∃ updated,
      updateRuntimeDeployments ext store properties ((reports.filter (·.succeeded)).map (·.step)) =
      .ok updated ∧ after = reports.foldl (holdRuntimeTarget stored.id observedAt) updated := by
  obtain ⟨⟨⟩, hvld, h⟩ := Returns.of_bind (Q := fun res => res = (plan, after)) ⟨_, h, rfl⟩
  have hnodup : (reports.map (·.step.id)).Nodup := by
    by_contra hdup
    have hids : ((StepReport.completion base reports).receipts.map (·.stepId)) =
        reports.map (·.step.id) := by
      simp [StepReport.completion, StepReport.receipt, Function.comp_def]
    unfold validateRuntimeCompletion at hvld
    rw [hids] at hvld
    split at hvld
    · cases hvld
    · rw [if_pos (by simp [hdup])] at hvld
      cases hvld
  refine ⟨hnodup, ?_⟩
  have hopen : (StepReport.plan stored reports).state.terminal = false := hstate
  rw [hopen, if_neg (by decide)] at h
  cases leased with
  | true =>
    obtain ⟨res, hres, -⟩ := h
    cases hres
  | false =>
    obtain ⟨updated, hupd, h⟩ := Returns.of_bind h
    rw [deployedSteps_completion hnodup] at hupd
    refine ⟨updated, hupd, ?_⟩
    obtain ⟨res, hres, rfl⟩ := h
    have hst : _ = after := congrArg Prod.snd (Except.ok.inj hres)
    rw [← hst]
    exact foldl_recordRuntimeTarget hnodup fun _ hrep => hrep

theorem get_holds_ne (hfld : isOutcomeField field ∨ field = .overlay)
  (htgt : field ≠ .failedTarget) :
    (reports.foldl (holdRuntimeTarget id observedAt) properties).get field name =
      properties.get field name := by
  induction reports generalizing properties with
  | nil => rfl
  | cons report reports ih => rw [List.foldl_cons, ih, get_holdRuntimeTarget_ne hfld htgt]

/-- Nor do they read it. -/
theorem get_holds_congr {other : Properties}
    (h : properties.get .failedTarget name = other.get .failedTarget name) :
    (reports.foldl (holdRuntimeTarget id observedAt) properties).get .failedTarget name =
      (reports.foldl (holdRuntimeTarget id observedAt) other).get .failedTarget name := by
  induction reports generalizing properties other with
  | nil => exact h
  | cons report reports ih => exact ih (by rw [get_holdRuntimeTarget, get_holdRuntimeTarget, h])

def reportedValue (digest : Option String → String) (planId : String) (report : StepReport)
    (before : Properties) (field : Field) (name : String) : Option String :=
  if field = .failedTarget then
    if name = report.step.product ∧ report.detail ≠ runtimeSkippedDetail then
      (report.observation planId).holdAfter (before.get .failedTarget name)
    else before.get .failedTarget name
  else if report.succeeded ∧ name = report.step.instanceName then
    runtimeValue digest before report.step field
  else before.get field name

/-- A completion with one more report, from the completion without it. -/
theorem get_completeRuntimeWork_append (hstate : stored.state.terminal = false) {plan' : Plan}
    (hbef : completeRuntimeWork ext store env leased observedAt (StepReport.plan stored reports)
      properties (StepReport.completion base reports) = .ok (plan, before))
    (haft : completeRuntimeWork ext store env leased observedAt
      (StepReport.plan stored (reports ++ [report])) properties
      (StepReport.completion base (reports ++ [report])) = .ok (plan', after))
    (hfld : isOutcomeField field ∨ field = .overlay) (name : String) :
    after.get field name = reportedValue ext.overlayDigest stored.id report before field name := by
  obtain ⟨-, updated, hupd, rfl⟩ := completeRuntimeWork_ok hstate hbef
  obtain ⟨-, updated', hupd', rfl⟩ := completeRuntimeWork_ok hstate haft
  rw [List.foldl_append, List.foldl_cons, List.foldl_nil]
  -- the update of the last report, if it succeeded
  have hlast : ∀ field, isOutcomeField field ∨ field = .overlay → ∀ name, updated'.get field name =
        if report.succeeded ∧ name = report.step.instanceName then
          runtimeValue ext.overlayDigest updated report.step field
        else updated.get field name := by
    cases hsucc : report.succeeded with
    | false =>
      rw [List.filter_append, List.filter_cons_of_neg (by simp [hsucc]), List.filter_nil,
        List.append_nil, hupd] at hupd'
      cases hupd'
      simp
    | true =>
      rw [List.filter_append, List.filter_cons_of_pos hsucc, List.filter_nil,
        List.map_append] at hupd'
      simpa using get_updateRuntimeDeployment updated' (last_of_foldlM hupd hupd')
  unfold reportedValue
  by_cases htgt : field = .failedTarget
  · subst htgt
    have hkept : updated'.get .failedTarget name = updated.get .failedTarget name := by
      rw [hlast _ (.inl rfl)]
      split
      next h => rw [h.2]; rfl
      · rfl
    rw [if_pos rfl, get_holdRuntimeTarget, get_holds_congr hkept]
  · rw [if_neg htgt, get_holdRuntimeTarget_ne hfld htgt, get_holds_ne hfld htgt,
      hlast field hfld, get_holds_ne hfld htgt]
    congr 1
    cases field <;>
      simp_all [runtimeValue, Properties.stampedConfig, Properties.overlayDigestFor, get_holds_ne,
        isOutcomeField]

end Runtime

/-! #### The two records -/

section Records

variable {ext : DeliveryExternals} {store : ReleaseStore} {properties : Properties}
  {id : String} {names : List String} {reports : List StepReport} {report : StepReport}
  {server runtime server' runtime' : Properties}

/-- A restart keeps the version before, unless its step names another. -/
theorem previous_restarted {v : Option String} {target : String} :
    before = (v.filter (· != target) <|> before) ↔
      ∀ previous, v = some previous → previous ≠ target → before = some previous := by
  cases v with
  | none => simp
  | some v =>
    by_cases htgt : v = target
    · simp [Option.filter, htgt]
    · simp [Option.filter, htgt]

/-- The version before is the one the step names, unless it names the version it moves to. -/
theorem previous_moved {v : Option String} {target : String} :
    (v <|> before) = (v.filter (· != target) <|> before) ↔
      (v = some target → before = some target) := by
  cases v with
  | none => simp
  | some v =>
    by_cases htgt : v = target
    · simp [Option.filter, htgt, eq_comm]
    · simp [Option.filter, htgt]

/-- A report says the same of states that agree on the instances and on the overlays. -/
theorem reportedValue_congr {digest : Option String → String} (hagree : Agree names server runtime)
    (hinst : report.step.instanceName ∈ names)
    (hover : ∀ prod, server.get .overlay prod = runtime.get .overlay prod)
    (hname : name ∈ names) (hfld : isOutcomeField field) :
    reportedValue digest id report runtime field name =
      reportedValue digest id report server field name := by
  unfold reportedValue
  rw [hagree name hname field hfld, hagree name hname .failedTarget rfl]
  congr 2
  cases field <;>
    simp_all [runtimeValue, isOutcomeField, Properties.stampedConfig, Properties.overlayDigestFor,
      hagree report.step.instanceName hinst .deployedPrev rfl,
      hagree report.step.instanceName hinst .failedTarget rfl]

/-- On one state, the server's value and the runtime's are the same exactly if the report is
    alike. -/
theorem forall_value_iff {digest : Option String → String}
    (hinst : report.step.instanceName ∈ names) :
    (∀ name ∈ names, ∀ field, isOutcomeField field →
      (if name = report.step.instanceName then (report.observation id).valueAfter digest server
      field else server.get field name) = reportedValue digest id report server field name) ↔
      Alike names digest id report server := by
  have hused := report.used
  constructor
  · intro h
    have hval := h _ hinst
    simp only [if_true] at hval
    refine ⟨?_, ?_, ?_, ?_, ?_⟩
    · intro hsucc hact
      rw [if_pos hsucc, StepLifecycle.liveTransition, if_pos hact] at hused
      have hdepl := hval .deployed rfl
      have hrel := hval .deployedRelease rfl
      have hprev := hval .deployedPrev rfl
      simp only [DeploymentObservation.valueAfter, StepReport.observation, hused, reportedValue,
        hsucc, runtimeValue, DeploymentTransition.deployedAfter,
        DeploymentTransition.releaseAfter, DeploymentTransition.previousAfter, reduceCtorEq,
        if_false, and_self, if_true] at hdepl hrel hprev
      exact ⟨hdepl, hrel, previous_restarted.mp hprev⟩
    · intro hsucc hact
      rw [if_pos hsucc, StepLifecycle.liveTransition, if_neg hact] at hused
      have hprev := hval .deployedPrev rfl
      simp only [DeploymentObservation.valueAfter, StepReport.observation, hused, reportedValue,
        hsucc, runtimeValue, DeploymentTransition.previousAfter, reduceCtorEq, if_false,
        and_self, if_true] at hprev
      exact previous_moved.mp hprev
    · intro hfail field hfld htgt
      rw [hval field hfld]
      simp [reportedValue, htgt, hfail]
    · intro helsewhere
      have hhold := hval .failedTarget rfl
      simp only [DeploymentObservation.valueAfter, reportedValue, if_true] at hhold
      rwa [if_neg (by tauto)] at hhold
    · intro hne hran hprod
      have hhold := h _ hprod .failedTarget rfl
      rw [if_neg hne.symm, reportedValue, if_pos rfl, if_pos ⟨rfl, hran⟩] at hhold
      exact hhold.symm
  · intro h name hname field hfld
    by_cases htgt : field = .failedTarget
    · subst htgt
      rw [reportedValue, if_pos rfl]
      by_cases hown : name = report.step.instanceName
      · subst hown
        rw [if_pos rfl]
        split
        · rfl
        next helsewhere => exact h.held (by tauto)
      · rw [if_neg hown]
        split
        next hheld =>
          obtain ⟨rfl, hran⟩ := hheld
          exact (h.heldProduct (.symm hown) hran hname).symm
        · rfl
    · rw [reportedValue, if_neg htgt]
      by_cases hown : name = report.step.instanceName
      · subst hown
        rw [if_pos rfl]
        cases hsucc : report.succeeded with
        | false => exact h.failed hsucc field hfld htgt
        | true =>
          rw [if_pos hsucc] at hused
          by_cases hact : report.step.action = .restart
          · rw [StepLifecycle.liveTransition, if_pos hact] at hused
            obtain ⟨hdepl, hrel, hprev⟩ := h.restarted hsucc hact
            simp only [DeploymentObservation.valueAfter, DeploymentObservation.configAfter,
              StepReport.observation, hused]
            cases field with
            | deployed => exact hdepl
            | deployedRelease => exact hrel
            | deployedPrev => exact previous_restarted.mpr hprev
            | deploymentHealth | appliedConfig => rfl
            | failedTarget => exact absurd rfl htgt
            | _ => cases hfld
          · rw [StepLifecycle.liveTransition, if_neg hact] at hused
            simp only [DeploymentObservation.valueAfter, DeploymentObservation.configAfter,
              StepReport.observation, hused]
            cases field with
            | deployed | deployedRelease | deploymentHealth | appliedConfig => rfl
            | deployedPrev => exact previous_moved.mpr (h.moved hsucc hact)
            | failedTarget => exact absurd rfl htgt
            | _ => cases hfld
      · rw [if_neg hown, if_neg (by simp [hown])]

end Records

/-! #### Step after step -/

section Run

variable {ext : DeliveryExternals} {store : ReleaseStore} {env : String} {leased : Bool}
  {observedAt : Int} {stored : Plan} {base : RuntimeCompletion} {properties : Properties}
  {reports : List StepReport} {server runtime : Nat → Properties} {k : Nat} {report : StepReport}

theorem take_succ_of_getElem? (hrep : reports[k]? = some report) :
    reports.take (k + 1) = reports.take k ++ [report] := by
  rw [List.take_add_one, hrep, Option.toList_some]

theorem succ_le_of_getElem? (hrep : reports[k]? = some report) : k + 1 ≤ reports.length :=
    (List.getElem?_eq_some_iff.mp hrep).1

section Recorded

variable
  (hserver : ∀ k ≤ reports.length,
    recordSteps ext store stored.id properties (reports.take k) = .ok (server k))
  (hstate : stored.state.terminal = false)
  (hruntime : ∀ k ≤ reports.length, ∃ plan,
    completeRuntimeWork ext store env leased observedAt
      (StepReport.plan stored (reports.take k)) properties
      (StepReport.completion base (reports.take k)) = .ok (plan, runtime k))

include hserver

theorem get_server_succ (hrep : reports[k]? = some report)
    (hfld : isOutcomeField field ∨ field = .overlay) (name : String) :
    (server (k + 1)).get field name = if name = report.step.instanceName then
      (report.observation stored.id).valueAfter ext.overlayDigest (server k) field
        else (server k).get field name := by
  have hk := succ_le_of_getElem? hrep
  have haft := hserver (k + 1) hk
  rw [take_succ_of_getElem? hrep] at haft
  have hlast := last_of_foldlM (hserver k (Nat.le_of_succ_le hk)) haft
  obtain ⟨deps, -, hobs⟩ := Returns.of_bind (Q := fun res => res = server (k + 1)) ⟨_, hlast, rfl⟩
  obtain ⟨_, ⟨⟩, hobs⟩ := hobs
  rw [← hobs]
  exact Properties.get_observe_outcome hfld _ _ _ _

include hstate hruntime

omit hserver in
theorem get_runtime_succ (hrep : reports[k]? = some report)
    (hfld : isOutcomeField field ∨ field = .overlay) (name : String) :
    (runtime (k + 1)).get field name =
      reportedValue ext.overlayDigest stored.id report (runtime k) field name := by
  have hk := succ_le_of_getElem? hrep
  obtain ⟨plan, hbef⟩ := hruntime k (Nat.le_of_succ_le hk)
  obtain ⟨plan', haft⟩ := hruntime (k + 1) hk
  rw [take_succ_of_getElem? hrep] at haft
  exact get_completeRuntimeWork_append hstate hbef haft hfld name

theorem server_zero_eq : server 0 = runtime 0 := by
  obtain ⟨plan, hruntime⟩ := hruntime 0 (Nat.zero_le _)
  obtain ⟨-, updated, hupd, haft⟩ := completeRuntimeWork_ok hstate hruntime
  rw [haft]
  have hserver := hserver 0 (Nat.zero_le _)
  exact Except.ok.inj (hserver.symm.trans hupd)

theorem get_overlay_eq (hk : k ≤ reports.length) (product : String) :
    (server k).get .overlay product = (runtime k).get .overlay product := by
  induction k with
  | zero => rw [server_zero_eq hserver hstate hruntime]
  | succ k ih =>
    obtain ⟨report, hrep⟩ : ∃ report, reports[k]? = some report := ⟨_, List.getElem?_eq_getElem hk⟩
    have hkept := ih (Nat.le_of_succ_le hk)
    have hserver_kept : (server (k + 1)).get .overlay product =
        (server k).get .overlay product := by
      rw [get_server_succ hserver hrep (.inr rfl)]
      split
      next hname => rw [hname]; rfl
      · rfl
    have hruntime_kept : (runtime (k + 1)).get .overlay product =
        (runtime k).get .overlay product := by
      rw [get_runtime_succ hstate hruntime hrep (.inr rfl), reportedValue, if_neg (by decide)]
      split
      next hname => rw [hname.2]; rfl
      · rfl
    rw [hserver_kept, hruntime_kept, hkept]

end Recorded

/-- Server and runtime record the same outcome of a plan, and of what was executed of it up to
    any of its steps, exactly if every step is alike in the state before it. -/
theorem records_agree_iff (ext : DeliveryExternals) (store : ReleaseStore) (environment : String)
    (leased : Bool) (observedAt : Int) (stored : Plan) (base : RuntimeCompletion)
    (properties : Properties) (reports : List StepReport) (server runtime : Nat → Properties)
    (hstate : stored.state.terminal = false)
    (hserver : ∀ k ≤ reports.length,
      recordSteps ext store stored.id properties (reports.take k) = .ok (server k))
    (hruntime : ∀ k ≤ reports.length, ∃ plan,
      completeRuntimeWork ext store environment leased observedAt
        (StepReport.plan stored (reports.take k)) properties
          (StepReport.completion base (reports.take k)) = .ok (plan, runtime k)) :
    (∀ k ≤ reports.length, Agree (StepReport.instances reports) (server k) (runtime k)) ↔
      ∀ k report, reports[k]? = some report →
        Alike (StepReport.instances reports) ext.overlayDigest stored.id report (server k) := by
  have hiff : ∀ k (report : StepReport), reports[k]? = some report →
      Agree (StepReport.instances reports) (server k) (runtime k) →
      (Agree (StepReport.instances reports) (server (k + 1)) (runtime (k + 1)) ↔
        Alike (StepReport.instances reports) ext.overlayDigest stored.id report (server k)) := by
    intro k report hreport hagree
    have hinstance : report.step.instanceName ∈ StepReport.instances reports :=
      List.mem_map_of_mem (List.mem_of_getElem? hreport)
    have hk := succ_le_of_getElem? hreport
    rw [← forall_value_iff hinstance]
    refine forall_congr' fun name => forall_congr' fun hname => forall_congr' fun field =>
      forall_congr' fun hfield => ?_
    rw [get_server_succ hserver hreport (.inl hfield),
      get_runtime_succ hstate hruntime hreport (.inl hfield), reportedValue_congr hagree hinstance
        (get_overlay_eq hserver hstate hruntime (Nat.le_of_succ_le hk)) hname hfield]
  constructor
  · intro hagree k report hreport
    have hk := succ_le_of_getElem? hreport
    exact (hiff k report hreport (hagree k (Nat.le_of_succ_le hk))).mp (hagree (k + 1) hk)
  · intro halike k
    -- what is recorded of one more step agrees if all before it agrees
    induction k with
    | zero =>
      intro _ name _ field _
      rw [server_zero_eq hserver hstate hruntime]
    | succ k ih =>
      intro hk
      obtain ⟨report, hreport⟩ : ∃ report, reports[k]? = some report :=
        ⟨_, List.getElem?_eq_getElem hk⟩
      exact (hiff k report hreport (ih (Nat.le_of_succ_le hk))).mpr (halike k report hreport)

end Run

/-! #### Two plans of one step -/

open StepLifecycle (webStep samplePlan liveTransition)

def plainDelivery : DeliveryExternals where
  semver := ⟨fun _ => none, fun _ _ => false⟩
  overlayDigest := fun overlays => overlays.getD ""
  documentDigest := fun _ => ""
  validateIdentifier := fun _ _ => .ok ()

/-- Every release is published, without a profile. -/
def plainStore : ReleaseStore := fun _ => .stored ⟨.software, false, false, true, none⟩ true

def namedStep (inst : String) (action : Action) (fromVersion : Option String)
    (toVersion : String) : Step :=
  { webStep action fromVersion toVersion none with «instance» := inst }

def upgradeReport : StepReport where
  step := webStep .upgrade (some "1.0") "2.0" none
  hostless := rfl
  succeeded := true
  detail := ""
  transition := .deployed "2.0" (some "1.0")
  used := rfl
  attempt := ""
  observedAt := 0

/-- The upgrade of the instance `web-eu` failed and was cleaned up. -/
def failedUpgradeReport : StepReport where
  step := namedStep "web-eu" .upgrade (some "1.0") "2.0"
  hostless := rfl
  succeeded := false
  detail := "activation failed"
  transition := .unchanged
  used := by decide
  attempt := ""
  observedAt := 0

def emptyCompletion : RuntimeCompletion := ⟨"tenkai:plan:web", 1, false, "", []⟩

def returned (result : Except String Properties) : Properties :=
  match result with
  | .ok properties => properties
  | .error _ => ∅

def recordedByServer (reports : List StepReport) : Except String Properties :=
  recordSteps plainDelivery plainStore samplePlan.id ∅ reports

def recordedByRuntime (reports : List StepReport) : Except String (Plan × Properties) :=
  completeRuntimeWork plainDelivery plainStore "prod" false 0
    (StepReport.plan samplePlan reports) ∅ (StepReport.completion emptyCompletion reports)

/-- The upgrade is recorded alike, at every point of its plan. -/
theorem records_agree_upgrade :
    samplePlan.state.terminal = false ∧
      ∀ k ≤ 1, Agree ["web"] (returned (recordedByServer ([upgradeReport].take k)))
        (returned ((recordedByRuntime ([upgradeReport].take k)).map (·.2))) := by
  refine ⟨rfl, ?_⟩
  refine (records_agree_iff plainDelivery plainStore "prod" false 0 samplePlan emptyCompletion ∅
    [upgradeReport] _ _ rfl ?_ ?_).mpr ?_
  · intro k hk
    have hk : k = 0 ∨ k = 1 := by simp at hk; omega
    rcases hk with rfl | rfl <;> rfl
  · intro k hk
    have hk : k = 0 ∨ k = 1 := by simp at hk; omega
    rcases hk with rfl | rfl <;> exact ⟨_, rfl⟩
  · intro k report hreport
    have hk : k = 0 := by
      have := (List.getElem?_eq_some_iff.mp hreport).1
      simp at this
      exact this
    subst hk
    cases hreport
    exact {
      restarted := nofun
      moved := fun _ _ hsame => absurd hsame (by decide)
      failed := by rintro ⟨⟩
      held := fun h => absurd h (by decide)
      heldProduct := fun h => absurd rfl h }

/-- The server holds the failed release for `web-eu`, the runtime for `web`. -/
theorem failed_upgrade_records_differ :
    ∃ server plan runtime, recordedByServer [failedUpgradeReport] = .ok server ∧
      recordedByRuntime [failedUpgradeReport] = .ok (plan, runtime) ∧
      server.get .failedTarget "web-eu" = some "tenkai:release:web@2.0" ∧
      runtime.get .failedTarget "web-eu" = none ∧
      runtime.get .failedTarget "web" = some "tenkai:release:web@2.0" ∧
      ¬ Agree ["web-eu"] server runtime := by
  refine ⟨_, _, _, rfl, rfl, by decide, by decide, by decide, fun hagree => ?_⟩
  have hheld := hagree "web-eu" (by simp) .failedTarget rfl
  revert hheld
  decide

end Tenkai
