import Tenkai.Prog
import Tenkai.Plan
import Mathlib.Algebra.Ring.Nat

/-!
# Release waves

`wave/execution.rs`: a wave takes a cohort of environments through one release, one plan after the
other. It keeps no cursor: every call loads the record and derives from the statuses what to do
next. The state also keeps what happened so far. Plans may be finished by others; calls do not
overlap, and may crash between any two operations.
-/

namespace Tenkai.Wave

open Prog (bailIf)

inductive FailPolicy
  | stopOnFailure
  | continueAfterFailure
  deriving DecidableEq

inductive Status
  | admitted
  | running
  | awaitingApproval
  | succeeded
  | failed
  | stopped
  | rollingBack
  | rolledBack
  | recoveryRequired
  deriving DecidableEq

def Status.isTerminal : Status → Bool
  | .succeeded | .failed | .rolledBack | .recoveryRequired => true
  | .admitted | .running | .awaitingApproval | .stopped | .rollingBack => false

inductive EnvironmentStatus
  | unstarted
  | running
  | awaitingApproval
  | succeeded
  | failed
  | blocked
  | skipped
  | rolledBack
  deriving DecidableEq

def EnvironmentStatus.isComplete : EnvironmentStatus → Bool
  | .succeeded | .failed | .blocked | .skipped | .rolledBack => true
  | .unstarted | .running | .awaitingApproval => false

/-- The statuses that stop a wave or count as its failure. -/
def EnvironmentStatus.isFailure : EnvironmentStatus → Bool
  | .failed | .blocked => true
  | _ => false

structure EnvironmentRecord where
  environment : String
  order : Nat
  status : EnvironmentStatus
  planId : Option String
  gateResult : Option String
  healthResult : Option String
  terminalOutcome : Option String
  detail : String

structure Spec where
  name : String
  product : String
  version : String
  channel : String
  environments : List String
  failPolicy : FailPolicy
  deriving DecidableEq

/-- The release a wave is pinned to. -/
structure Pin where
  releaseId : String
  releaseDigest : String
  artifactDigest : String
  deriving DecidableEq

structure Record where
  spec : Spec
  pin : Pin
  status : Status
  environments : List EnvironmentRecord
  currentOrder : Nat
  operatorDecision : Option String

def Record.modify (record : Record) (index : Nat) (f : EnvironmentRecord → EnvironmentRecord) :
    Record :=
  { record with environments := record.environments.modify index f }

theorem Record.getElem?_modify (r : Record) (k : Nat)
    (f : EnvironmentRecord → EnvironmentRecord) (j : Nat) :
    (r.modify k f).environments[j]? = r.environments[j]?.map fun environment => if k =
      j then f environment else environment :=
  List.getElem?_modify f k r.environments j

variable {rec : Record}

theorem Record.mem_modify {k : Nat} {f : EnvironmentRecord → EnvironmentRecord}
    {env : EnvironmentRecord} (h : env ∈ (rec.modify k f).environments) :
    env ∈ rec.environments ∨ ∃ old, rec.environments[k]? = some old ∧ env = f old := by
  obtain ⟨j, hj⟩ := List.mem_iff_getElem?.mp h
  rw [Record.getElem?_modify] at hj
  obtain ⟨old, hold, rfl⟩ := Option.map_eq_some_iff.mp hj
  by_cases hindex : k = j
  · subst hindex
    exact .inr ⟨old, hold, if_pos rfl⟩
  · rw [if_neg hindex]
    exact .inl (List.mem_of_getElem? hold)

def isRollback (plan : Plan) : Bool := plan.steps.any fun step => step.action = .rollback

/-! ### Status of the wave -/

def applyFailPolicy (record : Record) (failedOrder : Nat) : Record :=
  match record.spec.failPolicy with
  | .stopOnFailure =>
    { record with
      environments := record.environments.map fun environment =>
        if failedOrder < environment.order ∧ environment.status = .unstarted then
          { environment with status := .skipped, detail := "skipped after earlier wave failure" }
        else environment
      status := .failed
      operatorDecision := some "stop_on_failure" }
  | .continueAfterFailure =>
    if record.environments.all fun environment => environment.status.isComplete then
      { record with status := .failed }
    else
      { record with status := .running }

def refreshWaveStatus (record : Record) : Record :=
  if record.status = .stopped ∨ record.status = .rolledBack ∨
      record.status = .recoveryRequired then
    record
  else if record.environments.any fun environment => environment.status = .awaitingApproval then
    { record with status := .awaitingApproval }
  else if record.environments.all fun environment => environment.status.isComplete then
    if record.environments.any fun environment => environment.status.isFailure then
      { record with status := .failed }
    else
      { record with status := .succeeded }
  else
    { record with status := .running }

/-- What the wave notes about a plan that ended. -/
structure Evidence where
  gate : String
  health : String
  terminal : String
  status : EnvironmentStatus
  detail : String

/-- The loop of `evidence_from_outcomes` over the step outcomes. -/
def outcomeEvidence (plan : Plan) : List Outcome → Evidence → Evidence
  | [], evidence => evidence
  | outcome :: outcomes, evidence =>
    outcomeEvidence plan outcomes <|
      match outcome.status with
      | .blocked =>
        { evidence with
          gate := if outcome.detail.startsWith "gate " then "blocked" else evidence.gate
          health := "not_run", status := .blocked, detail := outcome.detail }
      | .failed | .rolledBack =>
        { evidence with
          health := "failed_or_unknown", status := .failed, detail := outcome.detail }
      | .succeeded => evidence

/-- `evidence_from_outcomes`: the plan's own state has the last word on the status. -/
def evidenceFromOutcomes (plan : Plan) (outcomes : List Outcome) : Except String Evidence :=
  let evidence := outcomeEvidence plan outcomes
    { gate := "satisfied", health := "passed_or_not_configured", terminal := toString plan.state
      status := .succeeded, detail := plan.statusDetail }
  match plan.state with
  | .succeeded => .ok { evidence with status := .succeeded }
  | .blocked => .ok { evidence with
      status := .blocked
      gate := if evidence.gate = "satisfied" then "blocked" else evidence.gate
      health := "not_run" }
  | .failed => .ok { evidence with
      status := .failed
      health := if evidence.health = "passed_or_not_configured" then "failed_or_unknown"
        else evidence.health }
  | .running | .computed =>
    .error s!"plan {plan.id} is {plan.state} after apply; wave {plan.environment} requires terminal evidence"

def endedStatus : PlanState → EnvironmentStatus
  | .succeeded => .succeeded
  | .blocked => .blocked
  | _ => .failed

theorem evidenceFromOutcomes_status {plan : Plan} {outcomes : List Outcome} {ev : Evidence}
    (h : evidenceFromOutcomes plan outcomes = .ok ev) :
    (plan.state = .succeeded ∨ plan.state = .blocked ∨ plan.state = .failed) ∧
      ev.status = endedStatus plan.state := by
  unfold evidenceFromOutcomes at h
  cases hsta : plan.state <;> simp only [hsta] at h <;> cases h <;> simp [endedStatus]

def Record.noteEvidence (record : Record) (index : Nat) (evidence : Evidence) : Record :=
  record.modify index fun environment => { environment with
    gateResult := some evidence.gate
    healthResult := some evidence.health
    terminalOutcome := some evidence.terminal
    status := evidence.status
    detail := evidence.detail }

/-- The wave's own status after an environment got a new one. -/
def settleStatus (record : Record) (order : Nat) (status : EnvironmentStatus) : Record :=
  if status.isFailure then applyFailPolicy record order else refreshWaveStatus record

/-! ### The shared state and its operations -/

/-- One plan the wave executed: for the environment at `index`, with the statuses the
    stored record then had. -/
structure Execution where
  index : Nat
  planId : String
  rollback : Bool
  statuses : List EnvironmentStatus
  deriving DecidableEq

/-- The stored plans, each under its own id. -/
structure Plans where
  find : String → Option Plan
  keyed : ∀ id plan, find id = some plan → plan.id = id

instance : CoeFun Plans fun _ => String → Option Plan := ⟨Plans.find⟩

def Plans.put (plans : Plans) (plan : Plan) : Plans where
  find := Function.update plans plan.id (some plan)
  keyed := by
    intro id stored h
    by_cases hid : id = plan.id
    · subst hid
      rw [Function.update_self] at h
      rw [← Option.some.inj h]
    · rw [Function.update_of_ne hid] at h
      exact plans.keyed id stored h

@[simp] theorem Plans.put_apply (plans : Plans) (plan : Plan) (id : String) :
    plans.put plan id = if id = plan.id then some plan else plans id :=
  Function.update_apply plans.find plan.id (some plan) id

structure World where
  wave : Option Record
  plans : Plans
  /-- The plans the wave executed, in order. -/
  executions : List Execution
  /-- The plans of the wave that succeeded, in order: the environment, and whether the
      plan was a rollback. -/
  successes : List (String × Bool)
  /-- Whether the wave was ever stored as rolling back. -/
  rollbackBegun : Bool

/-- What is decided outside the shared state. -/
inductive Question
  | identifiersValid
  | continueAdmitted (environment : String)
  | resolveReleasePin
  | admitEnvironment (environment : String)
  | revalidateEnvironment (environment : String)
  | signedApproval (planId : String)
  | claimTopologyLeases (planId : String)
  | inspectEnvironmentLease (environment : String)
  deriving DecidableEq

def Question.Answer : Question → Type
  | .resolveReleasePin => Pin
  | .signedApproval _ => Bool
  | _ => Unit

/-- What the planner comes up with. -/
structure Draft where
  fault : Fault
  id : String
  contentId : String
  createdAt : Int
  inputs : List DesiredStateInput
  steps : List Step

/-- How the execution of a plan ended. -/
structure Ending where
  state : PlanState
  detail : String
  result : Except String (List Outcome)

inductive Op
  | decide (question : Question)
  | loadWave
  | createWave (record : Record)
  | persist (record : Record)
  | loadPlan (id : String)
  | createPlan (environment : String)
  | rollbackStep (environment product : String)
  | createFromSteps (environment : String) (steps : List Step)
  | executePlan (index : Nat) (id : String)
  /-- Somebody else brings a plan to another state. -/
  | changePlan (id : String) (state : PlanState)

def Op.Choice : Op → Type
  | .decide question => Except String question.Answer
  | .createPlan _ | .createFromSteps _ _ => Draft
  | .rollbackStep _ _ => Except String Step
  | .executePlan _ _ => Ending
  | .loadWave | .createWave _ | .persist _ | .loadPlan _ | .changePlan _ _ => Fault

def Op.Reply : Op → Type
  | .decide question => Except String question.Answer
  | .loadWave => Except String (Option Record)
  -- whether the record was created, or one was there
  | .createWave _ => Except String Bool
  | .persist _ | .changePlan _ _ => Except String Unit
  | .loadPlan _ | .createPlan _ | .createFromSteps _ _ => Except String Plan
  | .rollbackStep _ _ => Except String Step
  | .executePlan _ _ => Except String (List Outcome)

abbrev interface : Interface where
  Op := Op
  Choice := Op.Choice
  Reply := Op.Reply

def unavailable : String := "store unavailable"

def World.storeWave (w : World) (record : Record) : World :=
  { w with
    wave := some record
    rollbackBegun := w.rollbackBegun || record.status = .rollingBack }

def World.putPlan (w : World) (plan : Plan) : World :=
  { w with plans := w.plans.put plan }

/-- `assemble_plan`: steps are numbered and named after their plan. -/
def assemblePlan (draft : Draft) (environment : String) (inputs : List DesiredStateInput)
    (steps : List Step) : Plan :=
  { id := draft.id, contentId := draft.contentId, environment, createdAt := draft.createdAt
    inputs
    steps := steps.mapIdx fun order step => { step with order, id := s!"{draft.id}:step:{order}" }
    state := .computed, gatesSkipped := none, statusDetail := "", maintenanceBlocked := false
    recalledRecoveryReason := none }

/-- `plan::store` of a new plan: a plan already there must validate. -/
def storeNew (draft : Draft) (plan : Plan) (w : World) : Except String Plan × World :=
  draft.fault.run unavailable w <|
    match w.plans plan.id with
    | none => (.ok plan, w.putPlan plan)
    | some stored =>
      match validatedPlanObject stored plan with
      | .ok () => (.ok plan, w.putPlan plan)
      | .error message => (.error message, w)

/-- A plan of the wave comes to its state; a success is remembered. -/
def World.setPlanState (w : World) (plan : Plan) (state : PlanState) (detail : String) : World :=
  { w.putPlan { plan with state, statusDetail := detail } with
    successes :=
      if state = .succeeded then w.successes ++ [(plan.environment, isRollback plan)]
      else w.successes }

/-- The state after a plan was executed for the environment at `index`. -/
def World.executed (w : World) (index : Nat) (id : String) (plan : Plan) (ending : Ending) :
    World :=
  { w.setPlanState plan ending.state ending.detail with
    executions := w.executions ++
      [⟨index, id, isRollback plan,
        w.wave.elim [] fun record => record.environments.map (·.status)⟩] }

def World.records (w : World) (id : String) : Bool :=
  w.wave.any fun record => record.environments.any fun environment => environment.planId = some id

def exec : Exec interface World
  | .decide _, answer, w => (answer, w)
  | .loadWave, fault, w => fault.run unavailable w (.ok w.wave, w)
  | .createWave record, fault, w => fault.run unavailable w <|
      match w.wave with
      | some _ => (.ok false, w)
      | none => (.ok true, w.storeWave record)
  | .persist record, fault, w =>
    fault.run unavailable w (.ok (), w.storeWave record)
  | .loadPlan id, fault, w => fault.run unavailable w <|
      match w.plans id with
      | some plan => (.ok plan, w)
      | none => (.error s!"plan {id} not found", w)
  | .createPlan environment, draft, w =>
    storeNew draft (assemblePlan draft environment draft.inputs draft.steps) w
  | .rollbackStep _ _, step, w => (step.map fun step => { step with action := .rollback }, w)
  | .createFromSteps environment steps, draft, w =>
    storeNew draft (assemblePlan draft environment [] steps) w
  | .executePlan index id, ending, w =>
    match w.plans id with
    | none => (.error s!"plan {id} not found", w)
    | some plan =>
      if plan.state = .computed ∨ plan.state = .blocked then
        (ending.result, w.executed index id plan ending)
      else
        (.error s!"plan {id} is {plan.state}, only computed or blocked plans can be applied", w)
  | .changePlan id state, fault, w => fault.run unavailable w <|
      match w.plans id with
      | none => (.error s!"plan {id} not found", w)
      | some plan =>
        if w.records id ∧ plan.state ≠ state then
          (.ok (), w.setPlanState plan state plan.statusDetail)
        else
          (.ok (), w.putPlan { plan with state })

/-! ### Calls -/

abbrev M : Type → Type := ExceptT String (Prog interface)

def request (op : Op) : Prog interface op.Reply := .ask op .done

def M.decide (question : Question) : M question.Answer := ExceptT.mk (request (.decide question))

def M.createWave (record : Record) : M Bool := ExceptT.mk (request (.createWave record))

def M.persist (record : Record) : M Unit := ExceptT.mk (request (.persist record))

def M.loadPlan (id : String) : M Plan := ExceptT.mk (request (.loadPlan id))

def M.createPlan (environment : String) : M Plan := ExceptT.mk (request (.createPlan environment))

def M.rollbackStep (environment product : String) : M Step :=
  ExceptT.mk (request (.rollbackStep environment product))

def M.createFromSteps (environment : String) (steps : List Step) : M Plan :=
  ExceptT.mk (request (.createFromSteps environment steps))

def M.executePlan (index : Nat) (id : String) : M (List Outcome) :=
  ExceptT.mk (request (.executePlan index id))

def M.changePlan (id : String) (state : PlanState) : M Unit :=
  ExceptT.mk (request (.changePlan id state))

/-- The result of `x` as a value, for code that looks at it before it returns. -/
def M.caught {α : Type} (x : M α) : M (Except String α) := ExceptT.lift x.run

open M

def findWave : M (Option Record) := ExceptT.mk (request .loadWave)

def loadWave : M Record := do
  match ← findWave with
  | some record => return record
  | none => throw "wave is not registered"

inductive Authorization
  | signed
  | localDevelopment
  deriving DecidableEq

/-- Whether the plan may execute: false when its signed approval is missing. -/
def authorizePlan (authorization : Authorization) (environment planId : String) : M Bool := do
  match authorization with
  | .localDevelopment =>
    bailIf (environment ≠ "local")
      "unapproved development execution is restricted to the built-in local environment"
    return true
  | .signed => decide (.signedApproval planId)

/-! #### Admission -/

def admittedRecord (spec : Spec) (pin : Pin) : Record :=
  { spec, pin, status := .admitted
    environments := spec.environments.mapIdx fun index environment =>
      { environment, order := index % 2 ^ 32, status := .unstarted, planId := none
        gateResult := none, healthResult := none, terminalOutcome := none, detail := "" }
    currentOrder := 0, operatorDecision := none }

def validateSpec (spec : Spec) : M Unit := do
  decide .identifiersValid
  bailIf (spec.environments.isEmpty) "wave cohort must not be empty"
  bailIf (¬ spec.environments.Nodup) "wave cohort contains duplicate environment"

def forEach (question : String → Question) : List String → M Unit
  | [] => pure ()
  | environment :: environments => do
    let _ ← decide (question environment)
    forEach question environments

/-- The identity digest covers the spec and the pin. -/
def requireIdentity (loaded : Record) (spec : Spec) (pin : Pin) : M Record := do
  bailIf (loaded.spec ≠ spec ∨ loaded.pin ≠ pin)
    s!"wave {spec.name} already exists with a conflicting identity (cohort, release, channel, or policy changed)"
  return loaded

/-- `refuse_continue_after_failure`: an environment may be too critical for a wave that
    continues after a failure. -/
def requireContinue (spec : Spec) : M Unit :=
  match spec.failPolicy with
  | .stopOnFailure => pure ()
  | .continueAfterFailure => forEach .continueAdmitted spec.environments

def startOrResume (spec : Spec) : M Record := do
  validateSpec spec
  requireContinue spec
  let pin ← decide .resolveReleasePin
  match ← findWave with
  | some loaded => requireIdentity loaded spec pin
  | none =>
    forEach .admitEnvironment spec.environments
    let record := admittedRecord spec pin
    if ← createWave record then
      return record
    requireIdentity (← loadWave) spec pin

/-! #### Advance -/

def planPinsWave (plan : Plan) (record : Record) : M Unit := do
  match plan.inputs.find? fun input => input.product = record.spec.product with
  | none =>
    bailIf (¬ plan.steps.any fun step => step.product = record.spec.product)
      s!"plan {plan.id} does not pin product {record.spec.product} required by wave {record.spec.name}"
  | some input =>
    bailIf (input.releaseId ≠ record.pin.releaseId ∨
        input.releaseDigest ≠ record.pin.releaseDigest ∨
        input.artifactDigest ≠ record.pin.artifactDigest ∨
        input.desiredVersion ≠ record.spec.version ∨ input.channel ≠ record.spec.channel)
      s!"plan {plan.id} does not pin wave {record.spec.name} release {record.pin.releaseId}"
    match plan.steps.find? fun step => step.product ≠ record.spec.product with
    | some other =>
      throw s!"wave {record.spec.name} refuses plan {plan.id} because it also mutates product {other.product}; converge that product separately"
    | none => return ()

def endedEvidence (plan : Plan) : Evidence :=
  match evidenceFromOutcomes plan [] with
  | .ok evidence => evidence
  | .error _ =>
    { gate := "unknown", health := "unknown", terminal := toString plan.state
      status := endedStatus plan.state, detail := plan.statusDetail }

/-- `resume_existing_plan`: the record to return when the recorded plan already ended or
    is still running; nothing when the wave goes on with it. -/
def resumeExistingPlan (record : Record) (index : Nat) (environment : EnvironmentRecord) :
    M (Option Record) := do
  match environment.planId with
  | none => return none
  | some planId =>
    let plan ← loadPlan planId
    match plan.state with
    | .succeeded | .failed | .blocked =>
      let evidence := endedEvidence plan
      let next := settleStatus (record.noteEvidence index evidence) environment.order
        evidence.status
      persist next
      return some next
    | .running =>
      let next := { record.modify index fun environment => { environment with
          status := .running
          detail := "plan is running after restart; reconcile the environment before resuming the wave" }
        with status := .recoveryRequired }
      persist next
      return some next
    | .computed => return none

def capturePlanEvidence (record : Record) (index : Nat) (environment : EnvironmentRecord)
    (planId : String) (outcomes : List Outcome) : M Record := do
  let plan ← loadPlan planId
  match evidenceFromOutcomes plan outcomes with
  | .error message => throw message
  | .ok evidence =>
    decide (.inspectEnvironmentLease environment.environment)
    return settleStatus
      { record.noteEvidence index evidence with currentOrder := environment.order }
      environment.order evidence.status

/-- `record_execute_error`, for an environment whose plan is recorded. -/
def recordExecuteError (record : Record) (index : Nat) (environment : EnvironmentRecord)
    (planId message : String) : M Record := do
  let loaded ← caught (loadPlan planId)
  let state := match loaded with
    | .ok plan => some plan.state
    | .error _ => none
  let note (status : EnvironmentStatus) := record.modify index fun environment =>
    { environment with detail := message, status }
  return match state with
    | some .succeeded | some .running => { note .running with status := .recoveryRequired }
    | some .failed => applyFailPolicy (note .failed) environment.order
    | some .blocked => applyFailPolicy (note .blocked) environment.order
    | some .computed | none => { note .awaitingApproval with status := .awaitingApproval }

def loadOrCreatePlan (environment : EnvironmentRecord) : M Plan :=
  match environment.planId with
  | some planId => loadPlan planId
  | none => createPlan environment.environment

/-- The plan of a pending environment: the recorded one, or a new one, which is recorded
    before anything else happens to it. -/
def pendingPlan (record : Record) (index : Nat) (environment : EnvironmentRecord) :
    M (Record × Plan) := do
  let plan ← loadOrCreatePlan environment
  bailIf (isRollback plan)
    s!"wave {record.spec.name} has a pending rollback plan {plan.id}; resume it with \x60tenkaictl wave rollback\x60"
  planPinsWave plan record
  match environment.planId with
  | some _ => return (record, plan)
  | none =>
    let next := record.modify index fun environment =>
      { environment with planId := some plan.id, status := .awaitingApproval }
    persist next
    return (next, plan)

def settleExecution (record : Record) (index : Nat) (environment : EnvironmentRecord)
    (planId : String) : Except String (List Outcome) → M Record
  | .ok outcomes => capturePlanEvidence record index environment planId outcomes
  | .error message => recordExecuteError record index environment planId message

/-- The part of `advance_locked` that executes the plan of a pending environment. -/
def executePending (authorization : Authorization) (record : Record) (index : Nat)
    (environment : EnvironmentRecord) (plan : Plan) : M Record := do
  bailIf (¬ (plan.state = .computed ∨ plan.state = .blocked))
    s!"plan {plan.id} for wave {record.spec.name} is {plan.state}; only computed or blocked plans can execute"
  if ← authorizePlan authorization environment.environment plan.id then
    decide (.claimTopologyLeases plan.id)
    let running := { record.modify index fun environment =>
      { environment with status := .running } with status := .running }
    persist running
    let executed ← caught (executePlan index plan.id)
    let next ← settleExecution running index environment plan.id executed
    persist next
    return next
  else
    let next := { record.modify index fun environment => { environment with
        status := .awaitingApproval
        detail := s!"signed approval required for plan {plan.id}" }
      with status := .awaitingApproval }
    persist next
    return next

def Record.pending (record : Record) : Option (Nat × EnvironmentRecord) :=
  (record.environments.findIdx? fun environment => !environment.status.isComplete).bind fun index =>
    record.environments[index]?.map fun environment => (index, environment)

/-- Everything before the pending environment is complete. -/
theorem Record.pending_spec {k : Nat} {env : EnvironmentRecord} (h : rec.pending = some (k, env)) :
    rec.environments[k]? = some env ∧ env.status.isComplete = false ∧ ∀ j < k, ∀ earlier,
      rec.environments[j]? = some earlier → earlier.status.isComplete := by
  obtain ⟨found, hfd, hget⟩ := Option.bind_eq_some_iff.mp h
  obtain ⟨environment', henv, heq⟩ := Option.map_eq_some_iff.mp hget
  obtain ⟨rfl, rfl⟩ := Prod.mk.inj heq
  obtain ⟨hlt, hpend, hbef⟩ := List.findIdx?_eq_some_iff_getElem.mp hfd
  rw [List.getElem?_eq_getElem hlt, Option.some.injEq] at henv
  refine ⟨by rw [List.getElem?_eq_getElem hlt, henv], ?_, ?_⟩
  · simpa [henv] using hpend
  · intro j hj earlier hearl
    have hdone := hbef j hj
    obtain ⟨hlen, hget⟩ := List.getElem?_eq_some_iff.mp hearl
    simpa [hget] using hdone

theorem Record.pending_none (h : rec.pending = none) :
    ∀ environment ∈ rec.environments, environment.status.isComplete := by
  intro environment hmem
  unfold Record.pending at h
  cases hfd : rec.environments.findIdx? fun environment => !environment.status.isComplete with
  | none => simpa using List.findIdx?_eq_none_iff.mp hfd environment hmem
  | some index =>
    obtain ⟨hlt, -⟩ := List.findIdx?_eq_some_iff_getElem.mp hfd
    simp [hfd, List.getElem?_eq_getElem hlt] at h

/-- A stopped wave is resumed by the next advance. -/
def resumeStopped (record : Record) : M Record := do
  if record.status = .stopped then
    let resumed := { record with status := .running, operatorDecision := some "resume" }
    persist resumed
    return resumed
  else
    return record

def advancePending (authorization : Authorization) (record : Record) (index : Nat)
    (environment : EnvironmentRecord) : M Record := do
  match ← resumeExistingPlan record index environment with
  | some next => return next
  | none =>
    decide (.revalidateEnvironment environment.environment)
    let (record, plan) ← pendingPlan record index environment
    executePending authorization record index environment plan

def advance (authorization : Authorization) : M Record := do
  let record ← resumeStopped (← loadWave)
  if record.status.isTerminal then
    return record
  match record.pending with
  | some (index, environment) => advancePending authorization record index environment
  | none =>
    let next := refreshWaveStatus record
    persist next
    return next

/-! #### Stop -/

def stopWave : M Record := do
  let record ← loadWave
  match record.status with
  | .rolledBack | .recoveryRequired | .succeeded | .failed => return record
  | _ =>
    let next := { record with status := .stopped, operatorDecision := some "stop" }
    persist next
    return next

/-! #### Rollback -/

/-- What to do about one environment of a rollback. -/
inductive RollbackChoice
  | execute (record : Record) (plan : Plan)
  | next (record : Record)
  | halt (record : Record)

/-- A new plan that rolls the environment at `index` back; it is recorded. -/
def createRollbackPlan (record : Record) (index : Nat) (environment : EnvironmentRecord) :
    M RollbackChoice := do
  match ← caught (rollbackStep environment.environment record.spec.product) with
  | .error message =>
    let halted := { record.modify index fun environment =>
      { environment with detail := message } with status := .recoveryRequired }
    persist halted
    return .halt halted
  | .ok step =>
    let created ← createFromSteps environment.environment [step]
    let next := record.modify index fun environment =>
      { environment with planId := some created.id }
    persist next
    return .execute next created

/-- The plan that rolls the environment at `index` back: the recorded rollback plan, or a
    new one. -/
def rollbackPlan (record : Record) (index : Nat) (environment : EnvironmentRecord) :
    M RollbackChoice := do
  if environment.status = .awaitingApproval then
    match environment.planId with
    | none => throw "rollback is awaiting approval without a plan"
    | some planId =>
      let loaded ← loadPlan planId
      if isRollback loaded then
        return .execute record loaded
      let next := record.modify index fun environment => { environment with
        status := .skipped
        detail := "skipped because the wave rolled back before this cohort executed" }
      persist next
      return .next next
  else
    match environment.planId with
    | none => createRollbackPlan record index environment
    | some planId =>
      match ← caught (loadPlan planId) with
      | .error _ => createRollbackPlan record index environment
      | .ok existing =>
        if isRollback existing then
          match existing.state with
          | .succeeded =>
            let next := record.modify index fun environment => { environment with
              status := .rolledBack
              terminalOutcome := some (toString existing.state)
              detail := existing.statusDetail }
            persist next
            return .next next
          | .computed | .blocked => return .execute record existing
          | .running | .failed =>
            let halted := { record.modify index fun environment => { environment with
                detail := s!"rollback plan {existing.id} is {existing.state}; reconcile before retrying wave rollback" }
              with status := .recoveryRequired }
            persist halted
            return .halt halted
        else createRollbackPlan record index environment

/-- The execution of one rollback plan: the record to go on with, or to return. -/
def executeRollback (authorization : Authorization) (record : Record) (index : Nat)
    (environment : EnvironmentRecord) (plan : Plan) : M (Record ⊕ Record) := do
  if ← authorizePlan authorization environment.environment plan.id then
    decide (.claimTopologyLeases plan.id)
    match ← caught (executePlan index plan.id) with
    | .ok outcomes =>
      let plan ← loadPlan plan.id
      match evidenceFromOutcomes plan outcomes with
      | .error message => throw message
      | .ok evidence =>
        let note (status : EnvironmentStatus) := record.modify index fun environment =>
          { environment with
            status, terminalOutcome := some evidence.terminal, detail := evidence.detail }
        if plan.state = .succeeded then
          let next := note .rolledBack
          persist next
          return .inl next
        else
          let halted := { note evidence.status with status := .recoveryRequired }
          persist halted
          return .inr halted
    | .error message =>
      let halted := { record.modify index fun environment =>
        { environment with detail := message } with status := .recoveryRequired }
      persist halted
      throw message
  else
    let waiting := { record.modify index fun environment => { environment with
        status := .awaitingApproval
        detail := s!"signed approval required for rollback plan {plan.id}" }
      with status := .awaitingApproval }
    persist waiting
    return .inr waiting

/-- The loop of `rollback_locked` over its targets. -/
def rollbackTargets (authorization : Authorization) : List Nat → Record → M Record
  | [], record => do
    let next := { record with status := .rolledBack }
    persist next
    return next
  | index :: targets, record => do
    match record.environments[index]? with
    | none => rollbackTargets authorization targets record
    | some environment =>
      match ← rollbackPlan record index environment with
      | .halt halted => return halted
      | .next next => rollbackTargets authorization targets next
      | .execute next plan =>
        match ← executeRollback authorization next index environment plan with
        | .inl next => rollbackTargets authorization targets next
        | .inr halted => return halted

/-- The statuses a rollback takes up. -/
def EnvironmentStatus.isRollbackTarget : EnvironmentStatus → Bool
  | .succeeded | .awaitingApproval => true
  | _ => false

/-- The targets of a rollback, last environment first. -/
def Record.rollbackTargets (record : Record) : List Nat :=
  ((List.range record.environments.length).filter fun index =>
    record.environments[index]?.any fun environment => environment.status.isRollbackTarget).reverse

def rollbackWave (authorization : Authorization) : M Record := do
  let loaded ← loadWave
  if loaded.status = .rolledBack then
    return loaded
  let record := { loaded with status := .rollingBack, operatorDecision := some "rollback" }
  persist record
  Wave.rollbackTargets authorization record.rollbackTargets record

/-! ### What the operations do

One rule for each operation, for whatever `J` a proof keeps along the calls. -/

section Rules

variable {J : World → Prop} {w : World}

/-- An operation of the store takes effect or not, and fails or not. -/
theorem Fault.run_cases {ε α σ : Type} {J : σ → Prop} {Q : Except ε α → σ → Prop}
    (fault : Fault) (error : ε) {s : σ} {effect : Except ε α × σ} (hs : J s) (heff : J effect.2)
    (hdone : Q effect.1 effect.2) (hfail : ∀ t, Q (.error error) t) :
    J (fault.run error s effect).2 ∧ Q (fault.run error s effect).1 (fault.run error s effect).2 := by
  cases fault
  · exact ⟨heff, hdone⟩
  · exact ⟨hs, hfail s⟩
  · exact ⟨heff, hfail effect.2⟩

theorem along_decide (hw : J w) (q : Question) :
    Along exec J (M.decide q).run (fun _ t => t = w) w :=
  fun _ => ⟨hw, rfl⟩

theorem along_findWave (hw : J w) :
    Along exec J findWave.run (fun r t => t = w ∧ ∀ found, r = .ok found → found = w.wave) w := by
  intro fault
  cases fault
  · exact ⟨hw, rfl, fun found h => (Except.ok.inj h).symm⟩
  · exact ⟨hw, rfl, fun found h => by cases h⟩
  · exact ⟨hw, rfl, fun found h => by cases h⟩

theorem leads_loadWave (hw : J w) :
    Leads exec J loadWave (fun r t => t = w ∧ w.wave = some r) w := by
  refine .bind (R := fun found t => t = w ∧ found = w.wave) ?_ ?_
  · exact .of_along (along_findWave hw) fun found t h => ⟨h.1, h.2 found rfl⟩
  · rintro found t ⟨rfl, hfd⟩
    cases found with
    | none => exact .throw _
    | some r => exact .pure ⟨rfl, hfd.symm⟩

theorem along_loadPlan (hw : J w) (id : String) : Along exec J (M.loadPlan id).run
      (fun r t => t = w ∧ ∀ plan, r = .ok plan → w.plans id = some plan) w := by
  intro fault
  have hexec : (exec (.loadPlan id) fault w).2 = w ∧
      ∀ plan, (exec (.loadPlan id) fault w).1 = .ok plan → w.plans id = some plan := by
    cases hplan : w.plans id <;> cases fault <;> simp [exec, hplan, Fault.run]
    rintro plan ⟨⟩
    rfl
  refine ⟨?_, hexec⟩
  rwa [hexec.1]

theorem along_persist (hw : J w) (hnext : J (w.storeWave rec)) :
    Along exec J (M.persist rec).run (fun r t => r = .ok () → t = w.storeWave rec) w := by
  intro fault
  cases fault
  · exact ⟨hnext, fun _ => rfl⟩
  · exact ⟨hw, nofun⟩
  · exact ⟨hnext, nofun⟩

theorem along_rollbackStep (hw : J w) (env prod : String) :
    Along exec J (M.rollbackStep env prod).run
      (fun r t => t = w ∧ ∀ step, r = .ok step → step.action = .rollback) w := by
  intro step
  refine ⟨hw, rfl, ?_⟩
  intro step' h
  cases step with
  | error message => cases h
  | ok step =>
    cases h
    rfl

/-- A new plan may be stored: nothing is there, or the same plan still computed. -/
def World.Admits (w : World) (plan : Plan) : Prop :=
  ∀ stored, w.plans plan.id = some stored → validatedPlanObject stored plan = .ok ()

theorem storeNew_cases {Q : Except String Plan → World → Prop} (draft : Draft) (plan : Plan)
    (hw : J w) (hput : w.Admits plan → J (w.putPlan plan))
    (hok : w.Admits plan → Q (.ok plan) (w.putPlan plan))
    (herror : ∀ message t, Q (.error message) t) :
    J (storeNew draft plan w).2 ∧ Q (storeNew draft plan w).1 (storeNew draft plan w).2 := by
  unfold storeNew
  cases hst : w.plans plan.id with
  | none =>
    have hadm : w.Admits plan := by
      intro stored h
      rw [hst] at h
      cases h
    exact Fault.run_cases draft.fault unavailable hw (hput hadm) (hok hadm) (herror _)
  | some stored =>
    cases hvld : validatedPlanObject stored plan with
    | error message =>
      simp only [hvld]
      exact Fault.run_cases draft.fault unavailable hw hw (herror _ _) (herror _)
    | ok _ =>
      have hadm : w.Admits plan := by
        intro stored' h
        rw [hst] at h
        cases h
        exact hvld
      simp only [hvld]
      exact Fault.run_cases draft.fault unavailable hw (hput hadm) (hok hadm) (herror _)

theorem isRollback_assemblePlan (draft : Draft) (env : String)
    (inputs : List DesiredStateInput) (steps : List Step) :
    isRollback (assemblePlan draft env inputs steps) =
      steps.any fun step => step.action = .rollback := by
  unfold isRollback assemblePlan
  rw [Bool.eq_iff_iff]
  simp only [List.any_eq_true, List.mem_mapIdx]
  constructor
  · rintro ⟨_, ⟨i, hi, rfl⟩, hact⟩
    exact ⟨steps[i], List.getElem_mem hi, hact⟩
  · rintro ⟨step, hmem, hact⟩
    obtain ⟨i, hi, rfl⟩ := List.mem_iff_getElem.mp hmem
    exact ⟨_, ⟨i, hi, rfl⟩, hact⟩

/-- A plan as the planner stores it. -/
structure Planned (environment : String) (plan : Plan) : Prop where
  environment : plan.environment = environment
  computed : plan.state = .computed

theorem along_createPlan (hw : J w) (env : String)
    (hput : ∀ plan, Planned env plan → w.Admits plan → J (w.putPlan plan)) :
    Along exec J (M.createPlan env).run (fun r t => ∀ plan, r = .ok plan →
      t = w.putPlan plan ∧ Planned env plan ∧ w.Admits plan) w := by
  rintro (draft : Draft)
  let plan := assemblePlan draft env draft.inputs draft.steps
  have hplan : Planned env plan := ⟨rfl, rfl⟩
  refine storeNew_cases (Q := fun r t => ∀ plan, r = .ok plan →
    t = w.putPlan plan ∧ Planned env plan ∧ w.Admits plan)
    draft plan hw (hput plan hplan) ?_ ?_
  · intro hadm created h
    cases h
    exact ⟨rfl, hplan, hadm⟩
  · intro _ t created h
    cases h

theorem along_createFromSteps (hw : J w) (env : String) {step : Step}
    (hstep : step.action = .rollback)
    (hput : ∀ plan, Planned env plan → isRollback plan → w.Admits plan → J (w.putPlan plan)) :
    Along exec J (M.createFromSteps env [step]).run (fun r t => ∀ plan, r = .ok plan →
      t = w.putPlan plan ∧ Planned env plan ∧ isRollback plan ∧ w.Admits plan) w := by
  rintro (draft : Draft)
  let plan := assemblePlan draft env [] [step]
  have hplan : Planned env plan := ⟨rfl, rfl⟩
  have hback : isRollback plan := by
    rw [isRollback_assemblePlan]
    simp [hstep]
  refine storeNew_cases (Q := fun r t => ∀ plan, r = .ok plan → t = w.putPlan plan ∧
    Planned env plan ∧ isRollback plan ∧ w.Admits plan)
    draft plan hw (hput plan hplan hback) ?_ ?_
  · intro hadm created h
    cases h
    exact ⟨rfl, hplan, hback, hadm⟩
  · intro _ t created h
    cases h

/-- Executing a plan: nothing happens unless it is computed or blocked. -/
theorem along_executePlan (hw : J w) (k : Nat) (id : String)
    (hexd : ∀ plan ending, w.plans id = some plan →
      plan.state = .computed ∨ plan.state = .blocked → J (w.executed k id plan ending)) :
    Along exec J (M.executePlan k id).run (fun r t => (t = w ∧ ∃ message, r = .error message) ∨
      ∃ plan ending, w.plans id = some plan ∧ (plan.state = .computed ∨ plan.state = .blocked) ∧
      t = w.executed k id plan ending ∧ r = ending.result) w := by
  rintro (ending : Ending)
  let out : Except String (List Outcome) × World := exec (.executePlan k id) ending w
  have hout : (out.2 = w ∧ ∃ message, out.1 = .error message) ∨
      ∃ plan, w.plans id = some plan ∧ (plan.state = .computed ∨ plan.state = .blocked) ∧
        out.2 = w.executed k id plan ending ∧ out.1 = ending.result := by
    simp only [out, exec]
    cases hplan : w.plans id with
    | none => exact .inl ⟨rfl, _, rfl⟩
    | some plan =>
      by_cases hsta : plan.state = .computed ∨ plan.state = .blocked
      · simp only [if_pos hsta]
        exact .inr ⟨plan, rfl, hsta, rfl, trivial⟩
      · simp only [if_neg hsta]
        exact .inl ⟨trivial, _, rfl⟩
  rcases hout with ⟨hsame, hmessage⟩ | ⟨plan, hplan, hsta, hnext, hres⟩
  · refine ⟨?_, .inl ⟨hsame, hmessage⟩⟩
    rwa [hsame]
  · refine ⟨?_, .inr ⟨plan, ending, hplan, hsta, hnext, hres⟩⟩
    rw [hnext]
    exact hexd plan ending hplan hsta

theorem along_changePlan (hw : J w) (id : String) (state : PlanState)
    (hrecd : ∀ plan, w.plans id = some plan → w.records id → plan.state ≠ state →
      J (w.setPlanState plan state plan.statusDetail))
    (hput : ∀ plan, w.plans id = some plan → ¬ (w.records id ∧ plan.state ≠ state) →
      J (w.putPlan { plan with state })) :
    Along exec J (M.changePlan id state).run (fun _ _ => True) w := by
  rintro (fault : Fault)
  refine Fault.run_cases (Q := fun _ _ => True) fault unavailable hw ?_ trivial fun _ => trivial
  cases hplan : w.plans id with
  | none => exact hw
  | some plan =>
    by_cases hchg : w.records id ∧ plan.state ≠ state
    · simp only [if_pos hchg]
      exact hrecd plan hplan hchg.1 hchg.2
    · simp only [if_neg hchg]
      exact hput plan hplan hchg

theorem along_createWave (hw : J w) (hnew : w.wave = none → J (w.storeWave rec)) :
    Along exec J (M.createWave rec).run (fun _ t => J t) w := by
  intro fault
  have hnext : J (exec (.createWave rec) fault w).2 := by
    cases hwave : w.wave <;> cases fault <;> simp only [exec, hwave, Fault.run]
    · exact hnew hwave
    · exact hw
    · exact hnew hwave
    · exact hw
    · exact hw
    · exact hw
  exact ⟨hnext, hnext⟩

/-! Rules of the functions that only ask. -/

theorem leads_decide (hw : J w) (q : Question) : Leads exec J (M.decide q) (fun _ t => t = w) w :=
  .of_along (along_decide hw q) fun _ _ h => h

theorem leads_loadPlan (hw : J w) (id : String) :
    Leads exec J (M.loadPlan id) (fun plan t => t = w ∧ w.plans id = some plan) w :=
  .of_along (along_loadPlan hw id) fun plan _ h => ⟨h.1, h.2 plan rfl⟩

theorem leads_persist (hw : J w) (hnext : J (w.storeWave rec)) :
    Leads exec J (M.persist rec) (fun _ t => t = w.storeWave rec) w :=
  .of_along (along_persist hw hnext) fun _ _ h => h rfl

theorem leads_authorizePlan (hw : J w) (auth : Authorization) (env id : String) :
    Leads exec J (authorizePlan auth env id) (fun _ t => t = w) w := by
  cases auth with
  | localDevelopment =>
    refine .bind (.bailIf _) ?_
    rintro _ t ⟨rfl, -⟩
    exact .pure rfl
  | signed => exact leads_decide hw _

theorem leads_planPinsWave (plan : Plan) (r : Record) :
    Leads exec J (planPinsWave plan r) (fun _ t => t = w) w := by
  unfold planPinsWave
  split
  · exact .of_along (Leads.bailIf _) fun _ _ h => (h () rfl).1
  · refine .bind (.bailIf _) ?_
    rintro _ t ⟨rfl, -⟩
    split
    · exact .throw _
    · exact .pure rfl

theorem leads_forEach (hw : J w) (q : String → Question) (envs : List String) :
    Leads exec J (forEach q envs) (fun _ t => t = w) w := by
  induction envs with
  | nil => exact .pure rfl
  | cons env envs ih =>
    refine .bind (leads_decide hw (q env)) ?_
    rintro _ t rfl
    exact ih

theorem leads_requireContinue (hw : J w) (spec : Spec) :
    Leads exec J (requireContinue spec) (fun _ t => t = w) w := by
  unfold requireContinue
  split
  · exact .pure rfl
  · exact leads_forEach hw _ _

theorem leads_validateSpec (hw : J w) (spec : Spec) :
    Leads exec J (validateSpec spec) (fun _ t => t = w ∧ spec.environments.Nodup) w := by
  refine .bind (leads_decide hw .identifiersValid) ?_
  rintro _ t rfl
  refine .bind (.bailIf _) ?_
  rintro _ t ⟨rfl, -⟩
  refine .of_along (Leads.bailIf _) ?_
  intro _ u h
  obtain ⟨rfl, hdist⟩ := h () rfl
  exact ⟨rfl, not_not.mp hdist⟩

theorem leads_requireIdentity (loaded : Record) (spec : Spec) (pin : Pin) :
    Leads exec J (requireIdentity loaded spec pin) (fun _ _ => True) w :=
  .bind (.bailIf _) fun _ _ _ => .pure trivial

theorem leads_startOrResume (hw : J w) (spec : Spec)
    (hnew : ∀ pin, w.wave = none → spec.environments.Nodup →
      J (w.storeWave (admittedRecord spec pin))) :
    Leads exec J (startOrResume spec) (fun _ _ => True) w := by
  refine .bind (leads_validateSpec hw spec) ?_
  rintro _ t ⟨rfl, hdist⟩
  refine .bind (leads_requireContinue hw spec) ?_
  rintro _ t rfl
  refine .bind (leads_decide hw .resolveReleasePin) ?_
  rintro pin t rfl
  refine .bind (.of_along (along_findWave hw) fun _ _ h => h.1) ?_
  rintro found t rfl
  cases found with
  | some loaded => exact leads_requireIdentity loaded spec pin
  | none =>
    refine .bind (leads_forEach hw _ _) ?_
    rintro _ t rfl
    refine .bind
      (.of_along (along_createWave hw fun hnone => hnew pin hnone hdist) fun _ _ h => h) ?_
    intro created u hu
    cases created with
    | true => exact .pure trivial
    | false =>
      refine .bind (leads_loadWave hu) ?_
      intro loaded t _
      exact leads_requireIdentity loaded spec pin

end Rules

/-! ### Runs -/

inductive Call
  | startOrResume (spec : Spec)
  | advance (authorization : Authorization)
  | stopWave
  | rollbackWave (authorization : Authorization)
  /-- A plan is brought to another state outside the wave. -/
  | changePlan (id : String) (state : PlanState)

def Call.program : Call → Prog interface Unit
  | .startOrResume spec => do let _ ← (Wave.startOrResume spec).run
  | .advance authorization => do let _ ← (Wave.advance authorization).run
  | .stopWave => do let _ ← Wave.stopWave.run
  | .rollbackWave authorization => do let _ ← (Wave.rollbackWave authorization).run
  | .changePlan id state => do let _ ← (M.changePlan id state).run

/-- One call and the answers its operations get; it crashes where they end. -/
structure Turn where
  call : Call
  oracles : List (Oracle interface)

def World.turn (w : World) (turn : Turn) : World := turn.call.program.play exec turn.oracles w

def World.run (w : World) (turns : List Turn) : World := turns.foldl World.turn w

def World.fresh (plans : Plans) : World := ⟨none, plans, [], [], false⟩

variable {J : World → Prop} {w : World}

theorem along_program {α : Type} {x : M α} {Q : α → World → Prop} (h : Leads exec J x Q w) :
    Along exec J (do let _ ← x.run : Prog interface Unit) (fun _ _ => True) w :=
  .bind h fun _ _ _ => trivial

/-- What every call of a run keeps holds at its end. -/
theorem World.run_invariant {turns : List Turn}
    (hturn : ∀ turn ∈ turns, ∀ w, J w → Along exec J turn.call.program (fun _ _ => True) w)
    (hw : J w) : J (w.run turns) := by
  refine List.foldlRecOn turns .turn hw ?_
  intro w hw turn hmem
  exact (hturn turn hmem w hw).play hw turn.oracles

/-- A run whose every call meets a condition on the state it starts from. -/
def World.Admissible (condition : World → Call → Bool) : World → List Turn → Prop
  | _, [] => True
  | w, turn :: turns => condition w turn.call ∧ World.Admissible condition (w.turn turn) turns

instance World.decidableAdmissible (condition : World → Call → Bool) :
    (w : World) → (turns : List Turn) → Decidable (World.Admissible condition w turns)
  | _, [] => instDecidableTrue
  | w, turn :: turns =>
    @instDecidableAnd _ _ _ (World.decidableAdmissible condition (w.turn turn) turns)

theorem World.run_admissible {condition : World → Call → Bool}
    (hturn : ∀ w call, J w → condition w call → Along exec J call.program (fun _ _ => True) w)
    (hw : J w) {turns : List Turn} (h : w.Admissible condition turns) : J (w.run turns) := by
  induction turns generalizing w with
  | nil => exact hw
  | cons turn turns ih =>
    obtain ⟨hcond, hrest⟩ := h
    exact ih ((hturn w turn.call hw hcond).play hw turn.oracles) hrest

theorem World.admissible_append {condition : World → Call → Bool} {before after : List Turn}
    (h : w.Admissible condition (before ++ after)) :
    w.Admissible condition before ∧ (w.run before).Admissible condition after := by
  induction before generalizing w with
  | nil => exact ⟨trivial, h⟩
  | cons turn before ih =>
    obtain ⟨hcond, hrest⟩ := h
    obtain ⟨hbef, haft⟩ := ih hrest
    exact ⟨⟨hcond, hbef⟩, haft⟩

theorem World.run_append (w : World) (before after : List Turn) :
    w.run (before ++ after) = (w.run before).run after :=
  List.foldl_append

/-! ### A wave over one product

Answers with which a wave of product `api` runs to whatever end its plans come to. -/

def noPlans : Plans := ⟨fun _ => none, nofun⟩

def apiSpec (environments : List String) : Spec where
  name := "w"
  product := "api"
  version := "2.0.0"
  channel := "stable"
  environments
  failPolicy := .stopOnFailure

def apiPin : Pin := ⟨"tenkai:release:api@2.0.0", "sha256:release", "sha256:artifact"⟩

def apiInput : DesiredStateInput := {
  product := "api", «instance» := "", channel := "stable", channelId := "tenkai:channel:stable"
  desiredVersion := "2.0.0", releaseId := apiPin.releaseId, releaseDigest := apiPin.releaseDigest
  artifactDigest := apiPin.artifactDigest, deployedVersion := some "1.0.0" }

def apiStep (action : Action) (fromVersion toVersion : String) : Step := {
  id := "", order := 0, product := "api", «instance» := "", action
  fromVersion := some fromVersion, toVersion, releaseId := s!"tenkai:release:api@{toVersion}"
  releaseDigest := "sha256:release", artifactDigest := "sha256:artifact", workdir := "."
  restore := none, host := none }

def approved : (question : Question) → Except String question.Answer
  | .resolveReleasePin => .ok apiPin
  | .signedApproval _ => .ok true
  | .identifiersValid | .continueAdmitted _ | .admitEnvironment _ | .revalidateEnvironment _
  | .claimTopologyLeases _ | .inspectEnvironmentLease _ => .ok ()

def ending (state : PlanState) : Oracle interface
  | .decide question => approved question
  | .createPlan environment =>
    { fault := .none, id := s!"upgrade:{environment}", contentId := "1", createdAt := 0
      inputs := [apiInput], steps := [apiStep .upgrade "1.0.0" "2.0.0"] : Draft }
  | .createFromSteps environment _ =>
    { fault := .none, id := s!"rollback:{environment}", contentId := "2", createdAt := 1
      inputs := [], steps := [] : Draft }
  | .rollbackStep _ _ => .ok (apiStep .rollback "2.0.0" "1.0.0")
  | .executePlan _ _ => (⟨state, "", .ok []⟩ : Ending)
  | .loadWave | .createWave _ | .persist _ | .loadPlan _ | .changePlan _ _ => Fault.none

def Call.ending (call : Call) (state : PlanState) : Turn :=
  ⟨call, List.replicate 30 (Wave.ending state)⟩

/-- Two environments upgraded, and both rolled back. -/
def fullRollback : List Turn :=
  [Call.ending (.startOrResume (apiSpec ["a", "b"])) .succeeded,
    Call.ending (.advance .signed) .succeeded, Call.ending (.advance .signed) .succeeded,
    Call.ending (.rollbackWave .signed) .succeeded]

end Tenkai.Wave
