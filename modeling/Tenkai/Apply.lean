import Tenkai.Prog
import Tenkai.Plan
import Tenkai.Lease
import Tenkai.Properties

/-!
# Apply attempts

`execute_with_options` of `apply/execution_attempt.rs`: the claim of the environment lease, the
admission of a start, the step loop and the terminal write; and the unfenced writes of the
reconciler to the same plan. What is decided outside (approvals, gates, maintenance windows, the
clock) is a question with any answer. Delegated delivery through an adapter is not modelled.
-/

namespace Tenkai.Apply

/-- An error, and whether it says that the execution fence was lost. -/
structure Failure where
  message : String
  fenceLost : Bool
  deriving DecidableEq

structure World where
  plan : Plan
  lease : LeaseRow
  environment : Properties
  /-- The steps whose execution began, in order. -/
  executed : List Step

/-! ### Operations -/

inductive Eligibility
  | opened (closesAt : Int)
  | closed (detail : String)

/-- What is decided outside the shared state. -/
inductive Question
  | verifyApproval
  | recordApproval
  | claimAdmitted
  | claimRecorded
  | claimMarkedReleased
  | runtimeManaged
  | fenceHost
  | maintenanceEligibility
  | nowMillis
  | authorizeEmergencyOverride
  | inspectInputs
  | deliveryHeld
  | requireRelease (releaseId : String)
  | planGate
  | evalGate (step : Step)
  | artifactPulls
  | hostSloGate (step : Step)
  | hostApprovals
  deriving DecidableEq

def Question.Answer : Question → Type
  | .runtimeManaged => Bool
  | .maintenanceEligibility => Eligibility
  | .nowMillis => Int
  -- a rejection of the plan's subscriptions and channels, or of its gate
  | .inspectInputs | .planGate | .evalGate _ => Option String
  | _ => Unit

/-- The clock reading and the fault of one store operation. -/
structure Reading where
  now : Int
  fault : Fault

/-- What executing a step did to the environment, and what it returned. -/
structure StepEffect where
  environment : Properties
  result : Except Failure Outcome

inductive Op
  | decide (question : Question)
  | loadPlan
  | loadEnvironment
  | getLease
  | acquireLease (owner : String) (ttlMs : Int)
  | takeoverLease (owner : String) (expectedToken : FencingToken) (expectedExpiresAt ttlMs : Int)
  | refreshLease (token : FencingToken) (ttlMs : Int)
  | releaseLease (token : FencingToken)
  | guardedPut (token : FencingToken) (plan : Plan)
  /-- The put that follows a validation; `validated` is the plan that was read for it. -/
  | put (validated plan : Plan)
  | executeStep (token : FencingToken) (step : Step)

def Op.Choice : Op → Type
  | .decide question => Except Failure question.Answer
  | .executeStep _ _ => StepEffect
  | _ => Reading

def Op.Reply : Op → Type
  | .decide question => Except Failure question.Answer
  | .loadPlan => Except Failure Plan
  | .loadEnvironment => Except Failure Properties
  | .getLease => Except Failure (Option Lease)
  -- a lease that is already taken is not an error of the store
  | .acquireLease _ _ => Except Failure (Option Lease)
  | .takeoverLease _ _ _ _ => Except Failure Lease
  | .refreshLease _ _ => Except Failure Lease
  | .releaseLease _ => Except Failure Unit
  | .guardedPut _ _ => Except Failure Unit
  | .put _ _ => Except Failure Unit
  | .executeStep _ _ => Except Failure Outcome

abbrev interface : Interface where
  Op := Op
  Choice := Op.Choice
  Reply := Op.Reply

def unavailable : Failure := ⟨"store unavailable", false⟩

def notHolder : Failure := ⟨"embedded lease is not the active fenced holder", false⟩

def Reading.faulted {α : Type} (reading : Reading) (w : World)
    (effect : Except Failure α × World) : Except Failure α × World :=
  reading.fault.run unavailable w effect

def exec (thread : Nat) : Exec interface World
  | .decide _, answer, w => (answer, w)
  | .loadPlan, reading, w => reading.faulted w (.ok w.plan, w)
  | .loadEnvironment, reading, w => reading.faulted w (.ok w.environment, w)
  | .getLease, reading, w => reading.faulted w (.ok w.lease.current, w)
  | .acquireLease owner ttlMs, reading, w => reading.faulted w <|
      match w.lease.acquire thread owner ttlMs reading.now with
      | some (lease, row) => (.ok (some lease), { w with lease := row })
      | none => (.ok none, w)
  | .takeoverLease owner token expiresAt ttlMs, reading, w => reading.faulted w <|
      match w.lease.takeover thread owner token expiresAt ttlMs reading.now with
      | some (lease, row) => (.ok lease, { w with lease := row })
      | none => (.error notHolder, w)
  | .refreshLease token ttlMs, reading, w => reading.faulted w <|
      match w.lease.refresh token ttlMs reading.now with
      | some (lease, row) => (.ok lease, { w with lease := row })
      | none => (.error notHolder, w)
  | .releaseLease token, reading, w => reading.faulted w <|
      match w.lease.release token reading.now with
      | some row => (.ok (), { w with lease := row })
      | none => (.error notHolder, w)
  | .guardedPut token plan, reading, w => reading.faulted w <|
      match w.lease.requireActive token reading.now with
      | some _ => (.ok (), { w with plan })
      | none => (.error notHolder, w)
  | .put _ plan, reading, w => reading.faulted w (.ok (), { w with plan })
  | .executeStep _ step, effect, w =>
    (effect.result, { w with environment := effect.environment,
                             executed := w.executed ++ [step] })

/-! ### Programs -/

/-- Code that asks operations and may return an error. -/
abbrev M : Type → Type := ExceptT Failure (Prog interface)

def request (op : Op) : Prog interface op.Reply := .ask op .done

def M.decide (question : Question) : M question.Answer := ExceptT.mk (request (.decide question))

def M.loadPlan : M Plan := ExceptT.mk (request .loadPlan)

def M.loadEnvironment : M Properties := ExceptT.mk (request .loadEnvironment)

def M.getLease : M (Option Lease) := ExceptT.mk (request .getLease)

def M.acquireLease (owner : String) (ttlMs : Int) : M (Option Lease) :=
  ExceptT.mk (request (.acquireLease owner ttlMs))

def M.takeoverLease (owner : String) (token : FencingToken) (expiresAt ttlMs : Int) : M Lease :=
  ExceptT.mk (request (.takeoverLease owner token expiresAt ttlMs))

def M.refreshLease (token : FencingToken) (ttlMs : Int) : M Lease :=
  ExceptT.mk (request (.refreshLease token ttlMs))

def M.releaseLease (token : FencingToken) : M Unit := ExceptT.mk (request (.releaseLease token))

def M.guardedPut (token : FencingToken) (plan : Plan) : M Unit :=
  ExceptT.mk (request (.guardedPut token plan))

def M.put (validated plan : Plan) : M Unit := ExceptT.mk (request (.put validated plan))

def M.executeStep (token : FencingToken) (step : Step) : M Outcome :=
  ExceptT.mk (request (.executeStep token step))

/-- The result of `x` as a value, for code that looks at it before it returns. -/
def M.caught {α : Type} (x : M α) : M (Except Failure α) := ExceptT.lift x.run

def bail {α : Type} (message : String) : M α := throw ⟨message, false⟩

open M

structure ExecutionOptions where
  skipGates : Bool
  emergencyReason : Option String
  /-- A host executor is configured. -/
  hostExecutor : Bool

def executionLeaseMs : Int := 30000

def validateEmergencyOverride (reason : Option String) : M (Option String) := do
  let reason := reason.map fun text => text.trimAscii.toString
  if reason.any String.isEmpty then
    bail "emergency maintenance override requires a non-empty reason"
  return reason

/-! #### The environment lease -/

def releaseEnvironment (lease : Lease) : M Unit := do
  decide .claimMarkedReleased
  releaseLease lease.fencingToken

/-- The lease of a claim: granted, or taken over from a holder seen expired at `now`. -/
def acquireOrTakeover (owner : String) (now : Int) : M Lease := do
  match ← acquireLease owner executionLeaseMs with
  | some lease => return lease
  | none =>
    match ← getLease with
    | some existing =>
      if existing.status = .active ∧ existing.expiresAtMs ≤ now then
        takeoverLease owner existing.fencingToken existing.expiresAtMs executionLeaseMs
      else
        bail s!"environment already has an apply in progress owned by {existing.owner}"
    | none => bail "lease already exists"

/-- `claim_environment_with_options`, with automatic takeover. -/
def claimEnvironment (owner : String) : M Lease := do
  let now : Int ← decide .nowMillis
  decide .claimAdmitted
  let lease ← acquireOrTakeover owner now
  match ← caught (decide .claimRecorded) with
  | .ok () => return lease
  | .error error =>
    let _ ← caught (releaseLease lease.fencingToken)
    throw error

def claimExecutionEnvironment (owner : String) : M Lease := do
  let lease ← claimEnvironment owner
  match ← caught (decide .runtimeManaged) with
  | .ok false => return lease
  | .ok true =>
    releaseEnvironment lease
    bail "environment is runtime-managed; its enrolled runtime runs its plans"
  | .error error =>
    releaseEnvironment lease
    throw error

/-! #### Writes of the plan -/

/-- `plan::transition` with guarded persistence: only the fencing token is checked. A
    confirmed write that failed is accepted if the plan is found as intended. -/
def transitionGuarded (lease : Lease) (confirmAmbiguous : Bool) (update : Transition)
    (plan : Plan) : M Unit := do
  let next := update.apply plan
  match ← caught (guardedPut lease.fencingToken next) with
  | .ok () => return ()
  | .error error =>
    if !confirmAmbiguous then
      throw error
    match ← caught loadPlan with
    | .ok stored => if stored.audit = next.audit then return () else throw error
    | .error _ => throw error

def blockForMaintenance {α : Type} (lease : Lease) (plan : Plan) (skipGates : Bool)
    (detail : String) : M α := do
  transitionGuarded lease false (.blockedForMaintenance skipGates detail) plan
  bail detail

/-- `plan_completion::fail`, followed by the error it records. -/
def failWith {α : Type} (lease : Lease) (plan : Plan) (skipGates : Bool) (error : Failure)
    (detail : String) : M α := do
  transitionGuarded lease false (.execution .failed skipGates detail) plan
  throw error

/-! #### Maintenance and admission -/

inductive MaintenanceDecision
  | allowed (closesAt : Int)
  | denied (detail : String)
  | emergencyOverride (reason : String)

def maintenanceDecision (emergencyReason : Option String) : M MaintenanceDecision := do
  let eligibility ← decide .maintenanceEligibility
  match emergencyReason with
  | some reason => return .emergencyOverride reason
  | none =>
    match eligibility with
    | .opened closesAt => return .allowed closesAt
    | .closed detail => return .denied detail

def authorizeMaintenance (lease : Lease) (plan : Plan) (skipGates : Bool)
    (emergencyReason : Option String) : M Unit := do
  let authorization ← caught do
    match ← maintenanceDecision emergencyReason with
    | .emergencyOverride _ => decide .authorizeEmergencyOverride
    | .denied detail => blockForMaintenance lease plan skipGates detail
    | .allowed _ => pure ()
  match authorization, emergencyReason with
  | .error error, some _ =>
    blockForMaintenance lease plan skipGates
      s!"emergency maintenance override was not authorized: {error.message}"
  | .error error, none => throw error
  | .ok (), _ => return ()

/-- `execution_admission::inspect`: the plan still describes the environment. Channels
    and subscriptions are judged outside. -/
def inspectSteps (environment : Properties) : List Step → Option String
  | [] => none
  | step :: steps =>
    if step.host.isSome then
      inspectSteps environment steps
    else if step.action ≠ .rollback ∧
        environment.get .deploymentHealth step.instanceName = some "unknown" then
      some s!"cannot apply {step.product} while its deployment state is unknown; reconcile or roll back first"
    else if environment.get .deployed step.instanceName ≠ step.fromVersion then
      some s!"is stale for {step.product}"
    else
      inspectSteps environment steps

def admitExecution (plan : Plan) : M Unit := do
  let environment ← loadEnvironment
  match inspectSteps environment plan.steps with
  | some rejection => bail s!"plan {plan.id} {rejection}"
  | none =>
    match ← decide .inspectInputs with
    | some rejection => bail s!"plan {plan.id} {rejection}"
    | none => return ()

def requireReleases : List Step → M Unit
  | [] => pure ()
  | step :: steps => do
    if step.action ≠ .remove then
      decide (.requireRelease step.releaseId)
    requireReleases steps

/-- The evaluation gates of the steps, up to the first that blocks. -/
def evalGates : List Step → M (Option (Step × String))
  | [] => pure none
  | step :: steps => do
    if step.action = .rollback ∨ step.action = .remove then
      evalGates steps
    else
      match ← decide (.evalGate step) with
      | some detail => return some (step, detail)
      | none => evalGates steps

def admitGates (lease : Lease) (plan : Plan) (skipGates : Bool) : M (Option (List Outcome)) := do
  if skipGates then
    return none
  match ← decide .planGate with
  | some detail =>
    transitionGuarded lease true (.execution .blocked skipGates detail) plan
    match plan.steps.find? fun step => step.action ≠ .rollback with
    | some step => return some [⟨step, .blocked, detail⟩]
    | none => return some []
  | none =>
    match ← evalGates plan.steps with
    | some (step, detail) =>
      transitionGuarded lease true (.execution .blocked skipGates detail) plan
      return some [⟨step, .blocked, detail⟩]
    | none => return none

/-- The maintenance check of a start: blocks the plan unless the window is open now. -/
def requireMaintenance (lease : Lease) (plan : Plan) (skipGates : Bool)
    (emergencyReason : Option String) (closedDetail : String) : M Unit := do
  match ← maintenanceDecision emergencyReason with
  | .denied detail => blockForMaintenance lease plan skipGates detail
  | .allowed closesAt =>
    let now : Int ← decide .nowMillis
    if closesAt ≤ now then
      blockForMaintenance lease plan skipGates closedDetail
  | .emergencyOverride _ => return ()

/-- `start_admission::admit`: the outcomes of a blocked start, or the running plan. -/
def admitStart (lease : Lease) (plan : Plan) (skipGates : Bool) (emergencyReason : Option String) :
    M (List Outcome ⊕ Plan) := do
  requireReleases plan.steps
  match ← admitGates lease plan skipGates with
  | some outcomes => return .inl outcomes
  | none =>
    requireMaintenance lease plan skipGates emergencyReason
      "maintenance window closed while start authorization was being recorded"
    let start := Transition.execution .running skipGates ""
    transitionGuarded lease true start plan
    let running := start.apply plan
    requireMaintenance lease running skipGates emergencyReason
      "maintenance window closed before execution entered the running state"
    return .inr running

/-! #### Steps and completion -/

structure ExecutionCompletion where
  outcomes : List Outcome
  terminalState : PlanState
  detail : String

def ExecutionCompletion.new : ExecutionCompletion := ⟨[], .succeeded, ""⟩

def ExecutionCompletion.record (completion : ExecutionCompletion) (outcome : Outcome) :
    ExecutionCompletion where
  outcomes := completion.outcomes ++ [outcome]
  terminalState := outcome.planState
  detail := if outcome.planState = .succeeded then completion.detail else outcome.detail

def ExecutionCompletion.finish (completion : ExecutionCompletion) (lease : Lease) (plan : Plan)
    (skipGates : Bool) : M (List Outcome) := do
  transitionGuarded lease true
    (.execution completion.terminalState skipGates completion.detail) plan
  return completion.outcomes

/-- The step loop of `execute_locked`: every step runs under a refreshed lease, and the
    first that does not succeed ends the plan. -/
def executeSteps (lease : Lease) (plan : Plan) (skipGates : Bool) :
    List Step → ExecutionCompletion → M (List Outcome)
  | [], completion => completion.finish lease plan skipGates
  | step :: steps, completion => do
    match ← caught (refreshLease lease.fencingToken executionLeaseMs) with
    | .error error =>
      if error.fenceLost then
        throw error
      failWith lease plan skipGates error
        s!"refreshing environment apply lease failed: {error.message}"
    | .ok _ =>
      match ← caught (executeStep lease.fencingToken step) with
      | .error error =>
        if error.fenceLost then
          throw error
        failWith lease plan skipGates error error.message
      | .ok outcome =>
        let completion := completion.record outcome
        if completion.terminalState = .succeeded then
          executeSteps lease plan skipGates steps completion
        else
          completion.finish lease plan skipGates

def requireOrFail (lease : Lease) (plan : Plan) (skipGates : Bool) :
    List Question → M Unit
  | [] => pure ()
  | question :: questions => do
    match ← caught (decide question) with
    | .error error => failWith lease plan skipGates error error.message
    | .ok _ => requireOrFail lease plan skipGates questions

def startChecks (plan : Plan) (skipGates : Bool) : List Question :=
  let hosts := plan.steps.filter fun step => step.host.isSome
  [.artifactPulls] ++ (if skipGates then [] else hosts.map .hostSloGate) ++
    if hosts.isEmpty then [] else [.hostApprovals]

def executeLocked (lease : Lease) (plan : Plan) (options : ExecutionOptions)
    (emergencyReason : Option String) : M (List Outcome) := do
  admitExecution plan
  decide .deliveryHeld
  match ← admitStart lease plan options.skipGates emergencyReason with
  | .inl outcomes => return outcomes
  | .inr running =>
    requireOrFail lease running options.skipGates (startChecks running options.skipGates)
    executeSteps lease running options.skipGates running.steps .new

def releaseAfter {α : Type} (lease : Lease) (result : Except Failure α) : M α := do
  match result, ← caught (releaseEnvironment lease) with
  | .ok outcomes, .ok () => return outcomes
  | .ok _, .error unlock => throw unlock
  | .error error, .ok () => throw error
  | .error error, .error unlock =>
    throw { error with
      message := s!"{error.message}; releasing environment apply lease also failed: {unlock.message}" }

def executeWithOptions (options : ExecutionOptions) : M (List Outcome) := do
  let emergencyReason ← validateEmergencyOverride options.emergencyReason
  let plan ← loadPlan
  if ¬ (plan.state = .computed ∨ plan.state = .blocked) then
    bail s!"plan {plan.id} is {plan.state}, only computed or blocked plans can be applied"
  decide .verifyApproval
  decide .recordApproval
  let lease ← claimExecutionEnvironment plan.id
  let result ← caught do
    if options.hostExecutor then
      decide .fenceHost
    authorizeMaintenance lease plan options.skipGates emergencyReason
    executeLocked lease plan options emergencyReason
  releaseAfter lease result

/-! ### Writers without the lease -/

/-- `lifecycle::store`: reads what is stored, validates against it, then puts. -/
def store (plan : Plan) : M Unit := do
  let stored ← loadPlan
  match validatedPlanObject stored plan with
  | .ok () => put stored plan
  | .error message => bail message

def transition (update : Transition) (plan : Plan) : M Unit := store (update.apply plan)

/-- `retire_empty_executable_plans`, for this plan. -/
def retireEmptyExecutablePlans : M Unit := do
  let plan ← loadPlan
  if (plan.state = .computed ∨ plan.state = .running) ∧ plan.steps = [] then
    transition (.new .succeeded "no-op; environment already current") plan

/-- `recover_or_detect_active_plan`, for this plan. -/
def recoverOrDetectActivePlan : M Bool := do
  let plan ← loadPlan
  if plan.state ≠ .running then
    return false
  match ← getLease with
  | some lease => if lease.status = .active then return true
  | none => pure ()
  transition (.new .failed
    "controller stopped after execution began; lease expired before recovery") plan
  return false

/-- The calls that may be made on the plan, any number of each at any time. An apply of
    another plan competes for the same environment lease. -/
inductive Call
  | execute (options : ExecutionOptions)
  | executeOther (owner : String)
  | store (plan : Plan)
  | transition (update : Transition)
  | retireEmpty
  | recoverActive

def Call.program (call : Call) : Prog interface Unit := do
  let _ ← match call with
    | .execute options => (do let _ ← executeWithOptions options : M Unit).run
    | .executeOther owner => (do
        let lease ← claimExecutionEnvironment owner
        releaseEnvironment lease : M Unit).run
    | .store plan => (Apply.store plan).run
    | .transition update => (do Apply.transition update (← loadPlan) : M Unit).run
    | .retireEmpty => retireEmptyExecutablePlans.run
    | .recoverActive => (do let _ ← recoverOrDetectActivePlan : M Unit).run
  pure ()

end Tenkai.Apply
