import Mathlib.Data.Option.Basic

/-!
# Plans, steps and the plan lifecycle

The data of `plan.rs` and the pure part of `plan/lifecycle.rs`, with the table that the unguarded
write checks (`validatedPlanObject`). Digested content is compared as such.
-/

namespace Tenkai

inductive Action
  | install
  | upgrade
  | downgrade
  | rollback
  | restart
  | remove
  deriving DecidableEq

inductive HostAction
  | install
  | uninstall
  | health
  deriving DecidableEq

structure HostStep where
  action : HostAction
  expectedGeneration : Nat
  deriving DecidableEq

structure ReleasePin where
  releaseId : String
  digest : String
  artifactDigest : String
  workdir : String
  deriving DecidableEq

structure Step where
  id : String
  order : Nat
  product : String
  «instance» : String
  action : Action
  fromVersion : Option String
  toVersion : String
  releaseId : String
  releaseDigest : String
  artifactDigest : String
  workdir : String
  restore : Option ReleasePin
  host : Option HostStep
  deriving DecidableEq

/-- `Step::instance_name`: an empty instance means the product. -/
def Step.instanceName (step : Step) : String :=
  if step.instance.isEmpty then step.product else step.instance

def Step.target (step : Step) : ReleasePin where
  releaseId := step.releaseId
  digest := step.releaseDigest
  artifactDigest := step.artifactDigest
  workdir := step.workdir

structure DesiredStateInput where
  product : String
  «instance» : String
  channel : String
  channelId : String
  desiredVersion : String
  releaseId : String
  releaseDigest : String
  artifactDigest : String
  deployedVersion : Option String
  deriving DecidableEq

def DesiredStateInput.instanceName (input : DesiredStateInput) : String :=
  if input.instance.isEmpty then input.product else input.instance

inductive PlanState
  | computed
  | running
  | blocked
  | succeeded
  | failed
  deriving DecidableEq

instance : ToString PlanState where
  toString
    | .computed => "computed"
    | .running => "running"
    | .blocked => "blocked"
    | .succeeded => "succeeded"
    | .failed => "failed"

def PlanState.terminal : PlanState → Bool
  | .succeeded | .failed => true
  | .computed | .running | .blocked => false

structure Plan where
  id : String
  contentId : String
  environment : String
  createdAt : Int
  inputs : List DesiredStateInput
  steps : List Step
  state : PlanState
  gatesSkipped : Option Bool
  statusDetail : String
  maintenanceBlocked : Bool
  recalledRecoveryReason : Option String
  deriving DecidableEq

/-- What `executable_digest` digests: the plan without its lifecycle fields. -/
structure ExecutableContent where
  id : String
  contentId : String
  environment : String
  createdAt : Int
  inputs : List DesiredStateInput
  steps : List Step
  recalledRecoveryReason : Option String
  deriving DecidableEq

def Plan.executableContent (plan : Plan) : ExecutableContent where
  id := plan.id
  contentId := plan.contentId
  environment := plan.environment
  createdAt := plan.createdAt
  inputs := plan.inputs
  steps := plan.steps
  recalledRecoveryReason := plan.recalledRecoveryReason

/-! ### Step outcomes -/

inductive StepOutcomeStatus
  | succeeded
  | blocked
  | failed
  | rolledBack
  deriving DecidableEq

def StepOutcomeStatus.planState : StepOutcomeStatus → PlanState
  | .succeeded => .succeeded
  | .blocked => .blocked
  | .failed | .rolledBack => .failed

structure Outcome where
  step : Step
  status : StepOutcomeStatus
  detail : String
  deriving DecidableEq

def Outcome.planState (outcome : Outcome) : PlanState := outcome.status.planState

/-! ### Lifecycle transitions -/

structure Transition where
  state : PlanState
  gatesSkipped : Option Bool
  statusDetail : String
  maintenanceBlocked : Bool

namespace Transition

def new (state : PlanState) (statusDetail : String) : Transition :=
  { state, gatesSkipped := none, statusDetail, maintenanceBlocked := false }

def execution (state : PlanState) (gatesSkipped : Bool) (statusDetail : String) : Transition :=
  { state, gatesSkipped := some gatesSkipped, statusDetail, maintenanceBlocked := false }

def blockedForMaintenance (gatesSkipped : Bool) (statusDetail : String) : Transition :=
  { state := .blocked, gatesSkipped := some gatesSkipped, statusDetail,
    maintenanceBlocked := true }

def apply (update : Transition) (plan : Plan) : Plan :=
  { plan with
    state := update.state
    gatesSkipped := update.gatesSkipped <|> plan.gatesSkipped
    statusDetail := update.statusDetail
    maintenanceBlocked := update.maintenanceBlocked }

@[simp] theorem apply_state (update : Transition) (plan : Plan) :
    (update.apply plan).state = update.state := rfl

end Transition

/-- The fields a confirmed write compares with what it finds stored. -/
def Plan.audit (plan : Plan) : PlanState × Option Bool × String × Bool :=
  (plan.state, plan.gatesSkipped, plan.statusDetail, plan.maintenanceBlocked)

/-- The transition table of `validated_plan_object`. -/
def validTransition (stored plan : Plan) : Bool :=
  stored.state == plan.state ||
    (match stored.state, plan.state with
      | .computed, .running | .computed, .blocked | .blocked, .running
      | .running, .blocked | .running, .succeeded | .running, .failed => true
      | _, _ => false) ||
    (stored.steps.isEmpty && plan.steps.isEmpty && stored.state == .computed &&
      plan.state == .succeeded)

/-- `validated_plan_object`, for a plan already stored: the error it bails with, or
    nothing when the write may proceed. -/
def validatedPlanObject (stored plan : Plan) : Except String Unit :=
  if stored.executableContent ≠ plan.executableContent then
    .error s!"plan {plan.id} executable content is immutable"
  else if stored.state = plan.state ∧ stored.state ≠ .blocked ∧
      (stored.gatesSkipped ≠ plan.gatesSkipped ∨ stored.statusDetail ≠ plan.statusDetail ∨
        stored.maintenanceBlocked ≠ plan.maintenanceBlocked) then
    .error s!"plan {plan.id} lifecycle audit fields are immutable"
  else if validTransition stored plan then
    .ok ()
  else
    .error s!"plan {plan.id} cannot transition from {stored.state} to {plan.state}"

theorem validatedPlanObject_content {stored plan : Plan}
    (h : validatedPlanObject stored plan = .ok ()) :
    stored.executableContent = plan.executableContent := by
  unfold validatedPlanObject at h
  split at h
  · cases h
  next hcont => exact not_not.mp hcont

theorem validatedPlanObject_terminal {stored plan : Plan}
    (h : validatedPlanObject stored plan = .ok ()) (hterm : stored.state.terminal) :
    plan.state = stored.state := by
  unfold validatedPlanObject at h
  split at h
  · cases h
  · split at h
    · cases h
    · split at h
      next hvld =>
        cases hs : stored.state <;> cases hp : plan.state <;>
          simp_all [validTransition, PlanState.terminal]
      · cases h

end Tenkai
