import Tenkai.Plan
import Tenkai.Properties

/-!
# What is recorded about a deployment

`environment.rs` keeps what runs of an instance as properties of its environment, and an outcome
changes them by one of five transitions. The functions here are the changes to the property map.
The digest of a product's overlays is a parameter.
-/

namespace Tenkai

def releaseId (product version : String) : String := "tenkai:release:" ++ product ++ "@" ++ version

theorem releaseId_inj {p version version' : String}
    (h : releaseId p version = releaseId p version') : version = version' := by
  have hlist : (("tenkai:release:" ++ p ++ "@") ++ version).toList =
      (("tenkai:release:" ++ p ++ "@") ++ version').toList := congrArg String.toList h
  simp only [String.toList_append] at hlist
  exact String.toList_inj.mp (List.append_cancel_left hlist)

theorem releaseId_left_inj {p product' version : String}
    (h : releaseId p version = releaseId product' version) : p = product' := by
  have hlist : ("tenkai:release:" ++ p ++ "@" ++ version).toList =
      ("tenkai:release:" ++ product' ++ "@" ++ version).toList := congrArg String.toList h
  simp only [String.toList_append] at hlist
  exact String.toList_inj.mp
    (List.append_cancel_left (List.append_cancel_right (List.append_cancel_right hlist)))

def Step.installed (step : Step) : Option String :=
  step.fromVersion.map (Tenkai.releaseId step.product)

inductive DeploymentTransition
  | unchanged
  | deployed (version : String) (previous : Option String)
  /-- Same-version refresh: health and overlays change, rollback history does not. -/
  | refreshed
  /-- The release was uninstalled; it is the rollback target. -/
  | removed (version : String)
  | unknown
  deriving DecidableEq

namespace DeploymentTransition

variable (transition : DeploymentTransition) (before : Option String)

def deployedAfter : Option String :=
  match transition with
  | .unchanged | .refreshed => before
  | .deployed version _ => some version
  | .removed _ | .unknown => none

def releaseAfter (product : String) : Option String :=
  match transition with
  | .unchanged | .refreshed => before
  | .deployed version _ => some (releaseId product version)
  | .removed _ | .unknown => none

/-- The version it leaves to roll back to. -/
def previousAfter : Option String :=
  match transition with
  | .unchanged | .refreshed | .unknown => before
  | .deployed _ previous => previous <|> before
  | .removed version => some version

def leavesDeployed : Bool :=
  match transition with
  | .deployed _ _ | .refreshed => true
  | .unchanged | .removed _ | .unknown => false

def healthAfter : Option String :=
  match transition with
  | .unchanged => before
  | .refreshed | .deployed _ _ => some "healthy"
  | .removed _ => none
  | .unknown => some "unknown"

def configAfter (stamped : Option String) : Option String :=
  match transition with
  | .refreshed | .deployed _ _ => stamped
  | .removed _ => none
  | .unchanged | .unknown => before

def valueAfter (product : String) (stamped : Option String) (field : Field) : Option String :=
  match field with
  | .deployed => transition.deployedAfter before
  | .deployedRelease => transition.releaseAfter before product
  | .deployedPrev => transition.previousAfter before
  | .deploymentHealth => transition.healthAfter before
  | .appliedConfig => transition.configAfter before stamped
  | _ => before

end DeploymentTransition

structure DeploymentObservation where
  planId : String
  step : Step
  status : StepOutcomeStatus
  detail : String
  transition : DeploymentTransition

/-- `environment_changed`: a failure is noted even where nothing else changed. -/
def DeploymentObservation.changesEnvironment (observation : DeploymentObservation) : Bool :=
  observation.transition ≠ .unchanged || observation.status = .failed ||
    observation.status = .rolledBack

def instanceKey (product inst : String) : String :=
  if inst.isEmpty then product else inst

theorem instanceKey_instanceName (step : Step) :
    instanceKey step.product step.instanceName = step.instanceName := by
  unfold instanceKey Step.instanceName
  by_cases hinst : step.instance.isEmpty
  · simp [hinst]
  · simp [hinst]

namespace Properties

variable (digest : Option String → String)

def overlayDigestFor (properties : Properties) (product : String) : String :=
  digest (properties.get .overlay product)

def stampAppliedOverlays (properties : Properties) (product inst : String) : Properties :=
  let key := instanceKey product inst
  let applied := properties.overlayDigestFor digest product
  if applied.isEmpty then
    (properties.remove .appliedConfig key).remove .configDigest product
  else
    (properties.set .appliedConfig key applied).set .configDigest product applied

def clearUnknownOrigin (properties : Properties) (name : String) : Properties :=
  ((properties.remove .deploymentUnknownPlan name).remove .deploymentUnknownStep name).remove
    .deploymentUnknownAttempt name

/-- The recorded outcome is healthy, with the overlays of this moment. -/
def markHealthy (properties : Properties) (product inst : String) : Properties :=
  let key := instanceKey product inst
  (((properties.set .deploymentHealth key "healthy").remove .deploymentError
    key).stampAppliedOverlays digest product inst).clearUnknownOrigin key

def setPrevious (properties : Properties) (key : String) : Option String → Properties
  | some previous => properties.set .deployedPrev key previous
  | none => properties

def transitionDeployment (properties : Properties) (product inst : String)
    (transition : DeploymentTransition) (detail : String) : Properties :=
  let key := instanceKey product inst
  match transition with
  | .unchanged => properties
  | .refreshed => properties.markHealthy digest product inst
  | .deployed version previous =>
    ((((properties.set .deployed key version).set .deployedRelease key
      (releaseId product version)).setPrevious key previous).markHealthy digest product
        inst)
  | .removed version =>
    (((((((properties.remove .deployed key).remove .deployedRelease key).remove
      .deploymentHealth key).remove .deploymentError key).remove .appliedDependencies
        key).remove .appliedConfig key).set .deployedPrev key version).clearUnknownOrigin key
  | .unknown =>
    (((properties.remove .deployed key).remove .deployedRelease key).set .deploymentHealth key
      "unknown").set .deploymentError key detail

def recordDeployed (properties : Properties) (product inst version : String)
    (previous dependencies : Option String) : Properties :=
  let key := instanceKey product inst
  let stamped := ((((properties.set .deployed key version).set .deployedRelease key
    (releaseId product version)).setPrevious key previous).set .deploymentHealth key
      "healthy").remove .deploymentError key |>.stampAppliedOverlays digest product inst
  match dependencies with
  | some document => stamped.set .appliedDependencies product document
  | none => stamped.remove .appliedDependencies product

def recordUnknown (properties : Properties) (product inst detail : String) : Properties :=
  (properties.transitionDeployment digest product inst .unknown detail).clearUnknownOrigin
    inst

/-- The longest failure cause kept for a held failed target. -/
def failedTargetErrorChars : Nat := 1000

/-- The release that failed is held; a success of it lifts the hold. -/
def recordFailedTarget (properties : Properties) (observation : DeploymentObservation)
    (observedAt : Int) : Properties :=
  let «instance» := observation.step.instanceName
  let release := observation.step.releaseId
  if (observation.status = .failed ∨ observation.status = .rolledBack) ∧
      observation.step.action ≠ .rollback then
    (((properties.set .failedTarget «instance» release).set .failedTargetPlan «instance»
      observation.planId).set .failedTargetAt «instance» (toString observedAt)).set
        .failedTargetError «instance»
          (release ++ "\n" ++ String.ofList (observation.detail.toList.take failedTargetErrorChars))
  else if observation.status = .succeeded ∧ properties.get .failedTarget «instance» = some release ∧
      observation.transition ≠ .unchanged ∧ observation.transition ≠ .unknown then
    (properties.remove .failedTarget «instance»).remove .failedTargetPlan «instance»
  else properties

def noteUnknownOrigin (properties : Properties) (observation : DeploymentObservation)
    (attempt : String) : Properties :=
  let «instance» := observation.step.instanceName
  if observation.transition = .unknown then
    ((properties.set .deploymentUnknownPlan «instance» observation.planId).set
      .deploymentUnknownStep «instance» observation.step.id).set .deploymentUnknownAttempt
        «instance» attempt
  else properties

/-- The document last applied, after a success. -/
def stampDependencies (properties : Properties) (observation : DeploymentObservation)
    (dependencies : Option String) : Properties :=
  if observation.status = .succeeded && observation.transition.leavesDeployed then
    match dependencies with
    | some document => properties.set .appliedDependencies observation.step.product document
    | none => properties.remove .appliedDependencies observation.step.product
  else
    match observation.status, observation.transition with
    | .succeeded, .removed _ => properties.remove .appliedDependencies observation.step.product
    | _, _ => properties

/-- `record_deployment_observation`, on the map. -/
def observe (properties : Properties) (observation : DeploymentObservation) (attempt : String)
    (observedAt : Int) (dependencies : Option String) : Properties :=
  ((((properties.transitionDeployment digest observation.step.product
    observation.step.instanceName observation.transition observation.detail).recordFailedTarget
      observation observedAt).noteUnknownOrigin observation attempt).stampDependencies observation
        dependencies)

/-! ### What each change does to a property -/

section Get

variable {digest} {props : Properties} {p inst name detail : String} {field : Field}

/-- What `stamp_applied_overlays` leaves of the configuration applied. -/
def stampedConfig (digest : Option String → String) (properties : Properties) (product : String) :
    Option String :=
  let applied := properties.overlayDigestFor digest product
  if applied.isEmpty then none else some applied

theorem get_stampAppliedOverlays (hfld : field ≠ .configDigest) :
    (props.stampAppliedOverlays digest p inst).get field name = if field = .appliedConfig ∧
      name = instanceKey p inst then props.stampedConfig digest p else props.get field name := by
  by_cases hempty : (props.overlayDigestFor digest p).isEmpty
  · simp only [stampAppliedOverlays, stampedConfig, hempty, if_true, get_remove, hfld, false_and,
      if_false]
  · simp only [stampAppliedOverlays, stampedConfig, hempty, Bool.false_eq_true, if_false, get_set,
      hfld, false_and]

theorem get_clearUnknownOrigin (hplan : field ≠ .deploymentUnknownPlan)
    (hstep : field ≠ .deploymentUnknownStep) (hattempt : field ≠ .deploymentUnknownAttempt)
    {cleared : String} :
    (props.clearUnknownOrigin cleared).get field name = props.get field name := by
  simp [clearUnknownOrigin, get_remove, hplan, hstep, hattempt]

theorem get_setPrevious {key : String} {prev : Option String} :
    (props.setPrevious key prev).get field name = if field = .deployedPrev ∧
      name = key then prev <|> props.get field name else props.get field name := by
  cases prev with
  | none => simp [setPrevious]
  | some prev => simp [setPrevious, get_set]

/-- What a transition tells, and the overlays it leaves alone. -/
def isTold : Field → Bool
  | .deployed | .deployedRelease | .deployedPrev | .deploymentHealth | .appliedConfig
  | .overlay => true
  | _ => false

theorem ne_of_isTold (hfld : isTold field) (other : Field) (hoth : isTold other = false) :
    field ≠ other := by
  rintro rfl
  rw [hoth] at hfld
  cases hfld

theorem get_transitionDeployment
    (hfld : isTold field ∨ field = .failedTarget ∨ field = .failedTargetAt)
    (transition : DeploymentTransition) :
    (props.transitionDeployment digest p inst transition detail).get field name = if name =
      instanceKey p inst then transition.valueAfter (props.get field name) p
      (props.stampedConfig digest p) field else props.get field name := by
  cases transition <;> cases field <;>
    simp_all [isTold, transitionDeployment, markHealthy, get_clearUnknownOrigin,
      get_stampAppliedOverlays, get_setPrevious, get_set, get_remove, stampedConfig,
      overlayDigestFor, DeploymentTransition.valueAfter, DeploymentTransition.deployedAfter,
      DeploymentTransition.releaseAfter, DeploymentTransition.previousAfter,
      DeploymentTransition.healthAfter, DeploymentTransition.configAfter]

/-- What else an observation notes is about neither what is deployed nor what is held. -/
theorem get_notes (hfld : isTold field ∨ field = .failedTarget ∨ field = .failedTargetAt)
    (obs : DeploymentObservation) (attempt : String) (deps : Option String) :
    ((props.noteUnknownOrigin obs attempt).stampDependencies obs
      deps).get field name = props.get field name := by
  have hne : field ≠ .appliedDependencies ∧ field ≠ .deploymentUnknownPlan ∧
      field ≠ .deploymentUnknownStep ∧ field ≠ .deploymentUnknownAttempt := by
    refine ⟨?_, ?_, ?_, ?_⟩ <;> rintro rfl <;> simp [isTold] at hfld
  have hstamp : ∀ props : Properties, (props.stampDependencies obs deps).get field name =
        props.get field name := by
    intro props
    unfold stampDependencies
    split <;> split <;> simp [get_set, get_remove, hne.1]
  rw [hstamp]
  unfold noteUnknownOrigin
  split
  · simp [get_set, hne.2]
  · rfl

theorem get_observe (hfld : isTold field) (obs : DeploymentObservation)
    (attempt : String) (seenAt : Int) (deps : Option String) :
    (props.observe digest obs attempt seenAt deps).get field name =
      (props.transitionDeployment digest obs.step.product
        obs.step.instanceName obs.transition obs.detail).get field name := by
  have hne := ne_of_isTold hfld
  rw [observe, get_notes (.inl hfld)]
  unfold recordFailedTarget
  dsimp only
  split
  · simp only [get_set, hne .failedTarget rfl, hne .failedTargetPlan rfl,
      hne .failedTargetAt rfl, hne .failedTargetError rfl, false_and, if_false]
  · split
    · simp only [get_remove, hne .failedTarget rfl, hne .failedTargetPlan rfl, false_and, if_false]
    · rfl

theorem get_recordDeployed (hfld : isTold field) (v : String) (prev deps : Option String) :
    (props.recordDeployed digest p inst v prev deps).get field name =
      (props.transitionDeployment digest p inst (.deployed v prev) detail).get field name := by
  have hne := ne_of_isTold hfld
  rw [transitionDeployment, markHealthy, get_clearUnknownOrigin (hne _ rfl) (hne _ rfl) (hne _ rfl)]
  unfold recordDeployed
  cases deps <;> simp only [get_set, get_remove, hne .appliedDependencies rfl, false_and, if_false]

theorem get_recordUnknown (hfld : isTold field) {text : String} :
    (props.recordUnknown digest p inst text).get field name =
      (props.transitionDeployment digest p inst .unknown detail).get field name := by
  have hne := ne_of_isTold hfld
  rw [recordUnknown, get_clearUnknownOrigin (hne _ rfl) (hne _ rfl) (hne _ rfl)]
  simp only [transitionDeployment, get_set, get_remove, hne .deploymentError rfl, false_and,
    if_false]

end Get

end Properties

namespace DeploymentObservation

/-- The hold an observation leaves on a target, from the one before. -/
def holdAfter (observation : DeploymentObservation) (before : Option String) : Option String :=
  if (observation.status = .failed ∨ observation.status = .rolledBack) ∧
      observation.step.action ≠ .rollback then some observation.step.releaseId
  else if observation.status = .succeeded ∧ before = some observation.step.releaseId ∧
      observation.transition ≠ .unchanged ∧ observation.transition ≠ .unknown then none
  else before

def configAfter (observation : DeploymentObservation) (digest : Option String → String)
    (properties : Properties) : Option String :=
  match observation.transition with
  | .refreshed | .deployed _ _ => properties.stampedConfig digest observation.step.product
  | .removed _ => none
  | .unchanged | .unknown => properties.get .appliedConfig observation.step.instanceName

def isOutcomeField : Field → Bool
  | .deployed | .deployedRelease | .deployedPrev | .deploymentHealth | .appliedConfig
  | .failedTarget => true
  | _ => false

def valueAfter (observation : DeploymentObservation) (digest : Option String → String)
    (properties : Properties) (field : Field) : Option String :=
  let before := properties.get field observation.step.instanceName
  match field with
  | .deployed => observation.transition.deployedAfter before
  | .deployedRelease => observation.transition.releaseAfter before observation.step.product
  | .deployedPrev => observation.transition.previousAfter before
  | .deploymentHealth => observation.transition.healthAfter before
  | .appliedConfig => observation.configAfter digest properties
  | .failedTarget => observation.holdAfter before
  | _ => before

end DeploymentObservation

namespace Properties

variable {digest : Option String → String} {props : Properties} {name : String}
  {field : Field}

open DeploymentObservation (isOutcomeField)

theorem get_recordFailedTarget (obs : DeploymentObservation) (seenAt : Int) :
    (props.recordFailedTarget obs seenAt).get .failedTarget name = if name =
      obs.step.instanceName then obs.holdAfter (props.get .failedTarget name) else props.get
      .failedTarget name := by
  unfold recordFailedTarget DeploymentObservation.holdAfter
  dsimp only
  by_cases hname : name = obs.step.instanceName
  · subst hname
    split
    · simp [get_set]
    · split <;> simp [get_remove]
  · split
    · simp [get_set, hname]
    · split <;> simp [get_remove, hname]

/-- What an observation does to the outcome recorded, and to the overlays. -/
theorem get_observe_outcome (hfld : isOutcomeField field ∨ field = .overlay)
    (obs : DeploymentObservation) (attempt : String) (seenAt : Int)
    (deps : Option String) :
    (props.observe digest obs attempt seenAt deps).get field name = if name =
      obs.step.instanceName then obs.valueAfter digest props field else props.get field name := by
  have hkey := instanceKey_instanceName obs.step
  by_cases htgt : field = .failedTarget
  · subst htgt
    rw [observe, get_notes (.inr (.inl rfl)), get_recordFailedTarget,
      get_transitionDeployment (.inr (.inl rfl)), hkey]
    by_cases hname : name = obs.step.instanceName
    · rw [if_pos hname, if_pos hname, if_pos hname, hname]
      rfl
    · rw [if_neg hname, if_neg hname, if_neg hname]
  · have htold : isTold field := by
      cases field <;> simp_all [isOutcomeField, isTold]
    rw [get_observe htold, get_transitionDeployment (.inl htold), hkey]
    by_cases hname : name = obs.step.instanceName
    · rw [if_pos hname, if_pos hname, hname]
      cases field <;> first | rfl | cases htold
    · rw [if_neg hname, if_neg hname]

end Properties

end Tenkai
