import Tenkai.Prog
import Tenkai.Deployment
import Mathlib.Data.List.Infix

/-!
# One plan step

`step_lifecycle::execute`: the release of a step is admitted, activated (or restarted, or handed to
the host applier), its health gate is evaluated, and the outcome is recorded; a failure on the way
is cleaned up, restored from or compensated for. Executors, gates, admission and the rest of the
store are operations with any answer. Three fields of the state are accounts read by no program:
the calls to executors, the observations that took effect, and whether bookkeeping since the last
call failed.
-/

namespace Tenkai.StepLifecycle

/-! ### Data -/

/-- What an error was caused by, as far as the code looks. -/
inductive Cause
  /-- A compatibility, placement or target check refused before anything ran. -/
  | refusal
  | fenceLost
  | other
  deriving DecidableEq

structure Failure where
  message : String
  cause : Cause
  deriving DecidableEq

inductive ProductTarget
  | software
  | routingConfig
  | modelRuntime
  | workerPool
  | staged
  deriving DecidableEq

inductive CleanupPolicy
  | atomic
  | uninstallIfDeclared

def ProductTarget.cleanup : ProductTarget → CleanupPolicy
  | .software => .uninstallIfDeclared
  | .routingConfig | .modelRuntime | .workerPool | .staged => .atomic

/-- What execution reads of a release manifest. -/
structure Manifest where
  version : String
  target : ProductTarget
  /-- `deploy.executor = "host"`. -/
  host : Bool
  /-- The declared executor resolves to an adapter of this process, not to the shell. -/
  adapted : Bool
  uninstall : Option String

structure ReleaseContent where
  releaseId : String
  environment : String
  product : String
  «instance» : String
  manifest : Manifest

def ReleaseContent.restoresAutomatically (content : ReleaseContent) : Bool :=
  !content.manifest.host

def ReleaseContent.declaresUninstall (content : ReleaseContent) : Bool :=
  content.manifest.uninstall.any (!·.isEmpty)

/-- Only the adapters of software products are given overlays. -/
def ReleaseContent.takesOverlays (content : ReleaseContent) : Bool :=
  content.manifest.target == .software && content.manifest.adapted

def ReleaseContent.shellWithoutCleanup (content : ReleaseContent) : Bool :=
  content.manifest.target == .software && !content.manifest.adapted && !content.declaresUninstall

inductive GateFailPolicy
  | halt
  | rollback
  deriving DecidableEq

structure HealthGateSpec where
  isEmpty : Bool
  onFail : Option GateFailPolicy

structure HealthGateEvidence where
  passed : Bool
  summary : String

structure HealthGateDecision where
  evidence : HealthGateEvidence
  action : GateFailPolicy

inductive HostApplyOutcome
  | succeeded
  | failed
  | timedOut
  | stopped
  | interrupted
  deriving DecidableEq

instance : ToString HostApplyOutcome where
  toString
    | .succeeded => "Succeeded"
    | .failed => "Failed"
    | .timedOut => "TimedOut"
    | .stopped => "Stopped"
    | .interrupted => "Interrupted"

instance : ToString HostAction where
  toString
    | .install => "install"
    | .uninstall => "uninstall"
    | .health => "health"

inductive HostStepEnd
  | recorded (outcome : HostApplyOutcome) (detail : String)
  | notRun (detail : String)
  | unknown (detail : String)

/-- Code outside the model: the digest of a stored overlay property, and what the text of
    an executor's error is reduced to. -/
structure Externals where
  digest : Option String → String
  sanitize : String → String

/-! ### Operations -/

inductive ExecutorCall
  | activate
  | restart
  | deactivate
  /-- Deactivation after an activation that failed. -/
  | cleanupFailedApply

/-- Whether a call, when it succeeds, leaves the release running. -/
def ExecutorCall.starts : ExecutorCall → Bool
  | .activate | .restart => true
  | .deactivate | .cleanupFailedApply => false

structure ExecutorEvent where
  call : ExecutorCall
  «instance» : String
  releaseId : String
  overlays : Option String
  succeeded : Bool

/-- Which code reads the environment. -/
inductive Reader
  | admission
  | gate
  /-- `software_request`. -/
  | request
  | bookkeeping
  | edit
  deriving DecidableEq

inductive Relation
  | deployedRelease
  | inEnvironment
  | partOfPlan
  deriving DecidableEq

/-- What is decided outside the shared state. -/
inductive Question
  | admitRelease (pin : ReleasePin) (recalled : Bool)
  | requireAvailable (releaseId : String)
  | requireSameExecutor (releaseId : String)
  | verifyEnvironmentPull (releaseId : String)
  | requireManifest (releaseId : String)
  | requireManifestPlacement (releaseId : String)
  | resolveSpec
  /-- The sample the bake window ends with. -/
  | sampleWithLease
  | persistEvidence
  | autoRollbackTarget (pin : ReleasePin)
  | hostExecutor
  | requireHostProduct
  | subscribes
  | hostRequest
  | refreshLease
  | link (relation : Relation)
  | outcomeExport
  | dependencyDocument (product : String)
  | providerEvents
  | storeBatches
  deriving DecidableEq

def Question.Answer : Question → Type
  | .admitRelease _ _ => Manifest
  | .resolveSpec => HealthGateSpec
  | .sampleWithLease => HealthGateEvidence
  | .autoRollbackTarget _ | .subscribes | .outcomeExport | .storeBatches => Bool
  -- a request that cannot be made is a detail of the outcome, not an error
  | .hostRequest => Except String Unit
  | .dependencyDocument _ => Option String
  | _ => Unit

/-- Asked while an outcome is being recorded. -/
def Question.isBookkeeping : Question → Bool
  | .refreshLease | .link _ | .outcomeExport | .dependencyDocument _ | .providerEvents
  | .storeBatches => true
  | _ => false

/-- Asked while a health gate is evaluated. -/
def Question.isGate : Question → Bool
  | .resolveSpec | .sampleWithLease | .persistEvidence | .autoRollbackTarget _ => true
  | _ => false

/-- A write of the environment: what it makes of the properties it was computed from. -/
inductive Write
  | observe (observation : DeploymentObservation) (attempt : String) (observedAt : Int)
      (dependencies : Option String)
  | deployed (product inst version : String) (previous dependencies : Option String)
  | unknown (product inst detail : String)

def Write.apply (digest : Option String → String) (base : Properties) : Write → Properties
  | .observe observation attempt observedAt dependencies =>
    base.observe digest observation attempt observedAt dependencies
  | .deployed product inst version previous dependencies =>
    base.recordDeployed digest product inst version previous dependencies
  | .unknown product inst detail => base.recordUnknown digest product inst detail

def Write.observed : Write → List DeploymentObservation
  | .observe observation _ _ _ => [observation]
  | _ => []

/-- What a write says of the deployment, and the instance it says it of. -/
def Write.transition : Write → DeploymentTransition
  | .observe observation _ _ _ => observation.transition
  | .deployed _ _ version previous _ => .deployed version previous
  | .unknown _ _ _ => .unknown

def Write.key : Write → String
  | .observe observation _ _ _ => observation.step.instanceName
  | .deployed product inst _ _ _ | .unknown product inst _ =>
    instanceKey product inst

inductive Op
  | decide (question : Question)
  | nowMillis
  | readEnvironment (reader : Reader)
  | execute (call : ExecutorCall) (inst releaseId : String) (overlays : Option String)
  | runHost (action : HostAction)
  | createAttempt
  /-- The attempt and the environment, in one guarded update. -/
  | commit (base : Properties) (write : Write) (status : StepOutcomeStatus) (detail : String)
  | updateEnvironment (base : Properties) (write : Write)
  | updateAttempt (status : StepOutcomeStatus) (detail : String)
  | readAttempt
  | claimEnvironment
  | releaseEnvironment
  /-- The unguarded put of an overlay edit. -/
  | put (properties : Properties)

/-- How a store operation goes wrong, if it does, and the error it then returns. -/
structure Outage where
  fault : Fault
  failure : Failure

def Op.Choice : Op → Type
  | .decide question => Except Failure question.Answer
  | .nowMillis => Int
  | .execute _ _ _ _ => Except Failure (Except String Unit)
  | .runHost _ => Except Failure HostStepEnd
  | .claimEnvironment | .releaseEnvironment => Unit
  | _ => Outage

abbrev Attempt : Type := StepOutcomeStatus × String

def Op.Reply : Op → Type
  | .decide question => Except Failure question.Answer
  | .nowMillis => Int
  | .readEnvironment _ => Except Failure Properties
  | .execute _ _ _ _ => Except Failure (Except String Unit)
  | .runHost _ => Except Failure HostStepEnd
  | .readAttempt => Except Failure (Option Attempt)
  | .releaseEnvironment => Unit
  | _ => Except Failure Unit

abbrev interface : Interface where
  Op := Op
  Choice := Op.Choice
  Reply := Op.Reply

structure World where
  environment : Properties
  attempt : Option Attempt
  /-- An execution holds the environment lease. -/
  executing : Bool
  /-- Every call made to an executor. -/
  history : List ExecutorEvent
  /-- Every observation that took effect. -/
  observed : List DeploymentObservation
  /-- Bookkeeping since the last call to an executor failed. -/
  unrecorded : Bool

/-- The release of the last start of an instance that succeeded, if no removal of it did
    since. -/
def running (name : String) (history : List ExecutorEvent) : Option String :=
  history.foldl (fun runs event =>
    if event.instance = name ∧ event.succeeded then
      if event.call.starts then some event.releaseId else none
    else runs) none

theorem running_append (name : String) (history : List ExecutorEvent) (ev : ExecutorEvent) :
    running name (history ++ [ev]) = if ev.instance = name ∧
      ev.succeeded then if ev.call.starts then some ev.releaseId else none else running name history :=
  List.foldl_append ..

def Attempt.incomplete : Attempt := (.failed, "deployment bookkeeping incomplete")

def World.miss (w : World) (failed : Bool) : World :=
  { w with unrecorded := failed || w.unrecorded }

def World.written (ext : Externals) (w : World) (base : Properties) (write : Write) : World :=
  { w with environment := write.apply ext.digest base, observed := w.observed ++ write.observed }

def succeeded : Except Failure (Except String Unit) → Bool
  | .ok (.ok ()) => true
  | _ => false

def Outage.read {α : Type} (outage : Outage) (value : α) : Except Failure α :=
  if outage.fault = .none then .ok value else .error outage.failure

/-- A bookkeeping write: a refused one is missing. -/
def Outage.write (outage : Outage) (w after : World) : Except Failure Unit × World :=
  outage.fault.run outage.failure (w.miss true) (.ok (), after)

def alreadyClaimed : Failure := ⟨"environment is already claimed", .other⟩

def exec (ext : Externals) : Exec interface World
  | .decide question, answer, w =>
    (answer, w.miss (!answer.isOk && question.isBookkeeping))
  | .nowMillis, now, w => (now, w)
  | .readEnvironment reader, outage, w =>
    (outage.read w.environment, w.miss (outage.fault ≠ .none && reader = .bookkeeping))
  | .execute call inst releaseId overlays, answer, w =>
    (answer, { w with
      history := w.history ++ [⟨call, inst, releaseId, overlays, succeeded answer⟩]
      unrecorded := false })
  | .runHost _, answer, w => (answer, { w with unrecorded := false })
  | .createAttempt, outage, w =>
    let created := { w with attempt := some Attempt.incomplete }
    outage.fault.run outage.failure (w.miss true) (.ok (), created.miss (outage.fault ≠ .none))
  | .commit base write status detail, outage, w =>
    outage.write w { w.written ext base write with attempt := some (status, detail) }
  | .updateEnvironment base write, outage, w => outage.write w (w.written ext base write)
  | .updateAttempt status detail, outage, w =>
    outage.write w { w with attempt := some (status, detail) }
  | .readAttempt, outage, w => (outage.read w.attempt, w)
  | .claimEnvironment, _, w =>
    if w.executing then (.error alreadyClaimed, w) else (.ok (), { w with executing := true })
  | .releaseEnvironment, _, w => ((), { w with executing := false })
  | .put properties, outage, w =>
    outage.fault.run outage.failure w (.ok (), { w with environment := properties })

/-! ### Programs -/

/-- Code that asks operations and may return an error. -/
abbrev M : Type → Type := ExceptT Failure (Prog interface)

def request (op : Op) : Prog interface op.Reply := .ask op .done

def M.decide (question : Question) : M question.Answer := ExceptT.mk (request (.decide question))

def M.nowMillis : M Int := ExceptT.lift (request .nowMillis)

def M.readEnvironment (reader : Reader) : M Properties :=
  ExceptT.mk (request (.readEnvironment reader))

def M.runHost (action : HostAction) : M HostStepEnd := ExceptT.mk (request (.runHost action))

def M.createAttempt : M Unit := ExceptT.mk (request .createAttempt)

def M.commit (base : Properties) (write : Write) (status : StepOutcomeStatus) (detail : String) :
    M Unit :=
  ExceptT.mk (request (.commit base write status detail))

def M.updateEnvironment (base : Properties) (write : Write) : M Unit :=
  ExceptT.mk (request (.updateEnvironment base write))

def M.updateAttempt (status : StepOutcomeStatus) (detail : String) : M Unit :=
  ExceptT.mk (request (.updateAttempt status detail))

def M.readAttempt : M (Option Attempt) := ExceptT.mk (request .readAttempt)

/-- The result of `x` as a value, for code that looks at it before it returns. -/
def M.caught {α : Type} (x : M α) : M (Except Failure α) := ExceptT.lift x.run

/-- The result of a call to an executor, unless the fence was lost. -/
def fenced (x : M (Except String Unit)) : M (Except Failure (Except String Unit)) := do
  match ← M.caught x with
  | .ok result => pure (.ok result)
  | .error error => if error.cause = .fenceLost then throw error else pure (.error error)

/-! ### Recording an outcome -/

def deploymentId (environment product : String) (now : Int) : String :=
  s!"tenkai:deployment:{environment}:{product}:{now}"

section Programs

variable (plan : Plan) (step : Step)

def linkAttempt : M Unit := do
  M.decide .refreshLease
  M.decide (.link .deployedRelease)
  M.decide .refreshLease
  M.decide (.link .inEnvironment)
  M.decide .refreshLease
  M.decide (.link .partOfPlan)

def readForObservation (observation : DeploymentObservation) : M (Option Properties) := do
  let exported : Bool ← M.decide .outcomeExport
  if exported || observation.transition ≠ .unchanged || observation.status ≠ .blocked then do
    let environment ← M.readEnvironment .bookkeeping
    pure (some environment)
  else pure none

/-- The document to stamp: made for a success that leaves the release deployed. -/
def dependenciesFor (observation : DeploymentObservation) : M (Option String) :=
  if observation.status = .succeeded && observation.transition.leavesDeployed then
    M.decide (.dependencyDocument observation.step.product)
  else pure none

/-- An update that reports an error counts if the attempt is found as it was to be left. -/
def confirmAttempt (observation : DeploymentObservation) (update : M Unit) : M Unit := do
  match ← M.caught update with
  | .ok () => pure ()
  | .error error => do
    let persisted ← M.caught M.readAttempt
    match persisted with
    | .ok (some attempt) =>
      if attempt = (observation.status, observation.detail) then pure () else throw error
    | _ => throw error

/-- The last writes: attempt and environment together where the store can, else one after
    the other. -/
def landObservation (observation : DeploymentObservation) (environment : Option Properties)
    (write : Write) : M Unit := do
  let together : Bool ← M.decide .storeBatches
  match environment, observation.changesEnvironment, together with
  | some base, true, true =>
    confirmAttempt observation (M.commit base write observation.status observation.detail)
  | some base, true, false => do
    M.updateEnvironment base write
    confirmAttempt observation (M.updateAttempt observation.status observation.detail)
  | _, _, _ =>
    confirmAttempt observation (M.updateAttempt observation.status observation.detail)

def record (outcome : Outcome) (transition : DeploymentTransition) : M Unit := do
  let observation : DeploymentObservation :=
    { planId := plan.id, step := outcome.step, status := outcome.status,
      detail := outcome.detail, transition }
  let observedAt ← M.nowMillis
  M.createAttempt
  linkAttempt
  let updatedAt ← M.nowMillis
  let environment ← readForObservation observation
  let dependencies ← dependenciesFor observation
  M.decide .providerEvents
  landObservation observation environment
    (.observe observation
      (deploymentId plan.environment outcome.step.instanceName observedAt) updatedAt dependencies)

def recordDeployed (version : String) (previous : Option String) : M Unit := do
  let base ← M.readEnvironment .bookkeeping
  let dependencies ← M.decide (.dependencyDocument step.product)
  M.updateEnvironment base
    (.deployed step.product step.instanceName version previous dependencies)

def recordUnknown (detail : String) : M Unit := do
  let base ← M.readEnvironment .bookkeeping
  M.updateEnvironment base (.unknown step.product step.instanceName detail)

/-! ### Executors -/

def Manifest.content (manifest : Manifest) (pin : ReleasePin) : ReleaseContent where
  releaseId := pin.releaseId
  environment := plan.environment
  product := step.product
  «instance» := step.instanceName
  manifest := manifest

def admitRelease (pin : ReleasePin) (recalled : Bool) : M ReleaseContent := do
  let manifest ← M.decide (.admitRelease pin recalled)
  pure (manifest.content plan step pin)

/-- The overlays `software_request` puts into the request. -/
def requestOverlays (content : ReleaseContent) : M (Option String) :=
  if content.takesOverlays then do
    let environment ← M.readEnvironment .request
    pure (environment.get .overlay content.product)
  else pure none

def callExecutor (call : ExecutorCall) (content : ReleaseContent) (overlays : Option String) :
    M (Except String Unit) :=
  ExceptT.mk (request (.execute call content.instance content.releaseId overlays))

def activate (content : ReleaseContent) : M (Except String Unit) := do
  let overlays ← requestOverlays content
  callExecutor .activate content overlays

def restart (content : ReleaseContent) : M (Except String Unit) := do
  let overlays ← requestOverlays content
  callExecutor .restart content overlays

def deactivate (content : ReleaseContent) : M (Except String Unit) :=
  callExecutor .deactivate content none

def cleanupFailedActivation (content : ReleaseContent) (failure : String) : M (Bool × String) :=
  match content.manifest.target.cleanup, content.manifest.uninstall with
  | .atomic, _ => pure (true, failure)
  | .uninstallIfDeclared, none => pure (false, failure)
  | .uninstallIfDeclared, some _ => do
    match ← fenced (callExecutor .cleanupFailedApply content none) with
    | .ok (.ok ()) => pure (true, s!"{failure}; cleaned up failed install")
    | .ok (.error cleanup) => pure (false, s!"{failure}; cleanup also failed: {cleanup}")
    | .error error =>
      pure (false, s!"{failure}; cleanup executor also failed: {error.message}")

/-! ### Recovery -/

def hostNotRestored : String :=
  "host releases are never restored or re-applied automatically; run an approved rollback plan"

def hostStepFailed (detail : String) : Outcome × Option DeploymentTransition :=
  (⟨step, .failed, s!"{detail}; {hostNotRestored}"⟩, some .unknown)

def rollbackChannelNote (product restoredVersion : String) : String :=
  s!"restored {product} to {restoredVersion}; channel head is unchanged (status may show " ++
    "behind until re-promote)"

/-- `format_software_phase_error` for the restore phase. -/
def formatRestoreError (ext : Externals) (content : ReleaseContent) (version detail : String) :
    String :=
  s!"software deploy phase=restore product={content.product}@{version} " ++
    s!"environment/namespace={content.environment}: " ++ ext.sanitize detail

def recoverRestart (content : ReleaseContent) (detail : String) :
    M (Outcome × Option DeploymentTransition) :=
  if content.restoresAutomatically then do
    match ← fenced (activate content) with
    | .ok (.ok ()) =>
      pure (⟨step, .failed, s!"{detail}; current pin remains deployed"⟩, some .refreshed)
    | _ =>
      pure (⟨step, .failed, s!"{detail}; re-apply of the current pin also failed"⟩,
        some .unknown)
  else pure (hostStepFailed step detail)

def restorePrevious (ext : Externals) (content : ReleaseContent) (version failure : String) :
    M (Bool × String) := do
  let note := rollbackChannelNote content.product version
  match ← fenced (activate content) with
  | .ok (.ok ()) => pure (true, s!"{failure}; restored {version}; {note}")
  | .ok (.error detail) =>
    let restore := formatRestoreError ext content version detail
    pure (false,
      s!"{failure}; restore or health check of {version} also failed: {restore}; {note}")
  | .error error =>
    let restore := formatRestoreError ext content version error.message
    pure (false, s!"{failure}; restore executor failed for {version}: {restore}; {note}")

/-- The outcome of a restore, and what it leaves recorded: a full recovery changes nothing. -/
def recovered (detail : String) (full : Bool) : Outcome × Option DeploymentTransition :=
  if full then (⟨step, .rolledBack, detail⟩, some .unchanged)
  else (⟨step, .failed, detail⟩, some .unknown)

def recoverActivation (ext : Externals) (content : ReleaseContent)
    (restoreContent : Option ReleaseContent) (detail : String) :
    M (Outcome × Option DeploymentTransition) :=
  if content.restoresAutomatically then do
    let (cleaned, detail) ← cleanupFailedActivation content detail
    match step.fromVersion, restoreContent with
    | none, _ =>
      pure (⟨step, .failed, detail⟩, some (if cleaned then .unchanged else .unknown))
    | some _, none => do
      let outcome : Outcome :=
        ⟨step, .failed, s!"{detail}; step {step.id} has no pinned restore release"⟩
      record plan outcome .unknown
      pure (outcome, none)
    | some previous, some previousContent => do
      let (restored, detail) ← restorePrevious ext previousContent previous detail
      pure (recovered step detail (cleaned && restored))
  else pure (hostStepFailed step detail)

/-- Restore the release a step replaced, after its own outcome could not be recorded:
    whether the record is right again. -/
def restoreUnrecorded : M Bool :=
  match step.fromVersion, step.restore with
  | some previous, some pin => do
    match ← M.caught (admitRelease plan step pin false) with
    | .error _ => pure false
    | .ok previousContent =>
      match ← fenced (activate previousContent) with
      | .ok (.ok ()) => do
        let recorded ← M.caught (recordDeployed step previous (some step.toVersion))
        pure recorded.isOk
      | _ => pure false
  | previous, _ => pure previous.isNone

def compensateActivation (content : ReleaseContent) (error : Failure) : M Unit := do
  let failure := s!"deployment bookkeeping failed after activation: {error.message}"
  if step.action = .restart then pure ()
  else if content.restoresAutomatically then do
    let removed ← fenced (deactivate content)
    let restored ← restoreUnrecorded plan step
    if !succeeded removed || !restored || step.fromVersion.isNone then do
      let _ ← M.caught (recordUnknown step failure)
      pure ()
    else pure ()
  else do
    let _ ← M.caught (recordUnknown step failure)
    pure ()

/-- Compensate for an activation whose outcome was not recorded, and return the error. -/
def compensateOrFence (content : ReleaseContent) (error : Failure) : M Outcome :=
  if error.cause = .fenceLost then throw error
  else do
    match ← M.caught (compensateActivation plan step content error) with
    | .ok () => throw error
    | .error compensate =>
      if compensate.cause = .fenceLost then throw compensate else throw error

/-! ### The health gate -/

def stepRequiresSloEvaluation : M Bool :=
  match step.action with
  | .rollback | .remove => pure false
  | .restart => do
    let environment ← M.readEnvironment .gate
    pure (environment.get .failedTarget step.instanceName = some step.releaseId)
  | .install | .upgrade | .downgrade => pure true

def gateApplies (skipGates : Bool) : M Bool :=
  if skipGates then pure false else stepRequiresSloEvaluation step

/-- What a failing gate does: it rolls back only onto a restore pin that loads. -/
def failAction (spec : HealthGateSpec) : M GateFailPolicy :=
  match spec.onFail.getD .halt, step.restore with
  | .rollback, some pin => do
    let loads : Bool ← M.decide (.autoRollbackTarget pin)
    pure (if loads then .rollback else .halt)
  | _, _ => pure .halt

def evaluateGate : M (Option HealthGateDecision) := do
  let spec ← M.decide .resolveSpec
  if spec.isEmpty then pure none
  else do
    let evidence ← M.decide .sampleWithLease
    M.decide .persistEvidence
    if evidence.passed then pure none
    else do
      let action ← failAction step spec
      pure (some ⟨evidence, action⟩)

def decideAfterSuccess (skipGates : Bool) : M (Option HealthGateDecision) := do
  let applies ← gateApplies step skipGates
  if applies then evaluateGate step else pure none

def admitArtifactPulls (content : ReleaseContent) : M Unit := do
  let _ ← M.readEnvironment .admission
  M.decide (.verifyEnvironmentPull content.releaseId)

def recordLiveRestoreFailure (detail : String) : M Outcome := do
  let outcome : Outcome := ⟨step, .failed, detail⟩
  record plan outcome (.deployed step.toVersion step.fromVersion)
  pure outcome

/-- The checks made before the rejected release is removed: the release to restore. -/
def admitGateRestore (pin : ReleasePin) (current : ReleaseContent) : M ReleaseContent := do
  let previous ← admitRelease plan step pin false
  admitArtifactPulls current
  admitArtifactPulls previous
  M.decide (.requireManifest previous.releaseId)
  M.decide (.requireManifestPlacement previous.releaseId)
  pure previous

/-- Remove the rejected release, unless it is a shell release without a cleanup. -/
def removeRejected (current : ReleaseContent) : M (Except Failure (Except String Unit)) :=
  if current.shellWithoutCleanup then pure (.ok (.ok ())) else fenced (deactivate current)

def replaceRejected (ext : Externals) (current previous : ReleaseContent) (detail : String) :
    M Outcome := do
  let blocked := s!"{detail}; automatic rollback blocked: outgoing release cleanup failed: "
  match ← removeRejected current with
  | .ok (.ok ()) => do
    let version := step.fromVersion.getD previous.manifest.version
    let (restored, detail) ← restorePrevious ext previous version detail
    let outcome : Outcome := ⟨step, if restored then .rolledBack else .failed, detail⟩
    record plan outcome (if restored then .unchanged else .unknown)
    pure outcome
  | .ok (.error cleanup) => do
    let outcome : Outcome := ⟨step, .failed, blocked ++ cleanup⟩
    record plan outcome .unknown
    pure outcome
  | .error error => do
    let outcome : Outcome := ⟨step, .failed, blocked ++ error.message⟩
    record plan outcome .unknown
    pure outcome

def restoreAfterHealthGate (ext : Externals) (detail : String) : M Outcome :=
  match step.restore with
  | none =>
    recordLiveRestoreFailure plan step
      s!"{detail}; automatic rollback refused: no restore pin"
  | some pin => do
    match ← M.caught (admitRelease plan step step.target false) with
    | .error error =>
      recordLiveRestoreFailure plan step
        s!"{detail}; automatic rollback blocked: {error.message}"
    | .ok current =>
      if current.restoresAutomatically then do
        match ← M.caught (admitGateRestore plan step pin current) with
        | .error error =>
          recordLiveRestoreFailure plan step
            s!"{detail}; automatic rollback blocked: {error.message}"
        | .ok previous => replaceRejected plan step ext current previous detail
      else recordLiveRestoreFailure plan step s!"{detail}; {hostNotRestored}"

/-! ### Execution -/

def liveTransition : DeploymentTransition :=
  if step.action = .restart then .refreshed else .deployed step.toVersion step.fromVersion

def recordLive (content : ReleaseContent) (outcome : Outcome) : M Outcome := do
  match ← M.caught (record plan outcome (liveTransition step)) with
  | .ok () => pure outcome
  | .error error => compensateOrFence plan step content error

def afterSuccess (ext : Externals) (skipGates : Bool) (content : ReleaseContent) : M Outcome := do
  match ← M.caught (decideAfterSuccess step skipGates) with
  | .error error => compensateOrFence plan step content error
  | .ok none => recordLive plan step content ⟨step, .succeeded, ""⟩
  | .ok (some decision) =>
    if decision.action = .rollback then
      restoreAfterHealthGate plan step ext decision.evidence.summary
    else recordLive plan step content ⟨step, .failed, decision.evidence.summary⟩

def finish (ended : Outcome × Option DeploymentTransition) : M Outcome :=
  match ended.2 with
  | some transition => do
    record plan ended.1 transition
    pure ended.1
  | none => pure ended.1

def waitsForDrain (detail : String) : Bool :=
  "waiting for bounded drain".toList <:+: detail.toList

def recoverFailure (ext : Externals) (content : ReleaseContent)
    (restoreContent : Option ReleaseContent) (detail : String) :
    M (Outcome × Option DeploymentTransition) :=
  if waitsForDrain detail then pure (⟨step, .blocked, detail⟩, some .unknown)
  else if step.action = .restart then recoverRestart step content detail
  else recoverActivation plan step ext content restoreContent detail

/-- The release a rollback leaves is removed first, where it declares how: whether it was,
    or why it could not be. -/
def removeOutgoing (restoreContent : Option ReleaseContent) : M (Except String Bool) :=
  match step.action, restoreContent with
  | .rollback, some outgoing =>
    if outgoing.declaresUninstall then do
      match ← fenced (deactivate outgoing) with
      | .ok (.ok ()) => pure (.ok true)
      | .ok (.error detail) => pure (.error detail)
      | .error error => pure (.error s!"cleanup executor failed: {error.message}")
    else pure (.ok false)
  | _, _ => pure (.ok false)

/-- A refused activation changed nothing, but a release may already be removed for it. -/
def refused (outgoingRemoved : Bool) (error : Failure) : M Outcome :=
  if outgoingRemoved then do
    record plan ⟨step, .blocked, error.message⟩ .unknown
    throw error
  else throw error

def runRelease (content : ReleaseContent) : M (Except String Unit) :=
  if step.action = .restart then restart content else activate content

def activateStep (ext : Externals) (skipGates : Bool) (content : ReleaseContent)
    (restoreContent : Option ReleaseContent) (outgoingRemoved : Bool) : M Outcome := do
  match ← M.caught (runRelease step content) with
  | .ok (.ok ()) => afterSuccess plan step ext skipGates content
  | .ok (.error detail) => do
    let ended ← recoverFailure plan step ext content restoreContent detail
    finish plan ended
  | .error error =>
    match error.cause with
    | .refusal => refused plan step outgoingRemoved error
    | .fenceLost => throw error
    | .other => do
      let ended ← recoverFailure plan step ext content restoreContent
        s!"deployment executor failed: {error.message}"
      finish plan ended

def executeSoftware (ext : Externals) (skipGates : Bool) (content : ReleaseContent)
    (restoreContent : Option ReleaseContent) : M Outcome := do
  match ← removeOutgoing step restoreContent with
  | .ok outgoingRemoved =>
    activateStep plan step ext skipGates content restoreContent outgoingRemoved
  | .error detail => do
    let outcome : Outcome :=
      ⟨step, .failed, s!"rollback blocked: outgoing release cleanup failed: {detail}"⟩
    record plan outcome .unknown
    pure outcome

/-- What the applier's end of a host step makes of it. -/
def hostOutcome (action : HostAction) (ended : HostStepEnd) : Outcome × DeploymentTransition :=
  let run := s!"host {action} of {step.product} {step.toVersion}"
  match ended with
  | .recorded .succeeded detail =>
    (⟨step, .succeeded, detail⟩,
      match action with
      | .install => .deployed step.toVersion step.fromVersion
      | .health => .deployed step.toVersion none
      | .uninstall => .removed step.toVersion)
  | .recorded outcome detail =>
    (⟨step, .failed, s!"{run} ended {outcome}: {detail}; {hostNotRestored}"⟩, .unknown)
  | .unknown detail =>
    (⟨step, .failed, s!"{run} failed: {detail}; {hostNotRestored}"⟩, .unknown)
  | .notRun detail => (⟨step, .failed, s!"{run} did not run: {detail}"⟩, .unchanged)

def resubscribed (action : HostAction) : M Bool :=
  if action = .uninstall then M.decide .subscribes else pure false

def runHostStep (action : HostAction) : M HostStepEnd := do
  let again ← resubscribed action
  let made ← M.decide .hostRequest
  match again, made with
  | true, _ => pure (.notRun s!"{plan.environment} subscribes to {step.product} again")
  | false, .ok () => M.runHost action
  | false, .error detail => pure (.notRun detail)

def executeHost (host : HostStep) (content : ReleaseContent) : M Outcome := do
  M.decide .hostExecutor
  M.decide .requireHostProduct
  let ended ← runHostStep plan step host.action
  let (outcome, transition) := hostOutcome step host.action ended
  match ← M.caught (record plan outcome transition) with
  | .ok () => pure outcome
  | .error error => compensateOrFence plan step content error

def onRestore (restoreContent : Option ReleaseContent) (check : ReleaseContent → M Unit) :
    M Unit :=
  match restoreContent with
  | some content => check content
  | none => pure ()

def admitRestore (recalled : Bool) : M (Option ReleaseContent) :=
  match step.restore with
  | some pin => do
    let content ← admitRelease plan step pin recalled
    pure (some content)
  | none => pure none

/-- A host release runs only as a host step, and a host step only runs a host release. -/
def hostMismatch (content : ReleaseContent) : Failure :=
  if content.manifest.host then
    ⟨s!"step {step.id} runs host release {step.releaseId} without a host binding; create the " ++
      "plan again", .other⟩
  else
    ⟨s!"step {step.id} is a host step, but release {step.releaseId} does not declare " ++
      "deploy.executor = \"host\"", .other⟩

def checkIf (applies : Bool) (check : M Unit) : M Unit := if applies then check else pure ()

def admitStep (recalledRecovery skipGates : Bool) :
    M (ReleaseContent × Option ReleaseContent) := do
  let recalled :=
    (recalledRecovery && step.action = .rollback) || step.action = .remove
  let content ← admitRelease plan step step.target recalled
  let restoreContent ← admitRestore plan step recalled
  Prog.bailIf (content.manifest.host ≠ step.host.isSome) (hostMismatch step content)
  M.decide (.requireAvailable content.releaseId)
  onRestore restoreContent fun restore => M.decide (.requireAvailable restore.releaseId)
  checkIf (step.action ≠ .restart && step.fromVersion.isSome)
    (M.decide (.requireSameExecutor content.releaseId))
  admitArtifactPulls content
  onRestore restoreContent fun restore => M.decide (.verifyEnvironmentPull restore.releaseId)
  checkIf (step.action ≠ .remove) do
    M.decide (.requireManifest content.releaseId)
    M.decide (.requireManifestPlacement content.releaseId)
  onRestore restoreContent fun restore => M.decide (.requireManifestPlacement restore.releaseId)
  let gated ← gateApplies step skipGates
  checkIf gated do
    let _ ← M.decide .resolveSpec
  pure (content, restoreContent)

def execute (ext : Externals) (recalledRecovery skipGates : Bool) : M Outcome := do
  let (content, restoreContent) ← admitStep plan step recalledRecovery skipGates
  match step.host with
  | some host => executeHost plan step host content
  | none => executeSoftware plan step ext skipGates content restoreContent

end Programs

/-! ### What a write leaves -/

section Written

variable {digest : Option String → String} {base : Properties} {write : Write} {name : String}

def Write.product : Write → String
  | .observe observation _ _ _ => observation.step.product
  | .deployed product _ _ _ _ | .unknown product _ _ => product

theorem Write.get_apply {field : Field} (hfld : Properties.isTold field) :
    (write.apply digest base).get field name = if name =
      write.key then write.transition.valueAfter (base.get field name) write.product
      (base.stampedConfig digest write.product) field else base.get field name := by
  cases write with
  | observe obs attempt observedAt deps =>
    rw [Write.apply, Properties.get_observe hfld,
      Properties.get_transitionDeployment (.inl hfld), instanceKey_instanceName]
    rfl
  | deployed prod inst v prev deps =>
    rw [Write.apply, Properties.get_recordDeployed hfld,
      Properties.get_transitionDeployment (.inl hfld)]
    · rfl
    · exact ""
  | unknown prod inst detail =>
    rw [Write.apply, Properties.get_recordUnknown hfld,
      Properties.get_transitionDeployment (.inl hfld)]
    · rfl
    · exact detail

end Written

/-! ### A product in an environment

Used where a statement is shown to apply, or to fail, on a fixed run. -/

def shellManifest : Manifest := ⟨"1.0", .software, false, false, none⟩

/-- Answers by which every check passes; the gate is `gate`, and fails unless it is empty. -/
def smoothAnswer (gate : HealthGateSpec) : (question : Question) → question.Answer
  | .admitRelease _ _ => shellManifest
  | .resolveSpec => gate
  | .sampleWithLease => (⟨false, "gate failed"⟩ : HealthGateEvidence)
  | .autoRollbackTarget _ | .storeBatches => true
  | .subscribes | .outcomeExport => false
  | .hostRequest => (.ok () : Except String Unit)
  | .dependencyDocument _ => (none : Option String)
  | .requireAvailable _ | .requireSameExecutor _ | .verifyEnvironmentPull _
  | .requireManifest _ | .requireManifestPlacement _ | .persistEvidence | .hostExecutor
  | .requireHostProduct | .refreshLease | .link _ | .providerEvents => ()

def smooth (gate : HealthGateSpec) : Oracle interface
  | .decide question => .ok (smoothAnswer gate question)
  | .nowMillis => (0 : Int)
  | .execute _ _ _ _ => .ok (.ok ())
  | .runHost _ => .ok (.notRun "")
  | .claimEnvironment | .releaseEnvironment => ()
  | .readEnvironment _ | .createAttempt | .commit _ _ _ _ | .updateEnvironment _ _
  | .updateAttempt _ _ | .readAttempt | .put _ => (⟨.none, ⟨"", .other⟩⟩ : Outage)

def samplePlan : Plan where
  id := "tenkai:plan:web"
  contentId := ""
  environment := "prod"
  createdAt := 0
  inputs := []
  steps := []
  state := .running
  gatesSkipped := none
  statusDetail := ""
  maintenanceBlocked := false
  recalledRecoveryReason := none

def webPin (version : String) : ReleasePin := ⟨releaseId "web" version, "", "", ""⟩

def webStep (action : Action) (fromVersion : Option String) (toVersion : String)
    (restore : Option ReleasePin) : Step where
  id := "web"
  order := 0
  product := "web"
  «instance» := ""
  action := action
  fromVersion := fromVersion
  toVersion := toVersion
  releaseId := releaseId "web" toVersion
  releaseDigest := ""
  artifactDigest := ""
  workdir := ""
  restore := restore
  host := none

def emptyWorld : World := ⟨∅, none, true, [], [], false⟩

def plainExternals : Externals := ⟨fun overlays => overlays.getD "", id⟩

end Tenkai.StepLifecycle
