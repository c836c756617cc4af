import Tenkai.RuntimeDelivery

/-!
# Failed releases are held

A step that fails leaves its release held, and the planner leaves a held target alone. The server
writes the hold for the instance and the runtime's completion for the product; the planner reads it
for the instance, the selection of stored plans for the product. Under one name it lasts until the
release succeeds or another one fails there (`held_run`); a named instance loses it on one side
(`named_instance_not_held`).
-/

namespace Tenkai

/-! ### Selection of stored plans -/

/-- `parse::<i64>`, which at least reads back no other time than was written. -/
structure MillisText where
  parse : String → Option Int
  parse_toString : ∀ {written read : Int}, parse (toString written) = some read → read = written

section Selection

variable (text : MillisText) (environment : Properties)

/-- A step's release is held, and the plan is not newer than the failure. -/
def heldStep (createdAt : Int) (step : Step) : Bool :=
  environment.get .failedTarget step.product = some step.releaseId &&
    match (environment.get .failedTargetAt step.product).bind text.parse with
    | some failedAt => createdAt ≤ failedAt
    | none => true

def heldCandidate (plan : Plan) : Bool :=
  plan.steps.any (heldStep text environment plan.createdAt)

/-- The plans of an environment, oldest first, that have steps and one of the states. -/
def executable (plans : List Plan) (states : List PlanState) : List Plan :=
  plans.filter fun plan => states.contains plan.state && !plan.steps.isEmpty

/-- `first_admissible_in`; `classify` says whether apply would admit a plan. -/
def firstAdmissibleIn (classify : Plan → Except String Bool) (maintenanceBlockedOnly : Bool) :
    List Plan → Except String (Option Plan)
  | [] => pure none
  | candidate :: candidates =>
    if heldCandidate text environment candidate then
      firstAdmissibleIn classify maintenanceBlockedOnly candidates
    else if candidate.steps.isEmpty then
      throw (s!"plan {candidate.id} has_steps index selected an executable plan without " ++
        "steps")
    else if maintenanceBlockedOnly && !candidate.maintenanceBlocked then
      firstAdmissibleIn classify maintenanceBlockedOnly candidates
    else do
      if ← classify candidate then pure (some candidate)
      else firstAdmissibleIn classify maintenanceBlockedOnly candidates

/-- The stored plan `select_plan` returns, if any: a computed one, or one that waits for its
    maintenance window. -/
def selectStored (classify : Plan → Except String Bool) (plans : List Plan) :
    Except String (Option Plan) := do
  match ← firstAdmissibleIn text environment classify false (executable plans [.computed]) with
  | some plan => pure (some plan)
  | none => firstAdmissibleIn text environment classify true (executable plans [.blocked])

/-- A plan that may be offered: it was claimed already, or nothing holds it. -/
def offerable (plan : Plan) : Bool := plan.state = .running || !heldCandidate text environment plan

/-- `pending_work`: what a runtime is offered. -/
def pendingWork (plans : List Plan) : Option Plan :=
  match executable plans [.computed, .running] with
  | [] => none
  | oldest :: rest =>
    if offerable text environment oldest then some oldest
    else (oldest :: rest).find? (offerable text environment)

end Selection

section Selected

variable {text : MillisText} {environment : Properties} {plan : Plan}

theorem firstAdmissibleIn_not_held {classify : Plan → Except String Bool}
    {maintenanceBlockedOnly : Bool} {cands : List Plan} :
    Ensures (firstAdmissibleIn text environment classify maintenanceBlockedOnly cands)
      fun selected => ∀ plan, selected = some plan → heldCandidate text environment plan = false := by
  induction cands with
  | nil => exact .pure (by rintro _ ⟨⟩)
  | cons cand cands ih =>
    refine .ite (fun _ => ih) fun hheld => ?_
    refine .ite (fun _ => .throw) fun _ => .ite (fun _ => ih) fun _ => ?_
    refine .after fun _ => .ite (fun _ => .pure ?_) fun _ => ih
    rintro _ ⟨⟩
    exact Bool.not_eq_true _ ▸ hheld

theorem selectStored_not_held {classify : Plan → Except String Bool} {plans : List Plan}
    (h : selectStored text environment classify plans = .ok (some plan)) :
    heldCandidate text environment plan = false := by
  have hsel : Ensures (selectStored text environment classify plans) fun selected =>
      ∀ plan, selected = some plan → heldCandidate text environment plan = false := by
    refine .bind firstAdmissibleIn_not_held fun selected hsel => ?_
    cases selected with
    | some plan => exact .pure hsel
    | none => exact firstAdmissibleIn_not_held
  exact hsel _ h plan rfl

theorem pendingWork_offerable {plans : List Plan}
    (h : pendingWork text environment plans = some plan) :
    plan.state = .running ∨ heldCandidate text environment plan = false := by
  have hofferable : offerable text environment plan = true := by
    unfold pendingWork at h
    split at h
    · cases h
    · split at h
      next hoffer =>
        cases h
        exact hoffer
      · exact List.find?_some h
  simpa [offerable] using hofferable

end Selected

/-! ### What is noted of a hold -/

/-- A note on the hold kept under a name. -/
inductive HoldNote
  | failed (key release : String) (failedAt : Int)
  | succeeded (key release : String)

/-- The release held under a name, and the time as it is written down. -/
abbrev Hold : Type := Option String × Option String

def Properties.hold (properties : Properties) (name : String) : Hold :=
  (properties.get .failedTarget name, properties.get .failedTargetAt name)

namespace HoldNote

/-- A failure replaces the hold, a success of the release that is held lifts it. -/
def after (name : String) (hold : Hold) : HoldNote → Hold
  | .failed key release failedAt =>
    if key = name then (some release, some (toString failedAt)) else hold
  | .succeeded key release =>
    if key = name ∧ hold.1 = some release then (none, hold.2) else hold

/-- The note is not about the name, or it is another failure of the release, no earlier. -/
def Benign (name release : String) (since : Int) : HoldNote → Prop
  | .failed key other failedAt => key = name → other = release ∧ since ≤ failedAt
  | .succeeded key other => key = name → other ≠ release

end HoldNote

def Held (release : String) (since : Int) (hold : Hold) : Prop :=
  hold.1 = some release ∧ ∃ failedAt, since ≤ failedAt ∧ hold.2 = some (toString failedAt)

section Notes

variable {name release : String} {since : Int} {note : HoldNote} {written : List HoldNote}
  {hold : Hold}

theorem Held.after (h : Held release since hold) (hnote : note.Benign name release since) :
    Held release since (note.after name hold) := by
  cases note with
  | failed key other failedAt =>
    by_cases hkey : key = name
    · obtain ⟨rfl, hsince⟩ := hnote hkey
      simp only [HoldNote.after, hkey, if_true]
      exact ⟨rfl, failedAt, hsince, rfl⟩
    · simp only [HoldNote.after, hkey, if_false]
      exact h
  | succeeded key other =>
    have hkept : ¬ (key = name ∧ hold.1 = some other) := by
      rintro ⟨hkey, hoth⟩
      exact hnote hkey (Option.some.inj (hoth.symm.trans h.1))
    simp only [HoldNote.after, hkept, if_false]
    exact h

theorem Held.notes (h : Held release since hold)
    (hwr : ∀ note ∈ written, note.Benign name release since) :
    Held release since (written.foldl (HoldNote.after name) hold) := by
  induction written generalizing hold with
  | nil => exact h
  | cons note written ih =>
    exact ih (h.after (hwr note (by simp))) fun other hoth => hwr other (by simp [hoth])

/-- Among benign notes, one failure is enough. -/
theorem held_of_failed (hfail : .failed name release since ∈ written)
    (hwr : ∀ note ∈ written, note.Benign name release since) :
    Held release since (written.foldl (HoldNote.after name) hold) := by
  obtain ⟨before, after, rfl⟩ := List.append_of_mem hfail
  rw [List.foldl_append, List.foldl_cons]
  refine .notes ?_ fun note hnote => hwr note (by simp [hnote])
  simp only [HoldNote.after, if_true]
  exact ⟨rfl, since, le_refl _, rfl⟩

end Notes

/-! ### What is noted of a step -/

/-- The note of a server's observation, under the name of the instance. -/
def DeploymentObservation.holdNotes (observation : DeploymentObservation) (observedAt : Int) :
    List HoldNote :=
  if (observation.status = .failed ∨ observation.status = .rolledBack) ∧
      observation.step.action ≠ .rollback then
    [.failed observation.step.instanceName observation.step.releaseId observedAt]
  else if observation.status = .succeeded ∧ observation.transition ≠ .unchanged ∧
      observation.transition ≠ .unknown then
    [.succeeded observation.step.instanceName observation.step.releaseId]
  else []

/-- The note of a runtime's receipt for a step, under the name of the product. -/
def receiptNotes (receipts : List RuntimeReceipt) (observedAt : Int) (step : Step) :
    List HoldNote :=
  match receipts.find? (·.stepId = step.id) with
  | none => []
  | some receipt =>
    if (classifyRuntime step.action receipt.succeeded receipt.detail).isNone then []
    else if receipt.succeeded then [.succeeded step.product step.releaseId]
    else if step.action ≠ .rollback then [.failed step.product step.releaseId observedAt]
    else []

section Noted

variable {digest : Option String → String} {properties : Properties} {name : String}

theorem hold_observe (obs : DeploymentObservation) (attempt : String) (seenAt : Int)
    (deps : Option String) :
    (properties.observe digest obs attempt seenAt deps).hold name =
      (obs.holdNotes seenAt).foldl (HoldNote.after name) (properties.hold name) := by
  have hat : ∀ properties : Properties,
      (properties.recordFailedTarget obs seenAt).get .failedTargetAt name =
        if name = obs.step.instanceName ∧ (obs.status = .failed ∨ obs.status = .rolledBack) ∧
            obs.step.action ≠ .rollback then some (toString seenAt)
        else properties.get .failedTargetAt name := by
    intro properties
    unfold Properties.recordFailedTarget
    by_cases hfail : (obs.status = .failed ∨ obs.status = .rolledBack) ∧ obs.step.action ≠ .rollback
    · simp [Properties.get_set, hfail]
    · simp only [hfail, if_false, and_false]
      split <;> simp [Properties.get_remove]
  have hkept : (properties.transitionDeployment digest obs.step.product
      obs.step.instanceName obs.transition obs.detail).get .failedTargetAt
        name = properties.get .failedTargetAt name :=
    (Properties.get_transitionDeployment (.inr (.inr rfl)) _).trans (ite_self _)
  unfold Properties.hold
  rw [Properties.get_observe_outcome (.inl rfl), Properties.observe,
    Properties.get_notes (.inr (.inr rfl)), hat, hkept]
  unfold DeploymentObservation.holdNotes
  by_cases hfail : (obs.status = .failed ∨ obs.status = .rolledBack) ∧ obs.step.action ≠ .rollback
  · rw [if_pos hfail]
    by_cases hname : name = obs.step.instanceName
    · simp [hname, hfail, HoldNote.after, DeploymentObservation.valueAfter,
        DeploymentObservation.holdAfter]
    · simp [hname, Ne.symm hname, HoldNote.after]
  · rw [if_neg hfail]
    by_cases hname : name = obs.step.instanceName
    · subst hname
      simp only [true_and, if_true, hfail, if_false, DeploymentObservation.valueAfter,
        DeploymentObservation.holdAfter]
      split <;> split <;> simp_all [HoldNote.after]
    · rw [if_neg hname, if_neg fun h => hname h.1]
      split <;> simp [HoldNote.after, Ne.symm hname]

theorem hold_recordRuntimeTarget (planId : String) (receipts : List RuntimeReceipt)
    (seenAt : Int) (step : Step) :
    (recordRuntimeTarget planId receipts seenAt properties step).hold name =
      (receiptNotes receipts seenAt step).foldl (HoldNote.after name) (properties.hold name) := by
  unfold recordRuntimeTarget receiptNotes Properties.hold
  cases receipts.find? (·.stepId = step.id) with
  | none => rfl
  | some receipt =>
    by_cases hskip : (classifyRuntime step.action receipt.succeeded receipt.detail).isNone
    · simp [hskip]
    · simp only [hskip]
      cases hsucc : receipt.succeeded with
      | true =>
        simp only [Bool.not_true, Bool.false_and, Bool.false_eq_true, if_false, if_true,
          Bool.true_and, decide_eq_true_eq, List.foldl_cons, List.foldl_nil, HoldNote.after]
        by_cases hname : step.product = name
        · subst hname
          by_cases hheld : properties.get .failedTarget step.product = some step.releaseId <;>
            simp [hheld, Properties.get_remove]
        · split <;> simp [Properties.get_remove, hname, Ne.symm hname]
      | false =>
        by_cases hact : step.action = .rollback
        · simp [hact]
        · by_cases hname : step.product = name
          · simp [hact, hname, Properties.get_set, HoldNote.after]
          · simp [hact, hname, Ne.symm hname, Properties.get_set, HoldNote.after]

end Noted

/-! ### Runs -/

/-- What writes an environment's properties. -/
inductive HoldEvent
  /-- The server records a step. -/
  | observed (observation : DeploymentObservation) (attempt : String) (observedAt : Int)
      (dependencies : Option String)
  /-- A runtime completes a plan. -/
  | completed (environment : String) (leased : Bool) (observedAt : Int) (stored : Plan)
      (completion : RuntimeCompletion)
  /-- Something else is changed. -/
  | edited (change : Properties → Properties)

namespace HoldEvent

variable (ext : DeliveryExternals) (store : ReleaseStore)

def apply (properties : Properties) : HoldEvent → Properties
  | .observed observation attempt observedAt dependencies =>
    properties.observe ext.overlayDigest observation attempt observedAt dependencies
  | .completed environment leased observedAt stored completion =>
    match completeRuntimeWork ext store environment leased observedAt stored properties
        completion with
    | .ok (_, after) => after
    | .error _ => properties
  | .edited change => change properties

def notes (properties : Properties) : HoldEvent → List HoldNote
  | .observed observation _ observedAt _ => observation.holdNotes observedAt
  | .completed environment leased observedAt stored completion =>
    match completeRuntimeWork ext store environment leased observedAt stored properties
        completion with
    | .ok _ =>
      if stored.state.terminal then []
      else stored.steps.flatMap (receiptNotes completion.receipts observedAt)
    | .error _ => []
  | .edited _ => []

/-- The event keeps what is held under a name: its notes are benign, and an edit leaves the
    hold alone. -/
def Keeps (name release : String) (since : Int) (properties : Properties) (event : HoldEvent) :
    Prop :=
  (∀ note ∈ event.notes ext store properties, note.Benign name release since) ∧
    ∀ change, event = .edited change →
      (change properties).hold name = properties.hold name

def AllKeep (name release : String) (since : Int) : Properties → List HoldEvent → Prop
  | _, [] => True
  | properties, event :: events =>
    event.Keeps ext store name release since properties ∧
      AllKeep name release since (event.apply ext store properties) events

def run (properties : Properties) (events : List HoldEvent) : Properties :=
  events.foldl (apply ext store) properties

end HoldEvent

section Run

variable {ext : DeliveryExternals} {store : ReleaseStore} {properties : Properties}
  {name release : String} {since : Int} {ev : HoldEvent} {events : List HoldEvent}

theorem foldl_receiptNotes (planId : String) (receipts : List RuntimeReceipt) (seenAt : Int)
    (steps : List Step) :
    (steps.foldl (recordRuntimeTarget planId receipts seenAt) properties).hold name =
      (steps.flatMap (receiptNotes receipts seenAt)).foldl (HoldNote.after name)
        (properties.hold name) := by
  induction steps generalizing properties with
  | nil => rfl
  | cons step steps ih =>
    rw [List.foldl_cons, ih, hold_recordRuntimeTarget, List.flatMap_cons, List.foldl_append]

theorem hold_updateRuntimeDeployments (steps : List Step) :
    Ensures (updateRuntimeDeployments ext store properties steps) fun updated =>
      updated.hold name = properties.hold name := by
  refine .foldlM rfl fun updated step _ hupd => ?_
  have hkept : Ensures (updateRuntimeDeployment ext store updated step) fun after =>
      after.hold name = updated.hold name := by
    refine .after fun _ => ?_
    refine .bind (P := fun after : Properties => after.hold name = updated.hold name) ?_
      fun after haft => .pure ?_
    · refine .bind ensures_setReconciled fun _ hmoved => ?_
      refine .bind get_stampDocument fun _ hstmp => .pure ?_
      simp [Properties.hold, Properties.get_clearUnknownOrigin, Properties.get_remove, hstmp,
        Properties.get_stampAppliedOverlays, Properties.get_set, hmoved]
    · rw [← haft]
      simp [Properties.hold, Properties.get_setPrevious]
  exact hkept.mono fun after haft => haft.trans hupd

theorem hold_apply (hedit : ∀ change, ev ≠ .edited change) :
    (ev.apply ext store properties).hold name =
      (ev.notes ext store properties).foldl (HoldNote.after name) (properties.hold name) := by
  cases ev with
  | observed observation attempt observedAt dependencies => exact hold_observe _ _ _ _
  | edited change => exact absurd rfl (hedit change)
  | completed environment leased observedAt stored completion =>
    unfold HoldEvent.apply HoldEvent.notes
    cases hres : completeRuntimeWork ext store environment leased observedAt stored properties
        completion with
    | error error => simp [hres]
    | ok result =>
      simp only [hres]
      obtain ⟨-, -, hres⟩ := Returns.of_bind ⟨_, hres, rfl⟩
      cases hterm : stored.state.terminal with
      | true =>
        rw [hterm, if_pos rfl] at hres
        obtain ⟨_, ⟨⟩, rfl⟩ := hres
        rfl
      | false =>
        rw [hterm, if_neg (by decide)] at hres
        cases leased with
        | true => obtain ⟨_, ⟨⟩, -⟩ := hres
        | false =>
          obtain ⟨updated, hupd, hres⟩ := Returns.of_bind hres
          obtain ⟨_, ⟨⟩, rfl⟩ := hres
          rw [foldl_receiptNotes, hold_updateRuntimeDeployments _ updated hupd, if_neg (by decide)]

theorem held_apply (hkeeps : ev.Keeps ext store name release since properties)
    (h : Held release since (properties.hold name)) :
    Held release since ((ev.apply ext store properties).hold name) := by
  by_cases hedit : ∃ change, ev = .edited change
  · obtain ⟨change, rfl⟩ := hedit
    have hsame : (HoldEvent.apply ext store properties (.edited change)).hold name =
        properties.hold name := hkeeps.2 change rfl
    rwa [hsame]
  · rw [hold_apply fun change hchg => hedit ⟨change, hchg⟩]
    exact h.notes hkeeps.1

theorem held_run (hkeep : HoldEvent.AllKeep ext store name release since properties events)
    (h : Held release since (properties.hold name)) :
    Held release since ((HoldEvent.run ext store properties events).hold name) := by
  induction events generalizing properties with
  | nil => exact h
  | cons ev events ih => exact ih hkeep.2 (held_apply hkeep.1 h)

/-- A failure that is noted is held from then on. -/
theorem held_of_noted (hfail : .failed name release since ∈ ev.notes ext store properties)
    (hkeep : HoldEvent.AllKeep ext store name release since properties (ev :: events)) :
    Held release since ((HoldEvent.run ext store properties (ev :: events)).hold name) := by
  have hedit : ∀ change, ev ≠ .edited change := by
    rintro change rfl
    cases hfail
  have hheld : Held release since ((ev.apply ext store properties).hold name) := by
    rw [hold_apply hedit]
    exact held_of_failed hfail hkeep.1.1
  have hrun := held_run hkeep.2 hheld
  exact hrun

end Run

/-! ### What a hold prevents -/

section Prevented

variable {text : MillisText} {environment : Properties} {name release : String} {since : Int}

/-- A plan no newer than the failure is not a candidate. -/
theorem heldCandidate_of_held (h : Held release since (environment.hold name)) {plan : Plan}
    {step : Step} (hcrt : plan.createdAt ≤ since) (hstep : step ∈ plan.steps)
    (hprod : step.product = name) (hrel : step.releaseId = release) :
    heldCandidate text environment plan = true := by
  obtain ⟨htgt, failedAt, hsince, hat⟩ := h
  unfold heldCandidate
  rw [List.any_eq_true]
  refine ⟨step, hstep, ?_⟩
  have htgt' : environment.get .failedTarget step.product = some step.releaseId := by
    rwa [hprod, hrel]
  have hat' : environment.get .failedTargetAt step.product = some (toString failedAt) := by
    rwa [hprod]
  unfold heldStep
  rw [htgt', hat', decide_eq_true rfl]
  split
  next read hread =>
    rw [text.parse_toString hread]
    exact decide_eq_true (le_trans hcrt hsince)
  · rfl

theorem bindHostStep_same {ext : PlanExternals} {catalog : Catalog} {step : Step} :
    Ensures (bindHostStep ext catalog step) fun bound => ∀ other ∈ bound,
      other.instanceName = step.instanceName ∧ other.releaseId = step.releaseId ∧
        (step.action = .remove → other.action = .remove) := by
  refine .after fun manifest => ?_
  cases manifest with
  | none => exact .pure (by simp)
  | some manifest =>
    refine .ite (fun _ => .ite (fun _ => .throw) fun _ => .pure (by simp)) fun _ => ?_
    refine .after fun _ => .after fun r => ?_
    split
    · exact .pure (by simp [Step.instanceName])
    · exact .throw
    · refine .ite (fun _ => .throw) fun _ => ?_
      refine .ite (fun hact => .pure (by simp [Step.instanceName, hact])) fun hact => ?_
      refine .ite (fun _ => .pure ?_) fun _ => .pure ?_ <;> simp [Step.instanceName, hact]

/-- The reconcile planner adds no step for a target it holds, unless that is what is deployed. -/
theorem reconcileSteps_not_held {ext : PlanExternals} {catalog : Catalog} {env : String}
    {subs : List Subscription} (h : Held release since (environment.hold name))
    (hnam : ∀ sub ∈ subs, sub.instance.isEmpty = false)
    (hdepl : ∀ v, environment.get .deployed name = some v → releaseId name v ≠ release) :
    Ensures (reconcileSteps ext catalog env environment subs) fun steps => ∀ step ∈ steps,
      step.instanceName = name → step.releaseId = release → step.action = .remove := by
  have hclear : ∀ change hostHealthOnly index,
      ChangeOrigin catalog .reconcile environment subs change →
        (toStep env hostHealthOnly change index).instanceName = name →
          change.release.releaseId = release → change.action = .remove := by
    intro change hostHealthOnly index horig hname hrel
    rcases horig with ⟨sub, selected, hsub, -, hinst, -, -, hsel, hheld⟩ |
      hact | ⟨hinst, -, hver, hpinned⟩
    · have hsame : (toStep env hostHealthOnly change index).instanceName = sub.instance := by
        unfold toStep Step.instanceName
        rw [hinst]
        by_cases hdflt : sub.instance = change.product
        · simp [hdflt]
        · simp [hdflt, hnam sub hsub]
      have htgt : environment.failedTargetIsHeld sub.instance selected.releaseId = true := by
        rw [← hsame, hname, ← hsel, hrel]
        exact decide_eq_true h.1
      exact absurd (by rw [htgt]; rfl) hheld
    · exact hact
    · have hsame : (toStep env hostHealthOnly change index).instanceName = change.product := by
        unfold toStep Step.instanceName
        simp [hinst]
      rw [hsame] at hname
      subst hname
      exact absurd (hpinned.symm.trans hrel) (hdepl _ hver)
  refine .bind originate_computeSnapshot fun snap hsnapshot => ?_
  obtain ⟨inputs, steps⟩ := snap
  refine .ite (fun _ => .pure (by simp)) fun _ => ?_
  refine .foldlM (by simp) fun _ step hstep hbnd => ?_
  refine .bind bindHostStep_same fun _ hbindings => .pure fun other hoth => ?_
  rcases List.mem_append.mp hoth with hoth | hoth
  · exact hbnd other hoth
  · intro hname hrel
    obtain ⟨hsame, hpinned, hremove⟩ := hbindings other hoth
    obtain ⟨hostHealthOnly, change, index, rfl, horig⟩ := hsnapshot step hstep
    exact hremove (hclear change hostHealthOnly index horig (hsame.symm.trans hname)
      (hpinned.symm.trans hrel))

end Prevented

/-! ### A failed release stays held -/

namespace HoldEvent

variable (ext : DeliveryExternals) (store : ReleaseStore)

def steps : HoldEvent → List Step
  | .observed observation _ _ _ => [observation.step]
  | .completed _ _ _ stored _ => stored.steps
  | .edited _ => []

/-- A step that moves the instance to the release, not a rollback, is recorded as failed or
    rolled back. -/
def Fails (inst release : String) (since : Int) (properties : Properties) :
    HoldEvent → Prop
  | .observed observation _ observedAt _ =>
    observation.step.instanceName = inst ∧ observation.step.releaseId = release ∧
      (observation.status = .failed ∨ observation.status = .rolledBack) ∧
        observation.step.action ≠ .rollback ∧ observedAt = since
  | .completed environment leased observedAt stored completion =>
    stored.state.terminal = false ∧
      (∃ result, completeRuntimeWork ext store environment leased observedAt stored properties
        completion = .ok result) ∧
      ∃ step ∈ stored.steps, ∃ receipt,
        completion.receipts.find? (·.stepId = step.id) = some receipt ∧
          step.instanceName = inst ∧ step.releaseId = release ∧
            receipt.succeeded = false ∧ receipt.detail ≠ runtimeSkippedDetail ∧
              step.action ≠ .rollback ∧ observedAt = since
  | .edited _ => False

/-- The instance is the default instance of its product in every step that names it. -/
def Default (inst : String) (steps : List Step) : Prop :=
  ∀ step ∈ steps, step.instanceName = inst → step.product = inst

variable {ext store}

/-- A failure of a default instance is noted under its name, whoever executed the step. -/
theorem Fails.noted {inst rel : String} {since : Int} {properties : Properties} {ev : HoldEvent}
    (h : ev.Fails ext store inst rel since properties) (hdflt : Default inst ev.steps) :
    .failed inst rel since ∈ ev.notes ext store properties := by
  cases ev with
  | observed obs attempt observedAt deps =>
    obtain ⟨rfl, rfl, hstat, hact, rfl⟩ := h
    have hnotes : obs.holdNotes observedAt =
        [.failed obs.step.instanceName obs.step.releaseId observedAt] :=
      if_pos ⟨hstat, hact⟩
    simp [notes, hnotes]
  | edited change => exact h.elim
  | completed env leased observedAt stored completion =>
    obtain ⟨hsta, ⟨res, hres⟩, step, hstep, receipt, hfind, hname, rfl, hfail, hran, hact, rfl⟩ := h
    have hnotes : notes ext store properties (.completed env leased observedAt stored completion) =
          stored.steps.flatMap (receiptNotes completion.receipts observedAt) := by
      simp [notes, hres, hsta]
    rw [hnotes]
    refine List.mem_flatMap.mpr ⟨step, hstep, ?_⟩
    have hclass : classifyRuntime step.action false receipt.detail ≠ none := by
      simp [classifyRuntime, hran]
    unfold receiptNotes
    rw [hfind, hdflt step hstep hname]
    simp [hclass, hfail, hact]

end HoldEvent

/-- After a release failed on the default instance of its product, in every run that keeps the
    hold, the planner adds no step that moves the instance to it, unless it is what is
    deployed, and no plan made by then that does is selected, or offered unless it is running
    already. -/
theorem failed_release_stays_held (ext : DeliveryExternals) (store : ReleaseStore)
    (text : MillisText) (properties : Properties) (failure : HoldEvent) (events : List HoldEvent)
    (inst release : String) (since : Int)
    (hfails : failure.Fails ext store inst release since properties)
    (hdefault : HoldEvent.Default inst failure.steps)
    (hkeep : HoldEvent.AllKeep ext store inst release since properties (failure :: events)) :
    (∀ (planExt : PlanExternals) (catalog : Catalog) (env : String)
      (subscriptions : List Subscription) (steps : List Step),
      (∀ sub ∈ subscriptions, sub.instance.isEmpty = false) →
      (∀ version, (HoldEvent.run ext store properties (failure :: events)).get .deployed
        inst = some version → releaseId inst version ≠ release) →
      reconcileSteps planExt catalog env (HoldEvent.run ext store properties (failure :: events))
        subscriptions = .ok steps →
      ∀ step ∈ steps, step.instanceName = inst → step.releaseId = release → step.action = .remove) ∧
    ∀ plan : Plan, plan.createdAt ≤ since → HoldEvent.Default inst plan.steps →
      (∃ step ∈ plan.steps, step.instanceName = inst ∧ step.releaseId = release) →
      (∀ classify plans, selectStored text (HoldEvent.run ext store properties
        (failure :: events)) classify plans ≠ .ok (some plan)) ∧
      ∀ plans, pendingWork text (HoldEvent.run ext store properties (failure :: events)) plans =
        some plan → plan.state = .running := by
  have hheld := held_of_noted (hfails.noted hdefault) hkeep
  constructor
  · intro planExt catalog env subscriptions steps hnamed hdeployed hsteps
    exact reconcileSteps_not_held hheld hnamed hdeployed steps hsteps
  · rintro plan hcreated hplan ⟨step, hstep, hname, hrelease⟩
    have hcandidate : heldCandidate text
        (HoldEvent.run ext store properties (failure :: events)) plan = true :=
      heldCandidate_of_held hheld hcreated hstep (hplan step hstep hname) hrelease
    constructor
    · intro classify plans hselected
      rw [selectStored_not_held hselected] at hcandidate
      cases hcandidate
    · intro plans hoffered
      rcases pendingWork_offerable hoffered with hrunning | hfree
      · exact hrunning
      · rw [hfree] at hcandidate
        cases hcandidate

/-! ### Two failures -/

open StepLifecycle (webStep samplePlan)

def blindText : MillisText := ⟨fun _ => none, by rintro _ _ ⟨⟩⟩

/-- The server saw the step fail, ten milliseconds after the plan was made. -/
def failedStep (step : Step) : HoldEvent :=
  .observed ⟨samplePlan.id, step, .failed, "activation failed", .unchanged⟩ "attempt" 10 none

def waitingPlan (step : Step) : Plan := { samplePlan with state := .computed, steps := [step] }

def upgradeStep : Step := webStep .upgrade (some "1.0") "2.0" none

/-- After the upgrade of `web` failed, the plan that waits is not offered. -/
theorem failed_release_stays_held_web :
    HoldEvent.AllKeep plainDelivery plainStore "web" (releaseId "web" "2.0") 10 ∅
        [failedStep upgradeStep] ∧
      ∀ plans, pendingWork blindText (HoldEvent.run plainDelivery plainStore ∅
        [failedStep upgradeStep]) plans ≠ some (waitingPlan upgradeStep) := by
  have hdefault : HoldEvent.Default "web" [upgradeStep] := by
    intro step hstep _
    rw [List.mem_singleton.mp hstep]
    rfl
  have hkeep : HoldEvent.AllKeep plainDelivery plainStore "web" (releaseId "web" "2.0") 10 ∅
      [failedStep upgradeStep] := by
    refine ⟨⟨?_, by rintro _ ⟨⟩⟩, trivial⟩
    intro note hnote
    obtain rfl := List.mem_singleton.mp (show note ∈ [.failed "web" (releaseId "web" "2.0") 10]
      from hnote)
    exact fun _ => ⟨rfl, le_refl _⟩
  refine ⟨hkeep, ?_⟩
  intro plans hoffered
  have hrunning := ((failed_release_stays_held plainDelivery plainStore blindText ∅
    (failedStep upgradeStep) [] "web" (releaseId "web" "2.0") 10
      ⟨rfl, rfl, Or.inl rfl, by decide, rfl⟩ hdefault hkeep).2 (waitingPlan upgradeStep)
        (by decide) hdefault ⟨_, List.mem_singleton_self _, rfl, rfl⟩).2 plans hoffered
  cases hrunning

/-- After the upgrade of the instance `web-eu` of `web` failed, the plan that waits is offered
    again. -/
theorem named_instance_not_held :
    (failedStep (namedStep "web-eu" .upgrade (some "1.0") "2.0")).Fails plainDelivery plainStore
      "web-eu" "tenkai:release:web@2.0" 10 ∅ ∧
    (waitingPlan (namedStep "web-eu" .upgrade (some "1.0") "2.0")).createdAt ≤ 10 ∧
    (HoldEvent.run plainDelivery plainStore ∅
      [failedStep (namedStep "web-eu" .upgrade (some "1.0") "2.0")]).get .failedTarget "web-eu" =
        some "tenkai:release:web@2.0" ∧
    pendingWork blindText (HoldEvent.run plainDelivery plainStore ∅
      [failedStep (namedStep "web-eu" .upgrade (some "1.0") "2.0")])
        [waitingPlan (namedStep "web-eu" .upgrade (some "1.0") "2.0")] =
      some (waitingPlan (namedStep "web-eu" .upgrade (some "1.0") "2.0")) := by
  refine ⟨⟨rfl, rfl, Or.inl rfl, by decide, rfl⟩, by decide, by decide, by decide⟩

end Tenkai
