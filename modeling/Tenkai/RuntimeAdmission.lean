import Tenkai.FailedTarget
import Tenkai.Delegation

/-!
# Work handed to a runtime

Before the server starts a stored plan, `execution_admission::inspect` asks whether the plan still
describes the environment; `claim_work`, which hands plans to a runtime, does not. So a plan that
something has overtaken since it was stored is handed out (`overtaken_plan_is_handed_out`). Where
nothing that a waiting plan rests on changes, whatever is handed out the server would start too
(`handed_out_is_admitted`).
-/

namespace Tenkai.RuntimeAdmission

/-! ### The store -/

/-- The head of a channel object; empty texts where nothing is promoted. -/
structure ChannelHead where
  currentVersion : String
  currentRelease : String

/-- The store, as far as one environment's plans are concerned. -/
structure Hub where
  environment : Option Properties
  /-- What `list_subscriptions` returns. -/
  subscriptions : Except String (List Subscription)
  channels : String → Option ChannelHead
  /-- `resolve_subscription_selection`: pins, ranges and facts over a product and channel head. -/
  selection : (product version release : String) → Except String (String × String)
  recalled : String → Bool
  /-- The environment's plans, oldest first. -/
  plans : List Plan
  /-- The clock, the environment's lease and the runtimes' claims. -/
  site : Delegation.Site

/-- Code outside the model: how times are read, and whether a preview is still open. -/
structure Externals where
  text : MillisText
  admitPreview : Properties → Int → Except String Unit

/-! ### Start admission -/

inductive Rejection
  | environmentMissing
  | deploymentUnknown (product : String)
  | deploymentChanged (product : String) (expected actual : Option String)
  | channelMissing (channelId : String)
  | channelMoved (product channel : String)
  | previewClosed (detail : String)
  | resubscribed (product : String)
  | unsubscribed (product : String)
  deriving DecidableEq

/-- Store errors outside, rejections inside. -/
abbrev Inspection : Type → Type := ExceptT Rejection (Except String)

/-- A removal is planned because the instance is not subscribed to, everything else because it is. -/
def inspectSubscriptions (plan : Plan) (subscriptions : List Subscription) : Inspection Unit :=
  match plan.inputs.find? fun input => !subscriptions.any fun sub =>
      sub.channelId = input.channelId && sub.instance = input.instanceName with
  | some input => throw (.unsubscribed input.product)
  | none =>
    match plan.steps.find? fun step => step.action = .remove &&
        subscriptions.any fun sub => sub.instance = step.instanceName with
    | some step => throw (.resubscribed step.product)
    | none => pure ()

/-- The root side checks a host step against its own record. -/
def inspectStep (environment : Properties) (step : Step) : Inspection Unit :=
  if step.host.isSome then pure ()
  else if step.action ≠ .rollback ∧
      environment.get .deploymentHealth step.instanceName = some "unknown" then
    throw (.deploymentUnknown step.product)
  else if environment.get .deployed step.instanceName ≠ step.fromVersion then
    throw (.deploymentChanged step.product step.fromVersion
      (environment.get .deployed step.instanceName))
  else pure ()

def inspectInput (hub : Hub) (input : DesiredStateInput) : Inspection Unit :=
  match hub.channels input.channelId with
  | none => throw (.channelMissing input.channelId)
  | some head =>
    if head.currentVersion.isEmpty || head.currentRelease.isEmpty then
      throw (.channelMoved input.product input.channel)
    else do
      let selected ← hub.selection input.product head.currentVersion head.currentRelease
      if selected.1 ≠ input.desiredVersion ∨ selected.2 ≠ input.releaseId then
        throw (.channelMoved input.product input.channel)
      else pure ()

def inspect (ext : Externals) (hub : Hub) (plan : Plan) : Inspection Unit :=
  match hub.environment with
  | none => throw .environmentMissing
  | some environment =>
    match ext.admitPreview environment hub.site.now with
    | .error detail => throw (.previewClosed detail)
    | .ok () => do
      let subscriptions ← hub.subscriptions
      inspectSubscriptions plan subscriptions
      plan.steps.forM (inspectStep environment)
      plan.inputs.forM (inspectInput hub)

/-! ### Runtime admission -/

/-- What is decided elsewhere when a runtime asks for work. -/
structure Answers where
  /-- `admit_work`: the owner that the caller claims as. -/
  admitted : Except String String
  mayTakeOver : Except String Bool
  readable : Except String Unit
  /-- `software_compatibility::require_release`. -/
  requireRelease : String → Except String Unit
  deliveryHeld : Plan → Except String Bool
  trustedTime : Except String Unit
  claimStored : Except String Unit
  abandonStored : Except String Unit
  requirePlacement : String → Except String Unit

structure RuntimeWork where
  plan : Option Plan
  claim : Option Delegation.RuntimeClaim
  deriving DecidableEq

def RuntimeWork.none : RuntimeWork := ⟨.none, .none⟩

/-- A transition of a stored plan. None makes a plan computed again. -/
def Hub.transition (hub : Hub) (planId : String)
    (update : { update : Transition // update.state ≠ .computed }) : Hub :=
  { hub with plans := hub.plans.map fun plan =>
      if plan.id = planId then update.1.apply plan else plan }

def abandoned : { update : Transition // update.state ≠ .computed } :=
  ⟨.new .failed "controller stopped after execution began; lease expired before recovery",
    by decide⟩

def grantedWork (answers : Answers) (plan : Plan) (claim : Delegation.RuntimeClaim) (hub : Hub) :
    Except String RuntimeWork × Hub :=
  if claim.completion.isNone then
    -- the server began this plan and stopped: it is failed, not run again
    if plan.state = .running then
      match answers.abandonStored with
      | .error error => (.error error, hub)
      | .ok () => (.ok .none, hub.transition plan.id abandoned)
    else
      match plan.steps.forM fun step => answers.requirePlacement step.releaseId with
      | .error error => (.error error, hub)
      | .ok () => (.ok ⟨plan, claim⟩, hub)
  else (.ok ⟨plan, claim⟩, hub)

def durableCompletion (hub : Hub) (planId owner : String) : Option Delegation.RuntimeClaim :=
  (hub.site.claims planId).filter fun claim => claim.owner = owner && claim.completion.isSome

/-- The claim of a plan that nothing holds. A claim that is another's gives no work; its lapsed
    completion is applied in a step of its own. -/
def claimOffered (answers : Answers) (owner : String) (plan : Plan) (hub : Hub) :
    Except String RuntimeWork × Hub :=
  match answers.trustedTime with
  | .error refusal =>
    match durableCompletion hub plan.id owner with
    | some claim => (.ok ⟨plan, claim⟩, hub)
    | none => (.error refusal, hub)
  | .ok () =>
    match answers.claimStored with
    | .error error => (.error error, hub)
    | .ok () =>
      let claimed := hub.site.claimPlan plan.id owner
        (saturatingAdd hub.site.now (2 * 60 * 1000))
      let hub := { hub with site := claimed.2 }
      match claimed.1 with
      | some claim => grantedWork answers plan claim hub
      | none => (.ok .none, hub)

/-- The checks of a plan that is offered; the answer is whether it is held. -/
def offeredHeld (answers : Answers) (plan : Plan) : Except String Bool := do
  plan.steps.forM fun step => answers.requireRelease step.releaseId
  if plan.state = .computed then answers.deliveryHeld plan else pure false

/-- What a caller must pass before a plan is chosen: its owner, and whether it may take over. -/
def admission (answers : Answers) : Except String (String × Bool) := do
  let owner ← answers.admitted
  let may ← answers.mayTakeOver
  pure (owner, may)

def claimWork (ext : Externals) (answers : Answers) (hub : Hub) : Except String RuntimeWork × Hub :=
  match admission answers with
  | .error error => (.error error, hub)
  | .ok (_, false) => (.ok .none, hub)
  | .ok (owner, true) =>
    match answers.readable with
    | .error error => (.error error, hub)
    | .ok () =>
      match pendingWork ext.text (hub.environment.getD ∅) hub.plans with
      | none => (.ok .none, hub)
      | some plan =>
        match offeredHeld answers plan with
        | .error error => (.error error, hub)
        | .ok true => (.ok .none, hub)
        | .ok false => claimOffered answers owner plan hub

/-! ### What happens to the store -/

inductive HubEvent
  /-- A plan is stored: planned, a rollback or restart asked for, or imported. -/
  | stored (plan : Plan)
  | transition (planId : String) (update : { update : Transition // update.state ≠ .computed })
  | promoted (channelId : String) (head : ChannelHead)
  /-- A pin, a range, a fact or a publication changes what channel heads select. -/
  | reselected (selection : String → String → String → Except String (String × String))
  | resubscribed (subscriptions : Except String (List Subscription))
  /-- The environment object is written: deployments, health, a preview's end. -/
  | recorded (environment : Option Properties)
  | recalled (releaseId : String)
  /-- Time passes; leases and claims change. -/
  | sited (site : Delegation.Site)
  | claimWork (answers : Answers)

def Hub.apply (ext : Externals) (hub : Hub) : HubEvent → Hub
  | .stored plan => { hub with plans := hub.plans ++ [plan] }
  | .transition planId update => hub.transition planId update
  | .promoted channelId head =>
    { hub with channels := Function.update hub.channels channelId (some head) }
  | .reselected selection => { hub with selection }
  | .resubscribed subscriptions => { hub with subscriptions }
  | .recorded environment => { hub with environment }
  | .recalled releaseId =>
    { hub with recalled := Function.update hub.recalled releaseId true }
  | .sited site => { hub with site }
  | .claimWork answers => (RuntimeAdmission.claimWork ext answers hub).2

def Hub.run (ext : Externals) (hub : Hub) (events : List HubEvent) : Hub :=
  events.foldl (Hub.apply ext) hub

/-! ### What start admission asks -/

def Passes (x : Inspection Unit) : Prop := x.run = .ok (.ok ())

section Passes

@[simp] theorem passes_pure : Passes (pure ()) := rfl

@[simp] theorem not_passes_throw (rejection : Rejection) : ¬ Passes (throw rejection) := by
  intro h
  cases h

@[simp] theorem passes_bind {x : Inspection Unit} {f : Unit → Inspection Unit} :
    Passes (x >>= f) ↔ Passes x ∧ Passes (f ()) := by
  unfold Passes
  rw [ExceptT.run_bind]
  rcases x.run with error | rejection | value
  · exact iff_of_false (by rintro ⟨⟩) (by rintro ⟨⟨⟩, -⟩)
  · exact iff_of_false (by rintro ⟨⟩) (by rintro ⟨⟨⟩, -⟩)
  · exact (and_iff_right rfl).symm

/-- An answer of the store is passed by getting it. -/
@[simp] theorem passes_lift {α : Type} {x : Except String α} {f : α → Inspection Unit} :
    Passes (liftM x >>= f) ↔ ∃ a, x = .ok a ∧ Passes (f a) := by
  cases x with
  | error error => exact iff_of_false (by rintro ⟨⟩) (by rintro ⟨_, ⟨⟩, -⟩)
  | ok a =>
    constructor
    · intro h
      exact ⟨a, rfl, h⟩
    · rintro ⟨_, ⟨⟩, h⟩
      exact h

@[simp] theorem passes_ite {c : Prop} [Decidable c] {x y : Inspection Unit} :
    Passes (if c then x else y) ↔ (c → Passes x) ∧ (¬ c → Passes y) := by
  split <;> simp_all

theorem passes_forM {α : Type} {items : List α} {f : α → Inspection Unit} :
    Passes (items.forM f) ↔ ∀ item ∈ items, Passes (f item) := by
  induction items with
  | nil => simp [List.forM_nil]
  | cons item items ih =>
    have hcons : (item :: items).forM f = (f item >>= fun _ => items.forM f) := rfl
    rw [hcons, passes_bind, ih]
    simp

end Passes

/-- The plan still describes the environment. -/
structure Fresh (ext : Externals) (hub : Hub) (plan : Plan) (environment : Properties)
    (subscriptions : List Subscription) : Prop where
  found : hub.environment = some environment
  preview : ext.admitPreview environment hub.site.now = .ok ()
  listed : hub.subscriptions = .ok subscriptions
  subscribed : ∀ input ∈ plan.inputs, ∃ sub ∈ subscriptions,
    sub.channelId = input.channelId ∧ sub.instance = input.instanceName
  removed : ∀ step ∈ plan.steps, step.action = .remove →
    ∀ sub ∈ subscriptions, sub.instance ≠ step.instanceName
  known : ∀ step ∈ plan.steps, step.host = none → step.action ≠ .rollback →
    environment.get .deploymentHealth step.instanceName ≠ some "unknown"
  deployed : ∀ step ∈ plan.steps, step.host = none →
    environment.get .deployed step.instanceName = step.fromVersion
  selected : ∀ input ∈ plan.inputs, ∃ head, hub.channels input.channelId = some head ∧
    head.currentVersion.isEmpty = false ∧ head.currentRelease.isEmpty = false ∧
    hub.selection input.product head.currentVersion head.currentRelease =
      .ok (input.desiredVersion, input.releaseId)

section Inspect

variable {ext : Externals} {hub : Hub} {plan : Plan}

theorem passes_inspectSubscriptions {subs : List Subscription} :
    Passes (inspectSubscriptions plan subs) ↔ (∀ input ∈ plan.inputs, ∃ sub ∈ subs,
      sub.channelId = input.channelId ∧ sub.instance = input.instanceName) ∧ ∀ step ∈ plan.steps,
      step.action = .remove → ∀ sub ∈ subs, sub.instance ≠ step.instanceName := by
  unfold inspectSubscriptions
  split
  next input hfd =>
    have hmem := List.mem_of_find?_eq_some hfd
    have hmiss := List.find?_some hfd
    simp only [not_passes_throw, false_iff]
    rintro ⟨hsubs, -⟩
    obtain ⟨sub, hsub, hchannel, hinst⟩ := hsubs input hmem
    simp only [Bool.not_eq_true', List.any_eq_false] at hmiss
    exact absurd (by simp [hchannel, hinst]) (hmiss sub hsub)
  next hinputs =>
    have hsubs : ∀ input ∈ plan.inputs, ∃ sub ∈ subs,
        sub.channelId = input.channelId ∧ sub.instance = input.instanceName := by
      intro input hinput
      have hfd := List.find?_eq_none.mp hinputs input hinput
      simpa using hfd
    split
    next step hfd =>
      have hmem := List.mem_of_find?_eq_some hfd
      have hback := List.find?_some hfd
      simp only [Bool.and_eq_true, decide_eq_true_eq, List.any_eq_true] at hback
      obtain ⟨hact, sub, hsub, hinst⟩ := hback
      simp only [not_passes_throw, false_iff]
      rintro ⟨-, hgone⟩
      exact hgone step hmem hact sub hsub hinst
    next hsteps =>
      refine iff_of_true passes_pure ⟨hsubs, ?_⟩
      intro step hstep hact sub hsub hinst
      have hkept := List.find?_eq_none.mp hsteps step hstep
      simp only [hact, decide_true, Bool.true_and, List.any_eq_true, decide_eq_true_eq] at hkept
      exact hkept ⟨sub, hsub, hinst⟩

theorem passes_inspectStep {env : Properties} {step : Step} :
    Passes (inspectStep env step) ↔ (step.host = none → (step.action ≠ .rollback →
        env.get .deploymentHealth step.instanceName ≠ some "unknown") ∧
      env.get .deployed step.instanceName = step.fromVersion) := by
  unfold inspectStep
  cases step.host with
  | some host => simp
  | none =>
    simp only [Option.isSome_none, Bool.false_eq_true, if_false, passes_ite, not_passes_throw,
      passes_pure, ne_eq, not_and, forall_const]
    grind

theorem passes_inspectInput {input : DesiredStateInput} :
    Passes (inspectInput hub input) ↔ ∃ head, hub.channels input.channelId = some head ∧
      head.currentVersion.isEmpty = false ∧ head.currentRelease.isEmpty = false ∧
      hub.selection input.product head.currentVersion head.currentRelease =
        .ok (input.desiredVersion, input.releaseId) := by
  unfold inspectInput
  split
  next hmiss => simp [hmiss]
  next head hhead =>
    simp only [hhead, Option.some.injEq, exists_eq_left', passes_ite, passes_lift]
    rcases hver : head.currentVersion.isEmpty <;> rcases hrel : head.currentRelease.isEmpty
    · simp
    · simp
    · simp
    · simp

theorem passes_inspect :
    Passes (inspect ext hub plan) ↔ ∃ env subscriptions, Fresh ext hub plan env subscriptions := by
  unfold inspect
  split
  next hmiss =>
    refine iff_of_false (not_passes_throw _) ?_
    rintro ⟨env, subscriptions, hfrs⟩
    cases hmiss.symm.trans hfrs.found
  next env henv =>
    split
    next detail hclsd =>
      refine iff_of_false (not_passes_throw _) ?_
      rintro ⟨found, subscriptions, hfrs⟩
      cases henv.symm.trans hfrs.found
      cases hclsd.symm.trans hfrs.preview
    next hopen =>
      simp only [passes_lift, passes_bind, passes_inspectSubscriptions, passes_forM,
        passes_inspectStep, passes_inspectInput]
      constructor
      · rintro ⟨subscriptions, hlst, ⟨hsubs, hrem⟩, hsteps, hinputs⟩
        exact ⟨env, subscriptions, henv, hopen, hlst, hsubs, hrem,
          fun step hstep hhost => (hsteps step hstep hhost).1,
          fun step hstep hhost => (hsteps step hstep hhost).2, hinputs⟩
      · rintro ⟨found, subscriptions, hfrs⟩
        cases henv.symm.trans hfrs.found
        exact ⟨subscriptions, hfrs.listed, ⟨hfrs.subscribed, hfrs.removed⟩,
          fun step hstep hhost => ⟨hfrs.known step hstep hhost, hfrs.deployed step hstep hhost⟩,
          hfrs.selected⟩

end Inspect

/-! ### Plans that wait -/

def Hub.Waits (hub : Hub) (plan : Plan) : Prop :=
  plan ∈ hub.plans ∧ plan.state = .computed ∧ plan.steps ≠ []

/-- Start admission accepts the plan, and only an audited rollback targets a recalled release. -/
structure Admitted (ext : Externals) (hub : Hub) (plan : Plan) : Prop where
  inspected : Passes (inspect ext hub plan)
  unrecalled : ∀ step ∈ plan.steps, step.action ≠ .remove → hub.recalled step.releaseId = true →
    step.action = .rollback ∧ plan.recalledRecoveryReason.isSome

/-- Start admission looks for a subscription of this instance. -/
def Names (plan : Plan) (name : String) : Prop :=
  (∃ input ∈ plan.inputs, input.instanceName = name) ∨
    ∃ step ∈ plan.steps, step.action = .remove ∧ step.instanceName = name

/-- The event leaves alone what the plans that wait rest on, and a plan is stored where start
    admission accepts it. -/
def Benign (ext : Externals) (hub : Hub) : HubEvent → Prop
  | .stored plan => plan.state = .computed → plan.steps ≠ [] → Admitted ext hub plan
  | .promoted channelId _ =>
    ∀ plan, hub.Waits plan → ∀ input ∈ plan.inputs, input.channelId ≠ channelId
  | .reselected selection =>
    ∀ plan, hub.Waits plan → ∀ input ∈ plan.inputs,
      selection input.product = hub.selection input.product
  | .resubscribed subscriptions =>
    ∀ plan, hub.Waits plan → ∃ after, subscriptions = .ok after ∧
      ∀ before, hub.subscriptions = .ok before →
        ∀ sub, Names plan sub.instance → (sub ∈ after ↔ sub ∈ before)
  | .recorded environment =>
    ∀ plan, hub.Waits plan → ∃ after, environment = some after ∧
      ext.admitPreview after hub.site.now = .ok () ∧
      ∀ before, hub.environment = some before → ∀ step ∈ plan.steps, step.host = none →
        after.get .deployed step.instanceName = before.get .deployed step.instanceName ∧
        after.get .deploymentHealth step.instanceName =
          before.get .deploymentHealth step.instanceName
  | .recalled releaseId =>
    ∀ plan, hub.Waits plan → ∀ step ∈ plan.steps, step.releaseId = releaseId →
      step.action = .remove ∨ step.action = .rollback ∧ plan.recalledRecoveryReason.isSome
  | .sited site =>
    ∀ plan, hub.Waits plan → ∀ environment, hub.environment = some environment →
      ext.admitPreview environment site.now = .ok ()
  | .transition _ _ | .claimWork _ => True

def AllBenign (ext : Externals) : Hub → List HubEvent → Prop
  | _, [] => True
  | hub, event :: events => Benign ext hub event ∧ AllBenign ext (hub.apply ext event) events

/-- Every plan that waits is one the server would start. -/
def Hub.Sound (ext : Externals) (hub : Hub) : Prop :=
  ∀ plan, hub.Waits plan → Admitted ext hub plan

variable {answers : Answers} {given : Delegation.RuntimeClaim}

section Run

variable {ext : Externals} {hub : Hub} {plan : Plan}

theorem Admitted.elsewhere (h : Admitted ext hub plan) {plans : List Plan} {site : Delegation.Site}
    (hnow : site.now = hub.site.now) : Admitted ext { hub with plans, site } plan := by
  obtain ⟨env, subs, hfrs⟩ := passes_inspect.mp h.inspected
  refine ⟨passes_inspect.mpr ⟨env, subs, ?_⟩, h.unrecalled⟩
  exact { hfrs with preview := by rw [← hfrs.preview, ← hnow] }

theorem waits_transition {id : String}
    {update : { update : Transition // update.state ≠ .computed }}
    (h : (hub.transition id update).Waits plan) : hub.Waits plan := by
  obtain ⟨hmem, hsta, hsteps⟩ := h
  obtain ⟨stored, hst, rfl⟩ := List.mem_map.mp hmem
  split at hsta
  · exact absurd hsta update.2
  next hoth =>
    rw [if_neg hoth] at hsteps ⊢
    exact ⟨hst, hsta, hsteps⟩

theorem now_claimPlan (site : Delegation.Site) (id owner : String) (expiry : Int) :
    (site.claimPlan id owner expiry).2.now = site.now := by
  unfold Delegation.Site.claimPlan
  repeat' split
  all_goals rfl

theorem claimOffered_hub (answers : Answers) (owner : String) :
    ∃ site : Delegation.Site, site.now = hub.site.now ∧
      ((claimOffered answers owner plan hub).2 = { hub with site } ∨
        (claimOffered answers owner plan hub).2 =
          Hub.transition { hub with site } plan.id abandoned) := by
  have hsame : ∃ site : Delegation.Site, site.now = hub.site.now ∧
      (hub = { hub with site } ∨ hub = .transition { hub with site } plan.id abandoned) :=
    ⟨hub.site, rfl, .inl rfl⟩
  unfold claimOffered
  split
  · split
    · exact hsame
    · exact hsame
  · split
    · exact hsame
    · refine ⟨_, now_claimPlan hub.site plan.id owner (saturatingAdd hub.site.now (2 * 60 * 1000)), ?_⟩
      dsimp only
      split
      · unfold grantedWork
        repeat' split
        all_goals simp
      · exact .inl rfl

/-- What `claim_work` does to the store: a claim, and an abandoned plan has failed. -/
theorem claimWork_hub (ext : Externals) (hub : Hub) (answers : Answers) :
    ∃ site : Delegation.Site, site.now = hub.site.now ∧
      ((claimWork ext answers hub).2 = { hub with site } ∨ ∃ pid,
      (claimWork ext answers hub).2 = Hub.transition { hub with site } pid abandoned) := by
  have hsame : ∃ site : Delegation.Site, site.now = hub.site.now ∧
      (hub = { hub with site } ∨ ∃ pid, hub = .transition { hub with site } pid abandoned) :=
    ⟨hub.site, rfl, .inl rfl⟩
  unfold claimWork
  split
  · exact hsame
  · exact hsame
  next owner _ =>
    split
    · exact hsame
    · split
      · exact hsame
      next plan _ =>
        split
        · exact hsame
        · exact hsame
        · obtain ⟨site, hnow, hhub | hhub⟩ := claimOffered_hub answers owner
          · exact ⟨site, hnow, .inl hhub⟩
          · exact ⟨site, hnow, .inr ⟨plan.id, hhub⟩⟩

/-! #### What is handed out -/

theorem grantedWork_open {claim : Delegation.RuntimeClaim} {out : Plan}
    (h : (grantedWork answers plan claim hub).1 = .ok ⟨some out, some given⟩)
    (hopen : given.completion = none) : out = plan ∧ plan.state ≠ .running := by
  unfold grantedWork at h
  split at h
  · split at h
    · split at h <;> cases h
    next hsta =>
      split at h
      · cases h
      · cases h
        exact ⟨rfl, hsta⟩
  next hcpl =>
    cases h
    simp [hopen] at hcpl

theorem claimOffered_open {owner : String} {out : Plan}
    (h : (claimOffered answers owner plan hub).1 = .ok ⟨some out, some given⟩)
    (hopen : given.completion = none) : out = plan ∧ plan.state ≠ .running := by
  unfold claimOffered at h
  split at h
  · split at h
    next claim hdurable =>
      cases h
      have hcpl := (Option.filter_eq_some_iff.mp hdurable).2
      simp [hopen] at hcpl
    · cases h
  · split at h
    · cases h
    · dsimp only at h
      split at h
      · exact grantedWork_open h hopen
      · cases h

theorem mem_executable_of_pendingWork {text : MillisText} {env : Properties}
    {plans : List Plan} (h : pendingWork text env plans = some plan) :
    plan ∈ executable plans [.computed, .running] := by
  unfold pendingWork at h
  split at h
  · cases h
  next hlist =>
    rw [hlist]
    split at h
    · cases h
      exact List.mem_cons_self
    · exact List.mem_of_find?_eq_some h

/-- What is handed out with an open claim waited. -/
theorem waits_of_claimWork (h : (claimWork ext answers hub).1 = .ok ⟨some plan, some given⟩)
    (hopen : given.completion = none) : hub.Waits plan := by
  unfold claimWork at h
  split at h
  · cases h
  · cases h
  · split at h
    · cases h
    · split at h
      · cases h
      next offered hpend =>
        split at h
        · cases h
        · cases h
        · obtain ⟨rfl, hsta⟩ := claimOffered_open h hopen
          have hmem := mem_executable_of_pendingWork hpend
          simp only [executable, List.mem_filter, Bool.and_eq_true] at hmem
          obtain ⟨hplan, hcontains, hsteps⟩ := hmem
          refine ⟨hplan, ?_, by simpa using hsteps⟩
          simpa [hsta] using hcontains

/-! #### Events -/

theorem Hub.Sound.moved (h : hub.Sound ext) {site : Delegation.Site}
    (hnow : site.now = hub.site.now) (id : String)
    (update : { update : Transition // update.state ≠ .computed }) :
    (Hub.transition { hub with site } id update).Sound ext := by
  intro plan hwaits
  exact (h plan (waits_transition hwaits)).elsewhere hnow

/-- One event that is benign keeps every waiting plan admissible. -/
theorem Hub.Sound.apply (h : hub.Sound ext) {ev : HubEvent} (hben : Benign ext hub ev) :
    (hub.apply ext ev).Sound ext := by
  cases ev with
  | stored stored =>
    intro plan hwaits
    obtain ⟨hmem, hsta, hsteps⟩ := hwaits
    rcases List.mem_append.mp hmem with hold | hnew
    · exact (h plan ⟨hold, hsta, hsteps⟩).elsewhere rfl
    · obtain rfl := List.mem_singleton.mp hnew
      exact (hben hsta hsteps).elsewhere rfl
  | transition id update => exact h.moved rfl id update
  | claimWork answers =>
    obtain ⟨site, hnow, hhub | ⟨id, hhub⟩⟩ := claimWork_hub ext hub answers
    · intro plan hwaits
      simp only [Hub.apply, hhub] at hwaits ⊢
      exact (h plan hwaits).elsewhere hnow
    · simp only [Hub.apply, hhub]
      exact h.moved hnow id abandoned
  | promoted channelId head =>
    intro plan hwaits
    obtain ⟨env, subscriptions, hfrs⟩ := passes_inspect.mp (h plan hwaits).inspected
    refine ⟨passes_inspect.mpr ⟨env, subscriptions, ?_⟩, (h plan hwaits).unrecalled⟩
    refine { hfrs with selected := ?_ }
    intro input hinput
    simp only [Hub.apply, Function.update_of_ne (hben plan hwaits input hinput)]
    exact hfrs.selected input hinput
  | reselected selection =>
    intro plan hwaits
    obtain ⟨env, subscriptions, hfrs⟩ := passes_inspect.mp (h plan hwaits).inspected
    refine ⟨passes_inspect.mpr ⟨env, subscriptions, ?_⟩, (h plan hwaits).unrecalled⟩
    refine { hfrs with selected := ?_ }
    intro input hinput
    simp only [Hub.apply, hben plan hwaits input hinput]
    exact hfrs.selected input hinput
  | resubscribed subscriptions =>
    intro plan hwaits
    obtain ⟨env, before, hfrs⟩ := passes_inspect.mp (h plan hwaits).inspected
    obtain ⟨after, rfl, hsame⟩ := hben plan hwaits
    have hkept := hsame before hfrs.listed
    refine ⟨passes_inspect.mpr ⟨env, after, ?_⟩, (h plan hwaits).unrecalled⟩
    refine { hfrs with listed := rfl, subscribed := ?_, removed := ?_ }
    · intro input hinput
      obtain ⟨sub, hsub, hchannel, hinst⟩ := hfrs.subscribed input hinput
      exact ⟨sub, (hkept sub (.inl ⟨input, hinput, hinst.symm⟩)).mpr hsub, hchannel, hinst⟩
    · intro step hstep hact sub hsub hinst
      have hbef := (hkept sub (.inr ⟨step, hstep, hact, hinst.symm⟩)).mp hsub
      exact hfrs.removed step hstep hact sub hbef hinst
  | recorded env =>
    intro plan hwaits
    obtain ⟨before, subscriptions, hfrs⟩ := passes_inspect.mp (h plan hwaits).inspected
    obtain ⟨after, rfl, hpreview, hsame⟩ := hben plan hwaits
    have hkept := hsame before hfrs.found
    refine ⟨passes_inspect.mpr ⟨after, subscriptions, ?_⟩, (h plan hwaits).unrecalled⟩
    refine { hfrs with found := rfl, preview := hpreview, known := ?_, deployed := ?_ }
    · intro step hstep hhost
      rw [(hkept step hstep hhost).2]
      exact hfrs.known step hstep hhost
    · intro step hstep hhost
      rw [(hkept step hstep hhost).1]
      exact hfrs.deployed step hstep hhost
  | recalled releaseId =>
    intro plan hwaits
    refine ⟨(h plan hwaits).inspected, ?_⟩
    intro step hstep hact hrecl
    by_cases hrel : step.releaseId = releaseId
    · exact (hben plan hwaits step hstep hrel).resolve_left hact
    · simp only [Hub.apply, Function.update_of_ne hrel] at hrecl
      exact (h plan hwaits).unrecalled step hstep hact hrecl
  | sited site =>
    intro plan hwaits
    obtain ⟨env, subscriptions, hfrs⟩ := passes_inspect.mp (h plan hwaits).inspected
    refine ⟨passes_inspect.mpr ⟨env, subscriptions, ?_⟩, (h plan hwaits).unrecalled⟩
    exact { hfrs with preview := hben plan hwaits env hfrs.found }

theorem Hub.Sound.run (h : hub.Sound ext) {events : List HubEvent}
    (hben : AllBenign ext hub events) : (hub.run ext events).Sound ext := by
  induction events generalizing hub with
  | nil => exact h
  | cons ev events ih => exact ih (h.apply hben.1) hben.2

end Run

/-- In every run that leaves alone what waiting plans rest on, whatever `claim_work` hands out
    with an open claim is a plan that the server would start. -/
theorem handed_out_is_admitted (ext : Externals) (start : Hub) (hempty : start.plans = [])
    (events : List HubEvent) (hbenign : AllBenign ext start events) (answers : Answers)
    (plan : Plan) (claim : Delegation.RuntimeClaim)
    (hwork : (claimWork ext answers (start.run ext events)).1 = .ok ⟨some plan, some claim⟩)
    (hopen : claim.completion = none) :
    (inspect ext (start.run ext events) plan).run = .ok (.ok ()) ∧
      ∀ step ∈ plan.steps, step.action ≠ .remove →
        (start.run ext events).recalled step.releaseId = true →
          step.action = .rollback ∧ plan.recalledRecoveryReason.isSome := by
  have hstart : start.Sound ext := by
    intro plan hwaits
    have hmem := hwaits.1
    rw [hempty] at hmem
    cases hmem
  obtain ⟨hinspected, hunrecalled⟩ := hstart.run hbenign plan (waits_of_claimWork hwork hopen)
  exact ⟨hinspected, hunrecalled⟩

/-! ### A plan that is overtaken -/

section Lab

/-- Times are not read, and no environment is a preview. -/
def labExternals : Externals := ⟨blindText, fun _ _ => .ok ()⟩

/-- Nothing is deployed; `web` is subscribed to `stable`, at `1.0.0`. -/
def labHub : Hub where
  environment := some ∅
  subscriptions := .ok [⟨"web", "web", "stable", "tenkai:channel:web/stable", "1.0.0",
    releaseId "web" "1.0.0"⟩]
  channels id := if id = "tenkai:channel:web/stable" then
    some ⟨"1.0.0", releaseId "web" "1.0.0"⟩ else none
  selection _ version release := .ok (version, release)
  recalled _ := false
  plans := []
  site := .blank 0

def installStep : Step where
  id := "tenkai:plan:prod:0:step:0"
  order := 0
  product := "web"
  «instance» := ""
  action := .install
  fromVersion := none
  toVersion := "1.0.0"
  releaseId := releaseId "web" "1.0.0"
  releaseDigest := "digest"
  artifactDigest := "artifact"
  workdir := ""
  restore := none
  host := none

/-- The plan that installs `web` at the head of its channel. -/
def installPlan : Plan where
  id := "tenkai:plan:prod:0"
  contentId := "content"
  environment := "prod"
  createdAt := 0
  inputs := [⟨"web", "", "stable", "tenkai:channel:web/stable", "1.0.0", releaseId "web" "1.0.0",
    "digest", "artifact", none⟩]
  steps := [installStep]
  state := .computed
  gatesSkipped := none
  statusDetail := ""
  maintenanceBlocked := false
  recalledRecoveryReason := none

def labAnswers : Answers where
  admitted := .ok "runtime"
  mayTakeOver := .ok true
  readable := .ok ()
  requireRelease _ := .ok ()
  deliveryHeld _ := .ok false
  trustedTime := .ok ()
  claimStored := .ok ()
  abandonStored := .ok ()
  requirePlacement _ := .ok ()

def labClaim : Delegation.RuntimeClaim := ⟨"runtime", 1, 120000, none⟩

theorem installPlan_admitted : Admitted labExternals labHub installPlan where
  inspected := by
    unfold Passes
    decide +kernel
  unrecalled := by decide +kernel

theorem handed_out_is_admitted_web :
    (claimWork labExternals labAnswers (labHub.run labExternals [.stored installPlan])).1 =
        .ok ⟨some installPlan, some labClaim⟩ ∧
      (inspect labExternals (labHub.run labExternals [.stored installPlan]) installPlan).run =
        .ok (.ok ()) := by
  have hwork : (claimWork labExternals labAnswers
      (labHub.run labExternals [.stored installPlan])).1 =
        .ok ⟨some installPlan, some labClaim⟩ := by decide +kernel
  refine ⟨hwork, ?_⟩
  exact (handed_out_is_admitted labExternals labHub rfl [.stored installPlan]
    ⟨fun _ _ => installPlan_admitted, trivial⟩ labAnswers installPlan labClaim hwork rfl).1

/-- The plan is admissible when it is stored. Then its channel moves on, or its release is
    recalled; a runtime gets it all the same. -/
theorem overtaken_plan_is_handed_out :
    Benign labExternals labHub (.stored installPlan) ∧
      (∀ event ∈ [HubEvent.promoted "tenkai:channel:web/stable" ⟨"2.0.0", releaseId "web" "2.0.0"⟩,
          .recalled (releaseId "web" "1.0.0")],
        (claimWork labExternals labAnswers
          (labHub.run labExternals [.stored installPlan, event])).1 =
            .ok ⟨some installPlan, some labClaim⟩) ∧
      (inspect labExternals (labHub.run labExternals [.stored installPlan,
          .promoted "tenkai:channel:web/stable" ⟨"2.0.0", releaseId "web" "2.0.0"⟩])
        installPlan).run = .ok (.error (.channelMoved "web" "stable")) ∧
      (labHub.run labExternals [.stored installPlan, .recalled (releaseId "web" "1.0.0")]).recalled
        installStep.releaseId = true := by
  refine ⟨fun _ _ => installPlan_admitted, ?_, by decide +kernel, by decide +kernel⟩
  intro event hevent
  rcases List.mem_cons.mp hevent with rfl | hevent
  · decide +kernel
  · obtain rfl := List.mem_singleton.mp hevent
    decide +kernel

end Lab

end Tenkai.RuntimeAdmission
