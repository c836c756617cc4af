import Tenkai.Monitor
import Tenkai.StepLifecycle

/-!
# The protocol of a step

What a step may do, and when. The stage keeps what the answers say: which release runs, whether the
environment was written since, whether bookkeeping or the gate went wrong. A write is in order only
if it says what the stage says, and the program returns only where the record is settled or the
reason it is not is known (`Stage.Settled`). `heeds_execute` goes through the program once.
-/

namespace Tenkai.StepLifecycle

structure Stage where
  /-- The release that runs, by the answers of the executor. -/
  runs : Option String
  /-- No write of the environment was asked for yet. -/
  pristine : Bool
  /-- One was since the last call to an executor. -/
  noted : Bool
  /-- Bookkeeping failed since the last call to an executor. -/
  lost : Bool
  /-- The properties bookkeeping read last. -/
  read : Option Properties
  /-- The overlays read for the next call to an executor. -/
  request : Option (Option String)
  /-- A release was admitted that is not given overlays. -/
  bare : Bool
  /-- The gate or bookkeeping failed while the step's release ran. -/
  troubled : Bool
  /-- The gate decided to roll back. -/
  rolling : Bool
  /-- A release was started, and neither was a write asked for nor did anything fail since. -/
  owed : Bool
  /-- A start of a release succeeded. -/
  started : Bool

namespace Stage

variable (step : Step) (φ : Stage)

def start : Stage where
  runs := step.installed
  pristine := true
  noted := false
  lost := false
  read := none
  request := none
  bare := false
  troubled := false
  rolling := false
  owed := false
  started := false

def trouble : Stage :=
  { φ with troubled := φ.troubled || φ.runs = some step.releaseId, owed := false }

def missed : Stage := { φ.trouble step with lost := true }

def called (starts : Bool) (release : String) (ok : Bool) : Stage :=
  { φ with
    runs := if ok then (if starts then some release else none) else φ.runs
    noted := false
    lost := false
    read := none
    request := none
    owed := starts && ok
    started := φ.started || starts && ok }

theorem started_called {starts : Bool} {rel : String} {ok : Bool}
    (h : (φ.called starts rel ok).owed) : (φ.called starts rel ok).started :=
  Bool.or_eq_true_iff.mpr (.inr h)

def wrote : Stage := { φ with pristine := false, noted := true, read := none, owed := false }

def answered : (question : Question) → question.Answer → Stage
  | .autoRollbackTarget _, loads => { φ with rolling := φ.rolling || loads }
  | .admitRelease _ _, manifest =>
    { φ with bare := φ.bare || !(manifest.target == .software && manifest.adapted) }
  | _, _ => φ

def after : (op : Op) → op.Reply → Stage
  | .decide question, .ok answer => φ.answered question answer
  | .decide question, .error _ =>
    if question.isBookkeeping then φ.missed step
    else if question.isGate then φ.trouble step
    else φ
  | .readEnvironment .bookkeeping, .ok environment => { φ with read := some environment }
  | .readEnvironment .bookkeeping, .error _ => φ.missed step
  | .readEnvironment .gate, .error _ => φ.trouble step
  | .readEnvironment .request, .ok environment =>
    { φ with request := some (environment.get .overlay step.product) }
  | .readEnvironment .request, .error _ => { φ with owed := false }
  | .execute call _ release _, answer => φ.called call.starts release (succeeded answer)
  | .runHost _, _ => { φ with noted := false, lost := false, read := none }
  | .createAttempt, .error _ => φ.missed step
  | .commit _ _ _ _, .ok () | .updateEnvironment _ _, .ok () => φ.wrote
  | .commit _ _ _ _, .error _ | .updateEnvironment _ _, .error _ => (φ.trouble step).wrote
  | .updateAttempt _ _, .error _ => φ.trouble step
  | _, _ => φ

/-- What an observation may say of the deployment. -/
def Transits : DeploymentTransition → Prop
  | .deployed version previous =>
    version = step.toVersion ∧
      match step.host with
      | none => previous = step.fromVersion ∧ φ.runs = some step.releaseId ∧ φ.started ∧
          (step.action = .restart → φ.rolling)
      | some host => (host.action = .install ∧ previous = step.fromVersion) ∨
          (host.action = .health ∧ previous = none)
  | .refreshed =>
    step.host = none ∧ step.action = .restart ∧ φ.runs = some step.releaseId ∧ φ.started
  | .removed version =>
    version = step.toVersion ∧ ∃ host, step.host = some host ∧ host.action = .uninstall
  | .unchanged =>
    step.host.isSome ∨ (step.fromVersion = none ∧ φ.runs = none) ∨
      ∃ pin, step.restore = some pin ∧ φ.runs = some pin.releaseId ∧
        (step.fromVersion = none → φ.rolling)
  | .unknown => True

def Writes : Write → Prop
  | .observe observation _ _ _ =>
    observation.step = step ∧ φ.pristine ∧ φ.Transits step observation.transition
  -- only to compensate, back to the release that was replaced
  | .deployed product inst version previous _ =>
    product = step.product ∧ inst = step.instanceName ∧
      step.fromVersion = some version ∧ previous = some step.toVersion ∧
      step.action ≠ .restart ∧ step.host = none ∧ φ.troubled ∧ φ.started ∧
      ∃ pin, step.restore = some pin ∧ φ.runs = some pin.releaseId
  | .unknown product inst _ => product = step.product ∧ inst = step.instanceName

/-- The step may return: the record is as the last write left it, or nothing needs to be
    recorded, or an error says that it is not. -/
def Settled (result : Except Failure Outcome) : Prop :=
  step.host = none → φ.owed = false ∧
    ((∃ error, result = .error error ∧ error.cause = .fenceLost) ∨ φ.lost ∨ φ.noted ∨
      (φ.pristine ∧
        (φ.runs = step.installed ∨ (step.action = .restart ∧ φ.runs = some step.releaseId))))

/-- What is never taken back. -/
structure Later (φ ψ : Stage) : Prop where
  bare : φ.bare → ψ.bare
  rolling : φ.rolling → ψ.rolling
  troubled : φ.troubled → ψ.troubled
  started : φ.started → ψ.started

theorem Later.refl : Later φ φ := ⟨id, id, id, id⟩

theorem Later.trans {φ ψ χ : Stage} (h : Later φ ψ) (h' : Later ψ χ) : Later φ χ :=
  ⟨h'.bare ∘ h.bare, h'.rolling ∘ h.rolling, h'.troubled ∘ h.troubled, h'.started ∘ h.started⟩

theorem later_trouble : Later φ (φ.trouble step) := by
  refine ⟨id, id, ?_, id⟩
  intro h
  simp [trouble, h]

theorem later_answered (q : Question) (ans : q.Answer) : Later φ (φ.answered q ans) := by
  unfold answered
  split
  · refine ⟨id, ?_, id, id⟩
    intro h
    exact Bool.or_eq_true_iff.mpr (.inl h)
  · refine ⟨?_, id, id, id⟩
    intro h
    simp [h]
  · exact .refl φ

theorem later_after (op : Op) (reply : op.Reply) : Later φ (φ.after step op reply) := by
  have htrbl := φ.later_trouble step
  unfold after
  split
  · exact φ.later_answered _ _
  · split
    · exact ⟨htrbl.bare, htrbl.rolling, htrbl.troubled, htrbl.started⟩
    · split
      · exact htrbl
      · exact .refl φ
  all_goals first
    | exact htrbl
    | exact ⟨id, id, id, id⟩
    | exact ⟨htrbl.bare, htrbl.rolling, htrbl.troubled, htrbl.started⟩
    | exact ⟨id, id, id, fun h => by simp [called, h]⟩

end Stage

def gated (step : Step) (skipGates : Bool) : Bool :=
  !skipGates && step.action ≠ .rollback && step.action ≠ .remove

abbrev protocol (step : Step) (skipGates : Bool) : Monitor interface where
  Stage := Stage
  legal φ := fun
    | .decide (.autoRollbackTarget pin) => gated step skipGates ∧ step.restore = some pin
    | .execute call inst _ overlays =>
      inst = step.instanceName ∧ step.host = none ∧ (φ.owed → φ.rolling) ∧
        (call.starts → φ.bare ∨ φ.request = some overlays)
    | .runHost _ => step.host.isSome
    | .commit base write _ _ | .updateEnvironment base write =>
      φ.read = some base ∧ φ.Writes step write
    | .updateAttempt _ _ => φ.noted
    | .claimEnvironment | .releaseEnvironment | .put _ => False
    | _ => True
  after φ op reply := φ.after step op reply

/-! ### Operations -/

variable {base : Properties} {call : ExecutorCall} {content : ReleaseContent} {host : HostStep}
  {out : Outcome} {transition : DeploymentTransition} {write : Write}

section Walk

variable {plan : Plan} {step : Step} {skip : Bool} {α β : Type} {φ ψ : Stage}
  {χ : Stage} {R : α → Stage → Prop} {Q : β → Stage → Prop} {F G : Failure → Stage → Prop}

variable {x : M α} {f : α → M β}

/-- What is never taken back, of a whole program. -/
theorem heeds_later (h : Heeds (protocol step skip) x R F φ) :
    Heeds (protocol step skip) x (fun a ψ => R a ψ ∧ φ.Later ψ) F φ := by
  have hframed := Heeds.framed .refl
    (fun _ _ _ h h' => h.trans h') (fun φ op r => Stage.later_after step φ op r) h
  exact hframed.mono (fun _ _ h => h) (fun _ _ h => h.1)

theorem heeds_then (h : Heeds (protocol step skip) x R G φ) (herr : ∀ e ψ, G e ψ → F e ψ)
    (hf : ∀ a ψ, R a ψ → φ.Later ψ → Heeds (protocol step skip) (f a) Q F ψ) :
    Heeds (protocol step skip) (x >>= f) Q F φ :=
  (heeds_later h).then herr fun a ψ hψ => hf a ψ hψ.1 hψ.2

/-- Code that looks at the result of a program before it goes on. -/
theorem heeds_caught {f : Except Failure α → M β} (h : Heeds (protocol step skip) x R G φ)
    (hok : ∀ a ψ, R a ψ → φ.Later ψ → Heeds (protocol step skip) (f (.ok a)) Q F ψ)
    (herr : ∀ e ψ, G e ψ → φ.Later ψ → Heeds (protocol step skip) (f (.error e)) Q F ψ) :
    Heeds (protocol step skip) (M.caught x >>= f) Q F φ := by
  refine heeds_then (.caught h) (fun _ _ h => h) ?_
  rintro (e | a) ψ hψ hlat
  · exact herr e ψ hψ hlat
  · exact hok a ψ hψ hlat

theorem heeds_nowMillis : Heeds (protocol step skip) M.nowMillis (fun _ ψ => φ = ψ) F φ :=
  ⟨trivial, fun _ => rfl⟩

theorem heeds_decide (q : Question) (hleg : (protocol step skip).legal φ (.decide q)) :
    Heeds (protocol step skip) (M.decide q) (fun ans ψ => ψ = φ.answered q ans)
      (fun _ ψ => ψ = if q.isBookkeeping then φ.missed step else if q.isGate then φ.trouble step
      else φ) φ := by
  refine ⟨hleg, fun ans => ?_⟩
  cases ans <;> rfl

theorem heeds_readBookkeeping : Heeds (protocol step skip) (M.readEnvironment .bookkeeping)
      (fun env ψ => ψ = { φ with read := some env })
      (fun _ ψ => ψ = φ.missed step) φ := by
  refine ⟨trivial, fun reply => ?_⟩
  cases reply <;> rfl

theorem heeds_createAttempt :
    Heeds (protocol step skip) M.createAttempt (fun _ ψ => φ = ψ) (fun _ ψ => ψ = φ.missed step) φ
      := by
  refine ⟨trivial, fun reply => ?_⟩
  cases reply <;> rfl

theorem heeds_readAttempt :
    Heeds (protocol step skip) M.readAttempt (fun _ ψ => φ = ψ) (fun _ ψ => φ = ψ) φ := by
  refine ⟨trivial, fun reply => ?_⟩
  cases reply <;> rfl

/-! ### Recording -/

/-- After bookkeeping for what runs at `φ`: it was written, or could not be. -/
structure Recorded (φ ψ : Stage) : Prop where
  runs : ψ.runs = φ.runs
  closed : ψ.lost ∨ ψ.noted
  owed : ψ.owed = false

/-- Bookkeeping failed, and the gate or bookkeeping of the step's own release with it. -/
structure Unrecorded (step : Step) (φ ψ : Stage) : Prop extends Recorded φ ψ where
  troubled : φ.runs = some step.releaseId → ψ.troubled

theorem Stage.troubled_trouble (h : φ.runs = some step.releaseId) : (φ.trouble step).troubled := by
  simp [trouble, h]

theorem unrecorded_missed : Unrecorded step φ (φ.missed step) :=
  ⟨⟨rfl, .inl rfl, rfl⟩, Stage.troubled_trouble⟩

theorem recorded_wrote : Recorded φ φ.wrote := ⟨rfl, .inr rfl, rfl⟩

theorem unrecorded_wrote : Unrecorded step φ (φ.trouble step).wrote :=
  ⟨⟨rfl, .inr rfl, rfl⟩, Stage.troubled_trouble⟩

/-- A program that records what runs at `φ`, from a stage at which the same runs. -/
abbrev Records (step : Step) (skipGates : Bool) (φ : Stage) (x : M Unit) (ψ : Stage) : Prop :=
  Heeds (protocol step skipGates) x (fun _ χ => Recorded φ χ) (fun _ χ => Unrecorded step φ χ) ψ

theorem Recorded.of_runs (h : Recorded ψ χ) (hruns : ψ.runs = φ.runs) : Recorded φ χ :=
  ⟨h.runs.trans hruns, h.closed, h.owed⟩

theorem Unrecorded.of_runs (h : Unrecorded step ψ χ) (hruns : ψ.runs = φ.runs) :
    Unrecorded step φ χ :=
  ⟨h.toRecorded.of_runs hruns, fun hown => h.troubled (hruns.trans hown)⟩

theorem records_updateEnvironment (hread : φ.read = some base) (hwrite : φ.Writes step write) :
    Records step skip φ (M.updateEnvironment base write) φ := by
  refine ⟨⟨hread, hwrite⟩, fun reply => ?_⟩
  cases reply with
  | error e => exact unrecorded_wrote
  | ok a => exact recorded_wrote

theorem heeds_bookkeeping (q : Question) (hqn : q.isBookkeeping) :
    Heeds (protocol step skip) (M.decide q) (fun _ ψ => φ = ψ) (fun _ ψ => ψ = φ.missed step) φ :=
      by
  have hleg : (protocol step skip).legal φ (.decide q) := by
    cases q <;> trivial
  refine (heeds_decide q hleg).mono ?_ ?_
  · rintro _ ψ rfl
    cases q <;> first | rfl | cases hqn
  · rintro e ψ rfl
    exact if_pos hqn

theorem heeds_linkAttempt :
    Heeds (protocol step skip) linkAttempt (fun _ ψ => φ = ψ) (fun _ ψ => ψ = φ.missed step) φ := by
  have hthen : ∀ {q : Question}, q.isBookkeeping →
      ∀ {f : q.Answer → M Unit}, (∀ ans, Heeds (protocol step skip) (f ans)
        (fun _ ψ => φ = ψ) (fun _ ψ => ψ = φ.missed step) φ) →
      Heeds (protocol step skip) (M.decide q >>= f) (fun _ ψ => φ = ψ)
        (fun _ ψ => ψ = φ.missed step) φ := by
    intro q hqn f hf
    refine (heeds_bookkeeping q hqn).bind ?_
    rintro ans _ rfl
    exact hf ans
  refine hthen rfl fun _ => hthen rfl fun _ => hthen rfl fun _ => ?_
  refine hthen rfl fun _ => hthen rfl fun _ => ?_
  exact heeds_bookkeeping _ rfl

theorem heeds_readForObservation {obs : DeploymentObservation} (hchgs : obs.changesEnvironment) :
    Heeds (protocol step skip) (readForObservation obs)
      (fun env ψ => ∃ base, env = some base ∧ ψ = { φ with read := some base })
      (fun _ ψ => ψ = φ.missed step) φ := by
  refine .bind (heeds_bookkeeping .outcomeExport rfl) ?_
  rintro _ _ rfl
  split
  · refine .bind heeds_readBookkeeping ?_
    rintro env _ rfl
    exact .pure ⟨env, rfl, rfl⟩
  next hneed =>
    -- an obs that changes the env is never made without reading it
    have hstat : obs.transition ≠ .unchanged ∨ obs.status ≠ .blocked := by
      simp only [DeploymentObservation.changesEnvironment, Bool.or_eq_true, decide_eq_true_eq]
        at hchgs
      rcases hchgs with (h | h) | h
      · exact .inl h
      · exact .inr (by simp [h])
      · exact .inr (by simp [h])
    refine absurd ?_ hneed
    rcases hstat with h | h <;> simp [h]

theorem records_confirmAttempt (obs : DeploymentObservation) {update : M Unit}
    (hupdate : Records step skip φ update ψ) :
    Records step skip φ (confirmAttempt obs update) ψ := by
  refine heeds_caught hupdate ?_ ?_
  · rintro _ ψ hψ -
    exact .pure hψ
  · rintro error ψ hψ -
    refine .bind (.caught heeds_readAttempt) ?_
    rintro persisted χ hχ
    obtain rfl : ψ = χ := by
      cases persisted with
      | ok | error => exact hχ
    split
    · split
      · exact .pure hψ.toRecorded
      · exact .throw hψ
    · exact .throw hψ

theorem records_landObservation {obs : DeploymentObservation} (hchgs : obs.changesEnvironment)
    (hread : φ.read = some base) (hwrite : φ.Writes step write) :
    Records step skip φ (landObservation obs (some base) write) φ := by
  refine (heeds_bookkeeping .storeBatches rfl).then ?_ ?_
  · rintro _ _ rfl
    exact unrecorded_missed
  · rintro together _ rfl
    rw [hchgs]
    cases together with
    | true =>
      refine records_confirmAttempt obs ⟨⟨hread, hwrite⟩, fun reply => ?_⟩
      cases reply with
      | error e => exact unrecorded_wrote
      | ok a => exact recorded_wrote
    | false =>
      have hwrote : Heeds (protocol step skip) (M.updateEnvironment base write)
          (fun _ ψ => ψ = φ.wrote) (fun _ ψ => Unrecorded step φ ψ) φ := by
        refine ⟨⟨hread, hwrite⟩, fun reply => ?_⟩
        cases reply with
        | error e => exact unrecorded_wrote
        | ok a => rfl
      refine hwrote.bind ?_
      rintro _ _ rfl
      refine records_confirmAttempt obs ⟨rfl, fun reply => ?_⟩
      cases reply with
      | error e => exact ⟨⟨rfl, .inr rfl, rfl⟩, Stage.troubled_trouble⟩
      | ok a => exact recorded_wrote

/-- An outcome may be recorded at `φ`, and says what the stage says. -/
structure MayRecord (step : Step) (φ : Stage) (outcome : Outcome)
    (transition : DeploymentTransition) : Prop where
  owner : outcome.step = step
  pristine : φ.pristine
  transits : φ.Transits step transition
  changes : transition ≠ .unchanged ∨ outcome.status = .failed ∨ outcome.status = .rolledBack

theorem records_record (h : MayRecord step φ out transition) :
    Records step skip φ (record plan out transition) φ := by
  have hmissed : ∀ {φ ψ : Stage}, ψ.runs = φ.runs → ∀ (_ : Failure) (χ : Stage),
      χ = ψ.missed step → Unrecorded step φ χ := by
    rintro φ ψ hruns _ _ rfl
    exact unrecorded_missed.of_runs hruns
  have hobservation : ∀ obs : DeploymentObservation,
      obs.transition = transition → obs.status = out.status → obs.changesEnvironment := by
    rintro obs rfl hstat
    rcases h.changes with h | h | h <;> simp [DeploymentObservation.changesEnvironment, hstat, h]
  refine .bind heeds_nowMillis ?_
  rintro _ _ rfl
  refine heeds_createAttempt.then (hmissed rfl) ?_
  rintro _ _ rfl
  refine heeds_linkAttempt.then (hmissed rfl) ?_
  rintro _ _ rfl
  refine .bind heeds_nowMillis ?_
  rintro _ _ rfl
  refine (heeds_readForObservation (hobservation _ rfl rfl)).then (hmissed rfl) ?_
  rintro _ _ ⟨_, rfl, rfl⟩
  refine (Heeds.ite (fun _ => heeds_bookkeeping _ rfl) (fun _ => .pure rfl)).then (hmissed rfl) ?_
  rintro _ _ rfl
  refine (heeds_bookkeeping .providerEvents rfl).then (hmissed rfl) ?_
  rintro _ _ rfl
  refine (records_landObservation (hobservation _ rfl rfl) rfl
    (by exact ⟨h.owner, h.pristine, h.transits⟩)).mono ?_ ?_
  · rintro _ ψ hψ
    exact hψ.of_runs rfl
  · rintro _ ψ hψ
    exact hψ.of_runs rfl

theorem records_recordUnknown (detail : String) :
    Records step skip φ (recordUnknown step detail) φ := by
  refine heeds_readBookkeeping.then ?_ ?_
  · rintro _ _ rfl
    exact unrecorded_missed
  · rintro _ _ rfl
    refine (records_updateEnvironment rfl (by exact ⟨rfl, rfl⟩)).mono ?_ ?_
    · rintro _ ψ hψ
      exact hψ.of_runs rfl
    · rintro _ ψ hψ
      exact hψ.of_runs rfl

theorem records_recordDeployed {v : String} {pin : ReleasePin} (hfrom : step.fromVersion = some v)
    (hrstr : step.restore = some pin) (hact : step.action ≠ .restart) (hhost : step.host = none)
    (htrbd : φ.troubled) (hstd : φ.started) (hruns : φ.runs = some pin.releaseId) :
    Records step skip φ (recordDeployed step v (some step.toVersion)) φ := by
  refine heeds_readBookkeeping.then ?_ ?_
  · rintro _ _ rfl
    exact unrecorded_missed
  · rintro _ _ rfl
    refine (heeds_bookkeeping (.dependencyDocument step.product) rfl).then ?_ ?_
    · rintro _ _ rfl
      exact unrecorded_missed.of_runs rfl
    · rintro _ _ rfl
      refine (records_updateEnvironment rfl (by
        exact ⟨rfl, rfl, hfrom, rfl, hact, hhost, htrbd, hstd, pin, hrstr, hruns⟩)).mono ?_ ?_
      · rintro _ ψ hψ
        exact hψ.of_runs rfl
      · rintro _ ψ hψ
        exact hψ.of_runs rfl

/-! ### Executors -/

/-- A release admitted for the step. -/
structure Fit (step : Step) (φ : Stage) (content : ReleaseContent) : Prop where
  «instance» : content.instance = step.instanceName
  product : content.product = step.product
  bare : content.takesOverlays = false → φ.bare

theorem Fit.later (h : Fit step φ content) (hlat : φ.Later ψ) : Fit step ψ content :=
  ⟨h.instance, h.product, fun hbare => hlat.bare (h.bare hbare)⟩

/-- After a call to an executor that would leave `running`, if it succeeds. -/
structure Called (φ ψ : Stage) (running : Option String) (owed ok : Bool) : Prop where
  runs : ψ.runs = if ok then running else φ.runs
  pristine : φ.pristine → ψ.pristine
  owed : ψ.owed = (owed && ok)
  started : ψ.owed → ψ.started

/-- A program that makes one such call, if it gets that far. -/
abbrev Calls (step : Step) (skipGates : Bool) (x : M (Except String Unit))
    (running : Option String) (owed : Bool) (φ : Stage) : Prop :=
  Heeds (protocol step skipGates) x
    (fun result ψ => Called φ ψ running owed (succeeded (.ok result)))
    (fun _ ψ => Called φ ψ running owed false) φ

def FenceLost (error : Failure) (ψ : Stage) : Prop := error.cause = .fenceLost ∧ ψ.owed = false

theorem calls_callExecutor {overlays : Option String}
    (hinst : content.instance = step.instanceName) (hhost : step.host = none)
    (howed : φ.owed → φ.rolling) (hrqst : call.starts → φ.bare ∨ φ.request = some overlays) :
    Calls step skip (callExecutor call content overlays)
      (if call.starts then some content.releaseId else none) call.starts φ := by
  refine ⟨⟨hinst, hhost, howed, hrqst⟩, fun reply => ?_⟩
  cases reply <;> exact ⟨rfl, id, rfl, φ.started_called⟩

theorem calls_stop (hcall : call.starts = false) (hfit : Fit step φ content)
    (hhost : step.host = none) (howed : φ.owed → φ.rolling) :
    Calls step skip (callExecutor call content none) none false φ := by
  have hcalled : Calls step skip (callExecutor call content none) _ _ φ :=
    calls_callExecutor hfit.instance hhost howed (by simp [hcall])
  rwa [hcall] at hcalled

theorem calls_start (hcall : call.starts) (hfit : Fit step φ content) (hhost : step.host = none)
    (howed : φ.owed → φ.rolling) :
    Calls step skip (do let overlays ← requestOverlays content; callExecutor call content overlays)
      (some content.releaseId) true φ := by
  have hrequested : Heeds (protocol step skip) (requestOverlays content)
      (fun overlays ψ => ∃ request, ψ = { φ with request } ∧ (φ.bare ∨ request = some overlays))
      (fun _ ψ => ψ = { φ with owed := false }) φ := by
    refine .ite (fun _ => ?_) (fun hbare => ?_)
    · refine .bind (R := fun env ψ =>
        ψ = { φ with request := some (env.get .overlay step.product) }) ?_ ?_
      · refine ⟨trivial, fun reply => ?_⟩
        cases reply <;> rfl
      · rintro env _ rfl
        exact .pure ⟨_, rfl, .inr (by rw [hfit.product])⟩
    · exact .pure ⟨φ.request, rfl, .inl (hfit.bare (by simpa using hbare))⟩
  refine hrequested.then ?_ ?_
  · rintro _ _ rfl
    exact ⟨rfl, id, rfl, by simp⟩
  · rintro overlays _ ⟨request, rfl, hrqst⟩
    have hcalled : Calls step skip (callExecutor call content overlays) _ _ { φ with request } :=
      calls_callExecutor hfit.instance hhost howed (fun _ => hrqst)
    rw [hcall] at hcalled
    exact hcalled.mono (fun _ _ h => ⟨h.runs, h.pristine, h.owed, h.started⟩)
      (fun _ _ h => ⟨h.runs, h.pristine, h.owed, h.started⟩)

/-- A call to an executor, unless the fence was lost. -/
theorem heeds_fenced {x : M (Except String Unit)} {running : Option String} {owed : Bool}
    (h : Calls step skip x running owed φ) :
    Heeds (protocol step skip) (fenced x)
      (fun res ψ => Called φ ψ running owed (succeeded res)) FenceLost φ := by
  refine heeds_caught h ?_ ?_
  · rintro res ψ hψ -
    exact .pure hψ
  · rintro _ ψ hψ -
    refine .ite (fun hcause => .throw ⟨hcause, ?_⟩) (fun _ => .pure hψ)
    simpa using hψ.owed

/-! ### Recovery -/

/-- A program that returns only where the record is settled. -/
abbrev Settles (step : Step) (skipGates : Bool) (x : M Outcome) (φ : Stage) : Prop :=
  Heeds (protocol step skipGates) x (fun outcome ψ => ψ.Settled step (.ok outcome))
    (fun error ψ => ψ.Settled step (.error error)) φ

theorem FenceLost.settled {error : Failure} (h : FenceLost error φ) :
    φ.Settled step (.error error) :=
  fun _ => ⟨h.2, .inl ⟨error, rfl, h.1⟩⟩

theorem Recorded.settled (h : Recorded φ ψ) {result : Except Failure Outcome} :
    ψ.Settled step result := by
  intro _
  refine ⟨h.owed, .inr ?_⟩
  rcases h.closed with h | h
  · exact .inl h
  · exact .inr (.inl h)

/-- An outcome that is still to be recorded, and may be; or one that was. -/
structure Recordable (step : Step) (φ : Stage) (ended : Outcome × Option DeploymentTransition) :
    Prop where
  pending : ∀ transition, ended.2 = some transition → MayRecord step φ ended.1 transition
  done : ended.2 = none → φ.Settled step (.ok ended.1)

theorem mayRecord_unknown (hpris : φ.pristine) (status : StepOutcomeStatus)
    (detail : String) : MayRecord step φ ⟨step, status, detail⟩ .unknown :=
  ⟨rfl, hpris, trivial, .inl (by decide)⟩

theorem MayRecord.recordable (h : MayRecord step φ out transition) :
    Recordable step φ (out, some transition) := by
  refine ⟨?_, by simp⟩
  rintro _ ⟨⟩
  exact h

theorem settles_finish {ended : Outcome × Option DeploymentTransition}
    (h : Recordable step φ ended) : Settles step skip (finish plan ended) φ := by
  obtain ⟨out, transition⟩ := ended
  cases transition with
  | none => exact .pure (h.done rfl)
  | some transition =>
    exact (records_record (h.pending transition rfl)).then (fun _ _ h => h.settled)
      fun _ _ hψ => .pure hψ.settled

/-- The release a failure restores is the one pinned for it. -/
def Pinned (step : Step) (φ : Stage) (restoreContent : Option ReleaseContent) : Prop :=
  ∀ content, restoreContent = some content → Fit step φ content ∧
    ∃ pin, step.restore = some pin ∧ content.releaseId = pin.releaseId

theorem Pinned.later {restoreContent : Option ReleaseContent} (h : Pinned step φ restoreContent)
    (hlat : φ.Later ψ) : Pinned step ψ restoreContent :=
  fun content hcont => ⟨(h content hcont).1.later hlat, (h content hcont).2⟩

/-- The release the step is for, as it was admitted. -/
structure Own (step : Step) (φ : Stage) (content : ReleaseContent) : Prop
    extends Fit step φ content where
  release : content.releaseId = step.releaseId
  automatic : content.restoresAutomatically = step.host.isNone

theorem Own.later (h : Own step φ content) (hlat : φ.Later ψ) : Own step ψ content :=
  ⟨h.toFit.later hlat, h.release, h.automatic⟩

/-- A software step before its outcome is recorded, with nothing started that would have to be. -/
structure Prepared (step : Step) (φ : Stage) (content : ReleaseContent)
    (restoreContent : Option ReleaseContent) : Prop where
  own : Own step φ content
  pinned : Pinned step φ restoreContent
  host : step.host = none
  pristine : φ.pristine
  owed : φ.owed = false

theorem Prepared.automatic {old : Option ReleaseContent}
    (h : Prepared step φ content old) : content.restoresAutomatically := by
  rw [h.own.automatic, h.host]
  rfl

section Recovery

variable {ext : Externals} {content : ReleaseContent} {restoreContent : Option ReleaseContent}

theorem heeds_recoverRestart (h : Prepared step φ content restoreContent)
    (hact : step.action = .restart) (detail : String) :
    Heeds (protocol step skip) (recoverRestart step content detail)
      (fun ended ψ => Recordable step ψ ended)
      (fun error ψ => ψ.Settled step (.error error)) φ := by
  unfold recoverRestart
  rw [if_pos h.automatic]
  refine (heeds_fenced (calls_start rfl h.own.toFit h.host (by simp [h.owed]))).then
    (fun _ _ h => h.settled) ?_
  rintro _ ψ hψ
  split
  · refine .pure (MayRecord.recordable ⟨rfl, hψ.pristine h.pristine, ?_, .inl (by decide)⟩)
    exact ⟨h.host, hact, hψ.runs.trans (congrArg some h.own.release), hψ.started hψ.owed⟩
  · exact .pure (mayRecord_unknown (hψ.pristine h.pristine) _ _).recordable

theorem heeds_cleanupFailedActivation (hfit : Fit step φ content) (hhost : step.host = none)
    (howed : φ.owed = false) (failure : String) :
    Heeds (protocol step skip) (cleanupFailedActivation content failure)
      (fun _ ψ => (ψ.runs = φ.runs ∨ ψ.runs = none) ∧ (φ.pristine → ψ.pristine) ∧
        ψ.owed = false) FenceLost φ := by
  unfold cleanupFailedActivation
  split
  · exact .pure ⟨.inl rfl, id, howed⟩
  · exact .pure ⟨.inl rfl, id, howed⟩
  · refine .bind (heeds_fenced (calls_stop rfl hfit hhost (by simp [howed]))) ?_
    rintro _ ψ hψ
    have hcleaned : (ψ.runs = φ.runs ∨ ψ.runs = none) ∧ (φ.pristine → ψ.pristine) ∧
        ψ.owed = false := by
      refine ⟨?_, hψ.pristine, hψ.owed⟩
      rw [hψ.runs]
      split
      · exact .inr rfl
      · exact .inl rfl
    split <;> exact .pure hcleaned

theorem heeds_restorePrevious (hfit : Fit step φ content) (hhost : step.host = none)
    (howed : φ.owed → φ.rolling) (v failure : String) :
    Heeds (protocol step skip) (restorePrevious ext content v failure)
      (fun restored ψ => (φ.pristine → ψ.pristine) ∧
        (restored.1 → ψ.runs = some content.releaseId)) FenceLost φ := by
  refine .bind (heeds_fenced (calls_start rfl hfit hhost howed)) ?_
  rintro _ ψ hψ
  split
  · exact .pure ⟨hψ.pristine, fun _ => hψ.runs⟩
  · exact .pure ⟨hψ.pristine, by simp⟩
  · exact .pure ⟨hψ.pristine, by simp⟩

theorem heeds_recoverActivation (h : Prepared step φ content restoreContent)
    (hruns : step.fromVersion = none → φ.runs = none) (detail : String) :
    Heeds (protocol step skip) (recoverActivation plan step ext content restoreContent detail)
      (fun ended ψ => Recordable step ψ ended) (fun error ψ => ψ.Settled step (.error error)) φ :=
      by
  unfold recoverActivation
  rw [if_pos h.automatic]
  refine heeds_then (heeds_cleanupFailedActivation h.own.toFit h.host h.owed detail)
    (fun _ _ h => h.settled) ?_
  rintro ⟨cleaned, detail⟩ ψ ⟨hcleaned, hsame, howed⟩ hlat
  have hpris := hsame h.pristine
  dsimp only
  split
  next hfrom =>
    -- nothing was installed: a clean failure leaves it so
    have hnone : ψ.runs = none := by
      rcases hcleaned with h | h
      · exact h.trans (hruns hfrom)
      · exact h
    refine .pure (MayRecord.recordable ⟨rfl, hpris, ?_, .inr (.inl rfl)⟩)
    cases cleaned with
    | true => exact .inr (.inl ⟨hfrom, hnone⟩)
    | false => trivial
  next prev hfrom =>
    refine (records_record (mayRecord_unknown hpris _ _)).then (fun _ _ h => h.settled) ?_
    rintro _ χ hχ
    exact .pure ⟨by simp, fun _ => hχ.settled⟩
  next prev previousContent hfrom =>
    obtain ⟨hprev, pin, hpin, hrel⟩ := h.pinned.later hlat previousContent rfl
    refine (heeds_restorePrevious hprev h.host (by simp [howed]) _ _).then
      (fun _ _ h => h.settled) ?_
    rintro ⟨restored, detail⟩ χ ⟨hsame, hrest⟩
    refine .pure ?_
    unfold recovered
    split
    next hfull =>
      have hback : restored = true := (Bool.and_eq_true_iff.mp hfull).2
      refine MayRecord.recordable ⟨rfl, hsame hpris, ?_, .inr (.inr rfl)⟩
      exact .inr (.inr ⟨pin, hpin, (hrest hback).trans (congrArg some hrel), by simp [hfrom]⟩)
    · exact (mayRecord_unknown (hsame hpris) _ _).recordable

end Recovery

/-- Admission asks questions and reads: what runs and what was written stays. -/
structure Untouched (φ ψ : Stage) : Prop where
  runs : ψ.runs = φ.runs
  pristine : φ.pristine → ψ.pristine
  owed : φ.owed = false → ψ.owed = false

theorem Untouched.refl : Untouched φ φ := ⟨rfl, id, id⟩

theorem Untouched.trans (h : Untouched φ ψ) (h' : Untouched ψ χ) : Untouched φ χ :=
  ⟨h'.runs.trans h.runs, h'.pristine ∘ h.pristine, h'.owed ∘ h.owed⟩

theorem untouched_trouble : Untouched φ (φ.trouble step) := ⟨rfl, id, fun _ => rfl⟩

theorem untouched_answered (q : Question) (ans : q.Answer) : Untouched φ (φ.answered q ans) := by
  unfold Stage.answered
  split <;> exact ⟨rfl, id, id⟩

def Admits (step : Step) (skipGates : Bool) {α : Type} (x : M α) : Prop :=
  ∀ φ, Heeds (protocol step skipGates) x (fun _ => Untouched φ) (fun _ => Untouched φ) φ

/-- One that, if it returns, returns `b`. -/
def AdmitsTo (step : Step) (skipGates : Bool) {β : Type} (b : β) (x : M β) : Prop :=
  ∀ φ, Heeds (protocol step skipGates) x (fun r ψ => r = b ∧ Untouched φ ψ)
    (fun _ => Untouched φ) φ

theorem Admits.pure (a : α) : Admits step skip (pure a) := fun _ => .refl

theorem Admits.bind (h : Admits step skip x) (hf : ∀ a, Admits step skip (f a)) :
    Admits step skip (x >>= f) := by
  intro φ
  refine .bind (h φ) ?_
  intro a ψ hψ
  exact (hf a ψ).mono (fun _ _ h' => hψ.trans h') (fun _ _ h' => hψ.trans h')

theorem Admits.to {b : β} (h : Admits step skip x) (hf : ∀ a, AdmitsTo step skip b (f a)) :
    AdmitsTo step skip b (x >>= f) := by
  intro φ
  refine .bind (h φ) ?_
  intro a ψ hψ
  exact (hf a ψ).mono (fun _ _ h' => ⟨h'.1, hψ.trans h'.2⟩) (fun _ _ h' => hψ.trans h')

/-- The rest of an admission keeps what is known of the releases admitted first. -/
theorem AdmitsTo.heeds {b : β} {y : M β} (hy : AdmitsTo step skip b y)
    (hunt : Untouched φ ψ) (hQ : ∀ χ, Untouched φ χ → ψ.Later χ → Q b χ) :
    Heeds (protocol step skip) y Q (fun _ => Untouched φ) ψ := by
  refine (heeds_later (hy ψ)).mono ?_ (fun _ _ h => hunt.trans h)
  rintro _ χ ⟨⟨rfl, hχ⟩, hlat⟩
  exact hQ χ (hunt.trans hχ) hlat

theorem Admits.checkIf {x : M Unit} (applies : Bool) (h : Admits step skip x) :
    Admits step skip (checkIf applies x) := by
  unfold StepLifecycle.checkIf
  split
  · exact h
  · exact .pure ()

theorem Admits.onRestore {check : ReleaseContent → M Unit}
    (h : ∀ content, Admits step skip (check content)) (old : Option ReleaseContent) :
    Admits step skip (onRestore old check) := by
  cases old with
  | none => exact .pure ()
  | some content => exact h content

theorem admits_decide (q : Question) (hbook : q.isBookkeeping = false)
    (hleg : ∀ φ, (protocol step skip).legal φ (.decide q)) : Admits step skip (M.decide q) := by
  intro φ
  refine (heeds_decide q (hleg φ)).mono ?_ ?_
  · rintro ans _ rfl
    exact untouched_answered q ans
  · rintro _ _ rfl
    rw [hbook, if_neg (by simp)]
    split
    · exact untouched_trouble
    · exact .refl

theorem heeds_admitRelease (pin : ReleasePin) (recalled : Bool) :
    Heeds (protocol step skip) (admitRelease plan step pin recalled)
      (fun content ψ => Untouched φ ψ ∧
      Fit step ψ content ∧ content.releaseId = pin.releaseId) (fun _ => Untouched φ) φ := by
  refine (heeds_decide (.admitRelease pin recalled) trivial).then ?_ ?_
  · rintro _ _ rfl
    exact .refl
  · rintro manifest _ rfl
    refine .pure ⟨untouched_answered _ _, ⟨rfl, rfl, ?_⟩, rfl⟩
    intro hbare
    exact Bool.or_eq_true_iff.mpr (.inr (by
      rw [show (manifest.target == .software && manifest.adapted) = false from hbare]; rfl))

theorem admits_admitArtifactPulls (content : ReleaseContent) :
    Admits step skip (admitArtifactPulls content) := by
  have hread : Admits step skip (.readEnvironment .admission) := by
    refine fun φ => ⟨trivial, fun reply => ?_⟩
    cases reply <;> exact .refl
  exact hread.bind fun _ => admits_decide _ rfl fun _ => trivial

/-! ### Compensation -/

theorem heeds_restoreUnrecorded (hhost : step.host = none) (hact : step.action ≠ .restart)
    (htrbd : φ.troubled) (howed : φ.owed = false) :
    Heeds (protocol step skip) (restoreUnrecorded plan step) (fun restored ψ => ψ.owed = false ∧
      (restored → step.fromVersion.isSome → ψ.lost ∨ ψ.noted)) FenceLost φ := by
  unfold restoreUnrecorded
  split
  next prev pin hfrom hrstr =>
    refine heeds_caught (heeds_admitRelease pin false) ?_ ?_
    · rintro _ ψ ⟨hunt, hfit, hrel⟩ hlat
      refine heeds_then (heeds_fenced (calls_start rfl hfit hhost
        (by simp [hunt.owed howed]))) (fun _ _ h => h) ?_
      rintro (_ | _ | ⟨⟩) χ hχ hlat'
      · exact .pure ⟨hχ.owed, by simp⟩
      · exact .pure ⟨hχ.owed, by simp⟩
      · refine heeds_caught (records_recordDeployed hfrom hrstr hact hhost
          (hlat'.troubled (hlat.troubled htrbd)) (hχ.started hχ.owed)
          (hχ.runs.trans (congrArg some hrel))) ?_ ?_
        · rintro _ ω hω -
          exact .pure ⟨hω.owed, fun _ _ => hω.closed⟩
        · rintro _ ω hω -
          exact .pure ⟨hω.owed, by simp [Except.isOk, Except.toBool]⟩
    · rintro _ ψ hunt -
      exact .pure ⟨hunt.owed howed, by simp⟩
  next prev _ hnone =>
    refine .pure ⟨howed, ?_⟩
    intro hrest hsome
    cases hfrom : step.fromVersion with
    | none => simp [hfrom] at hsome
    | some _ => simp [hfrom] at hrest

section Compensation

variable {content : ReleaseContent}

theorem heeds_compensateActivation (hown : Own step φ content)
    (htrbd : step.host = none → φ.troubled) (howed : φ.owed = false) (error : Failure) :
    Heeds (protocol step skip) (compensateActivation plan step content error)
      (fun _ ψ => φ = ψ ∧ step.action = .restart ∨ step.host.isSome ∨
        (ψ.lost ∨ ψ.noted) ∧ ψ.owed = false) FenceLost φ := by
  have hunk : ∀ (φ : Stage) (failure : String), Heeds (protocol step skip)
      (do let _ ← M.caught (recordUnknown step failure); pure ())
      (fun _ ψ => (ψ.lost ∨ ψ.noted) ∧ ψ.owed = false) FenceLost φ := by
    intro φ failure
    refine heeds_caught (records_recordUnknown failure) ?_ ?_
    · rintro _ ψ hψ -
      exact .pure ⟨hψ.closed, hψ.owed⟩
    · rintro _ ψ hψ -
      exact .pure ⟨hψ.closed, hψ.owed⟩
  refine .ite (fun hact => .pure (.inl ⟨rfl, hact⟩)) (fun hact => ?_)
  refine .ite (fun hcont => ?_) (fun _ => ?_)
  · have hhost : step.host = none := by
      rw [hown.automatic] at hcont
      exact Option.isNone_iff_eq_none.mp hcont
    refine heeds_then (heeds_fenced (calls_stop rfl hown.toFit hhost (by simp [howed])))
      (fun _ _ h => h) ?_
    rintro _ ψ hψ hlat
    refine .bind (heeds_restoreUnrecorded hhost hact
      (hlat.troubled (htrbd hhost)) (by simpa using hψ.owed)) ?_
    rintro _ χ ⟨howed, hrest⟩
    refine .ite (fun _ => (hunk χ _).mono (fun _ _ h => .inr (.inr h)) (fun _ _ h => h))
      (fun hdone => .pure (.inr (.inr ⟨?_, howed⟩)))
    simp only [Bool.or_eq_true, not_or] at hdone
    refine hrest (by simpa using hdone.1.2) ?_
    rw [Option.isSome_iff_ne_none]
    intro hnone
    exact hdone.2 (by simp [hnone])
  · exact (hunk φ _).mono (fun _ _ h => .inr (.inr h)) (fun _ _ h => h)

/-- What compensation leaves is settled, unless the step is a restart, for which it does
    nothing. -/
theorem settles_compensateOrFence (hown : Own step φ content)
    (htrbd : step.host = none → φ.troubled) (howed : φ.owed = false) {error : Failure}
    (hrsta : step.action = .restart → φ.Settled step (.error error)) :
    Settles step skip (compensateOrFence plan step content error) φ := by
  refine .ite (fun hcause => .throw (FenceLost.settled ⟨hcause, howed⟩)) (fun _ => ?_)
  refine heeds_caught (heeds_compensateActivation hown htrbd howed error) ?_ ?_
  · rintro _ ψ hψ -
    refine .throw ?_
    rcases hψ with ⟨rfl, hact⟩ | hhost | ⟨hclsd, howed⟩
    · exact hrsta hact
    · intro hnone
      simp [hnone] at hhost
    · exact Recorded.settled ⟨rfl, hclsd, howed⟩
  · rintro _ ψ hlost -
    exact .ite (fun _ => .throw hlost.settled) (absurd hlost.1)

end Compensation

/-! ### The health gate -/

theorem heeds_gateApplies :
    Heeds (protocol step skip) (gateApplies step skip) (fun applies ψ => φ = ψ ∧
      (applies → gated step skip)) (fun _ ψ => ψ = φ.trouble step) φ := by
  refine .ite (fun _ => .pure ⟨rfl, by simp⟩) (fun hskip => ?_)
  unfold stepRequiresSloEvaluation
  split
  · exact .pure ⟨rfl, by simp⟩
  · exact .pure ⟨rfl, by simp⟩
  next hact =>
    refine .bind (R := fun _ ψ => φ = ψ) ?_ ?_
    · refine ⟨trivial, fun reply => ?_⟩
      cases reply <;> rfl
    · rintro _ _ rfl
      exact .pure ⟨rfl, fun _ => by simp [gated, hskip, hact]⟩
  all_goals
    next hact => exact .pure ⟨rfl, fun _ => by simp [gated, hskip, hact]⟩

/-- A gate question that fails while the step's release runs is trouble. -/
theorem heeds_gate (q : Question) (hgate : q.isGate)
    (hleg : (protocol step skip).legal φ (.decide q)) :
    Heeds (protocol step skip) (M.decide q)
      (fun ans ψ => ψ = φ.answered q ans) (fun _ ψ => ψ = φ.trouble step) φ := by
  refine (heeds_decide q hleg).mono (fun _ _ h => h) ?_
  rintro _ _ rfl
  have hbook : q.isBookkeeping = false := by
    cases q <;> first | rfl | cases hgate
  rw [hbook, if_neg (by simp), if_pos hgate]

theorem heeds_failAction (hgated : gated step skip) (spec : HealthGateSpec) :
    Heeds (protocol step skip) (failAction step spec) (fun action ψ => Untouched φ ψ ∧
      (action = .rollback → ψ.rolling)) (fun _ ψ => ψ = φ.trouble step) φ := by
  unfold failAction
  split
  next pin _ hpin =>
    refine .bind (heeds_gate (.autoRollbackTarget pin) rfl ⟨hgated, hpin⟩) ?_
    rintro loads _ rfl
    refine .pure ⟨untouched_answered _ _, ?_⟩
    intro hback
    have hloads : (loads : Bool) = true := by
      cases hl : (loads : Bool) with
      | true => rfl
      | false => rw [hl] at hback; cases hback
    exact Bool.or_eq_true_iff.mpr (.inr hloads)
  · exact .pure ⟨.refl, by simp⟩

/-- A program that decides whether to roll back. -/
abbrev Decides (step : Step) (skipGates : Bool) (x : M (Option HealthGateDecision)) (φ : Stage) :
    Prop :=
  Heeds (protocol step skipGates) x
    (fun decision ψ => Untouched φ ψ ∧ ∀ d, decision = some d → d.action = .rollback → ψ.rolling)
    (fun _ ψ => ψ = φ.trouble step) φ

theorem decides_evaluateGate (hgated : gated step skip) :
    Decides step skip (evaluateGate step) φ := by
  refine .bind (heeds_gate .resolveSpec rfl trivial) ?_
  rintro spec _ rfl
  refine .ite (fun _ => .pure ⟨.refl, by simp⟩) (fun _ => ?_)
  refine .bind (heeds_gate .sampleWithLease rfl trivial) ?_
  rintro _ _ rfl
  refine .bind (heeds_gate .persistEvidence rfl trivial) ?_
  rintro _ _ rfl
  refine .ite (fun _ => .pure ⟨.refl, by simp⟩) (fun _ => ?_)
  refine .bind (heeds_failAction hgated spec) ?_
  rintro _ ψ ⟨hunt, hroll⟩
  refine .pure ⟨hunt, ?_⟩
  rintro d ⟨⟩ hact
  exact hroll hact

theorem decides_decideAfterSuccess : Decides step skip (decideAfterSuccess step skip) φ := by
  refine .bind heeds_gateApplies ?_
  rintro _ _ ⟨rfl, hgated⟩
  exact .ite (fun happlies => decides_evaluateGate (hgated happlies))
    (fun _ => .pure ⟨.refl, by simp⟩)

theorem settles_recordAndReturn (h : MayRecord step φ out transition) :
    Settles step skip (do record plan out transition; pure out) φ :=
  settles_finish h.recordable

/-- The release of a software step was started and runs, and that is not recorded yet. -/
structure Live (step : Step) (φ : Stage) : Prop where
  host : step.host = none
  pristine : φ.pristine
  runs : φ.runs = some step.releaseId
  started : φ.started

theorem Live.untouched (h : Live step φ) (hunt : Untouched φ ψ) (hlat : φ.Later ψ) : Live step ψ :=
  ⟨h.host, hunt.pristine h.pristine, hunt.runs.trans h.runs, hlat.started h.started⟩

theorem settles_recordLiveRestoreFailure (h : Live step φ) (hroll : φ.rolling) (detail : String) :
    Settles step skip (recordLiveRestoreFailure plan step detail) φ := by
  refine settles_recordAndReturn ⟨rfl, h.pristine, ⟨rfl, ?_⟩, .inl (by simp)⟩
  rw [h.host]
  exact ⟨rfl, h.runs, h.started, fun _ => hroll⟩

theorem heeds_admitGateRestore (pin : ReleasePin) (cur : ReleaseContent) :
    Heeds (protocol step skip) (admitGateRestore plan step pin cur)
      (fun content ψ => Untouched φ ψ ∧
      Fit step ψ content ∧ content.releaseId = pin.releaseId) (fun _ => Untouched φ) φ := by
  refine .bind (heeds_admitRelease pin false) ?_
  rintro prev ψ ⟨hunt, hfit, hrel⟩
  refine AdmitsTo.heeds ?_ hunt fun χ hχ hlat => ⟨hχ, hfit.later hlat, hrel⟩
  refine (admits_admitArtifactPulls cur).to fun _ => ?_
  refine (admits_admitArtifactPulls prev).to fun _ => ?_
  refine (admits_decide _ rfl fun _ => trivial).to fun _ => ?_
  refine (admits_decide _ rfl fun _ => trivial).to fun _ => ?_
  exact fun _ => .pure ⟨rfl, .refl⟩

theorem settles_replaceRejected {ext : Externals} {cur prev : ReleaseContent} {pin : ReleasePin}
    (hhost : step.host = none) (hcur : Fit step φ cur) (hprev : Fit step φ prev)
    (hpin : step.restore = some pin) (hrel : prev.releaseId = pin.releaseId) (hpris : φ.pristine)
    (hroll : φ.rolling) (detail : String) :
    Settles step skip (replaceRejected plan step ext cur prev detail) φ := by
  have hrem : Heeds (protocol step skip) (removeRejected cur)
      (fun _ ψ => ψ.pristine) FenceLost φ := by
    refine .ite (fun _ => .pure hpris) (fun _ => ?_)
    exact (heeds_fenced (calls_stop rfl hcur hhost fun _ => hroll)).mono
      (fun _ _ hψ => hψ.pristine hpris) (fun _ _ h => h)
  refine heeds_then hrem (fun _ _ h => h.settled) ?_
  rintro (_ | _ | ⟨⟩) ψ hpris hlat
  · exact settles_recordAndReturn (mayRecord_unknown hpris _ _)
  · exact settles_recordAndReturn (mayRecord_unknown hpris _ _)
  · refine heeds_then (heeds_restorePrevious (hprev.later hlat) hhost
      (fun _ => hlat.rolling hroll) _ _) (fun _ _ h => h.settled) ?_
    rintro ⟨restored, detail⟩ χ ⟨hsame, hrest⟩ hlat'
    cases restored with
    | true =>
      refine settles_recordAndReturn ⟨rfl, hsame hpris, ?_, .inr (.inr rfl)⟩
      exact .inr (.inr ⟨pin, hpin, (hrest rfl).trans (congrArg some hrel),
        fun _ => hlat'.rolling (hlat.rolling hroll)⟩)
    | false => exact settles_recordAndReturn (mayRecord_unknown (hsame hpris) _ _)

theorem settles_restoreAfterHealthGate {ext : Externals} (h : Live step φ) (hroll : φ.rolling)
    (detail : String) : Settles step skip (restoreAfterHealthGate plan step ext detail) φ := by
  have hlive : ∀ ψ : Stage, Untouched φ ψ → φ.Later ψ → ∀ detail,
      Settles step skip (recordLiveRestoreFailure plan step detail) ψ :=
    fun ψ hunt hlat => settles_recordLiveRestoreFailure (h.untouched hunt hlat) (hlat.rolling hroll)
  unfold restoreAfterHealthGate
  split
  · exact hlive φ .refl (.refl φ) _
  next pin hpin =>
    refine heeds_caught (heeds_admitRelease step.target false) ?_ ?_
    · rintro cur ψ ⟨hunt, hcur, -⟩ hlat
      refine .ite (fun _ => ?_) (fun _ => hlive ψ hunt hlat _)
      refine heeds_caught (heeds_admitGateRestore pin cur) ?_ ?_
      · rintro _ χ ⟨hunt', hprev, hrel⟩ hlat'
        exact settles_replaceRejected h.host (hcur.later hlat') hprev hpin hrel
          (hunt'.pristine (hunt.pristine h.pristine))
          (hlat'.rolling (hlat.rolling hroll)) detail
      · rintro _ χ hunt' hlat'
        exact hlive χ (hunt.trans hunt') (hlat.trans hlat') _
    · rintro _ ψ hunt hlat
      exact hlive ψ hunt hlat _

/-! ### Execution -/

theorem mayRecord_live (h : Live step φ) (status : StepOutcomeStatus) (detail : String) :
    MayRecord step φ ⟨step, status, detail⟩ (liveTransition step) := by
  refine ⟨rfl, h.pristine, ?_, .inl ?_⟩
  · unfold liveTransition
    split
    next hact => exact ⟨h.host, hact, h.runs, h.started⟩
    next hact =>
      refine ⟨rfl, ?_⟩
      rw [h.host]
      exact ⟨rfl, h.runs, h.started, fun h => absurd h hact⟩
  · unfold liveTransition
    split <;> simp

section Execution

variable {ext : Externals} {content : ReleaseContent} {restoreContent : Option ReleaseContent}

theorem settles_recordLive (hown : Own step φ content) (h : Live step φ)
    (status : StepOutcomeStatus) (detail : String) :
    Settles step skip (recordLive plan step content ⟨step, status, detail⟩) φ := by
  refine heeds_caught (records_record (mayRecord_live h status detail)) ?_ ?_
  · rintro _ ψ hψ -
    exact .pure hψ.settled
  · rintro _ ψ hψ hlat
    exact settles_compensateOrFence (hown.later hlat) (fun _ => hψ.troubled h.runs) hψ.owed
      (fun _ => hψ.settled)

theorem settles_afterSuccess (hown : Own step φ content) (h : Live step φ) :
    Settles step skip (afterSuccess plan step ext skip content) φ := by
  refine heeds_caught decides_decideAfterSuccess ?_ ?_
  · rintro decision ψ ⟨hunt, hroll⟩ hlat
    have hlive := h.untouched hunt hlat
    cases decision with
    | none => exact settles_recordLive (hown.later hlat) hlive _ _
    | some decision =>
      refine .ite (fun hact => ?_) (fun _ => ?_)
      · exact settles_restoreAfterHealthGate hlive (hroll decision rfl hact) _
      · exact settles_recordLive (hown.later hlat) hlive _ _
  · rintro _ _ rfl hlat
    -- a restart whose gate cannot be evaluated is left as it is: its release runs on
    refine settles_compensateOrFence (hown.later hlat)
      (fun _ => Stage.troubled_trouble h.runs) rfl ?_
    intro hact _
    exact ⟨rfl, .inr (.inr (.inr ⟨h.pristine, .inr ⟨hact, h.runs⟩⟩))⟩

theorem settles_recoverFailure (h : Prepared step φ content restoreContent)
    (hruns : step.fromVersion = none → φ.runs = none) (detail : String) :
    Settles step skip (do
        let ended ← recoverFailure plan step ext content restoreContent detail
        finish plan ended) φ := by
  have hrecovered : Heeds (protocol step skip)
      (recoverFailure plan step ext content restoreContent detail)
      (fun ended ψ => Recordable step ψ ended)
      (fun error ψ => ψ.Settled step (.error error)) φ := by
    refine .ite (fun _ => .pure (mayRecord_unknown h.pristine _ _).recordable) (fun _ => ?_)
    refine .ite (fun hact => ?_) (fun _ => ?_)
    · exact heeds_recoverRestart h hact detail
    · exact heeds_recoverActivation h hruns detail
  exact hrecovered.bind fun _ _ hended => settles_finish hended

theorem calls_runRelease (hfit : Fit step φ content) (hhost : step.host = none)
    (howed : φ.owed = false) :
    Calls step skip (runRelease step content) (some content.releaseId) true φ := by
  refine .ite (fun _ => ?_) (fun _ => ?_)
  · exact calls_start rfl hfit hhost (by simp [howed])
  · exact calls_start rfl hfit hhost (by simp [howed])

theorem settles_activateStep {outgoingRemoved : Bool} (h : Prepared step φ content restoreContent)
    (hruns : φ.runs = if outgoingRemoved then none else step.installed) :
    Settles step skip (activateStep plan step ext skip content restoreContent outgoingRemoved) φ :=
      by
  -- after a call that failed, whatever its answer
  have hfail : ∀ ψ : Stage, Called φ ψ (some content.releaseId) true false → φ.Later ψ →
      ∀ detail, Settles step skip (do
          let ended ← recoverFailure plan step ext content restoreContent detail
          finish plan ended) ψ := by
    intro ψ hψ hlat detail
    refine settles_recoverFailure ⟨h.own.later hlat, h.pinned.later hlat, h.host,
      hψ.pristine h.pristine, hψ.owed⟩ ?_ detail
    intro hfrom
    refine hψ.runs.trans (hruns.trans ?_)
    simp [Step.installed, hfrom]
  refine heeds_caught (calls_runRelease h.own.toFit h.host h.owed) ?_ ?_
  · rintro (detail | ⟨⟩) ψ hψ hlat
    · exact hfail ψ hψ hlat detail
    · exact settles_afterSuccess (h.own.later hlat) ⟨h.host, hψ.pristine h.pristine,
        hψ.runs.trans (congrArg some h.own.release), hψ.started hψ.owed⟩
  · rintro _ ψ hψ hlat
    have hpris := hψ.pristine h.pristine
    dsimp only
    split
    · refine .ite (fun _ => ?_) (fun hkept => .throw ?_)
      · exact (records_record (mayRecord_unknown hpris _ _)).then (fun _ _ h => h.settled)
          fun _ _ hχ => .throw hχ.settled
      · intro _
        refine ⟨hψ.owed, .inr (.inr (.inr ⟨hpris, .inl ?_⟩))⟩
        rw [if_neg hkept] at hruns
        exact hψ.runs.trans hruns
    next hcause => exact .throw (FenceLost.settled ⟨hcause, hψ.owed⟩)
    · exact hfail ψ hψ hlat _

theorem settles_executeSoftware (h : Prepared step φ content restoreContent)
    (hruns : φ.runs = step.installed) :
    Settles step skip (executeSoftware plan step ext skip content restoreContent) φ := by
  have hrem : Heeds (protocol step skip) (removeOutgoing step restoreContent)
      (fun res ψ => ψ.pristine ∧ ∀ removed, res = .ok removed →
        ψ.owed = false ∧ ψ.runs = if removed then none else step.installed) FenceLost φ := by
    have hkept : φ.pristine ∧ ∀ removed : Bool, (.ok false : Except String Bool) = .ok removed →
        φ.owed = false ∧ φ.runs = if removed then none else step.installed := by
      refine ⟨h.pristine, ?_⟩
      rintro _ ⟨⟩
      exact ⟨h.owed, hruns⟩
    unfold removeOutgoing
    split
    next outgoing _ =>
      refine .ite (fun _ => ?_) (fun _ => .pure hkept)
      refine .bind (heeds_fenced (calls_stop rfl (h.pinned outgoing rfl).1 h.host
        (by simp [h.owed]))) ?_
      rintro (_ | detail | ⟨⟩) ψ hψ
      · exact .pure ⟨hψ.pristine h.pristine, by simp⟩
      · exact .pure ⟨hψ.pristine h.pristine, by simp⟩
      · refine .pure ⟨hψ.pristine h.pristine, ?_⟩
        rintro _ ⟨⟩
        exact ⟨hψ.owed, hψ.runs⟩
    · exact .pure hkept
  refine heeds_then hrem (fun _ _ h => h.settled) ?_
  rintro (detail | removed) ψ ⟨hpris, hstop⟩ hlat
  · exact settles_recordAndReturn (mayRecord_unknown hpris _ _)
  · obtain ⟨howed, hruns⟩ := hstop removed rfl
    exact settles_activateStep ⟨h.own.later hlat, h.pinned.later hlat, h.host, hpris, howed⟩ hruns

end Execution

theorem mayRecord_hostOutcome (hhost : step.host = some host) (hpris : φ.pristine)
    (ended : HostStepEnd) :
    MayRecord step φ (hostOutcome step host.action ended).1 (hostOutcome step host.action ended).2
      := by
  cases ended with
  | notRun detail => exact ⟨rfl, hpris, .inl (by simp [hhost]), .inr (.inl rfl)⟩
  | unknown detail => exact ⟨rfl, hpris, trivial, .inr (.inl rfl)⟩
  | recorded out detail =>
    cases out with
    | succeeded =>
      refine ⟨rfl, hpris, ?_, .inl ?_⟩
      · cases hact : host.action with
        | install =>
          refine ⟨rfl, ?_⟩
          rw [hhost]
          exact .inl ⟨hact, rfl⟩
        | health =>
          refine ⟨rfl, ?_⟩
          rw [hhost]
          exact .inr ⟨hact, rfl⟩
        | uninstall => exact ⟨rfl, host, hhost, hact⟩
      · cases hact : host.action <;> simp [hostOutcome]
    | _ => exact ⟨rfl, hpris, trivial, .inr (.inl rfl)⟩

theorem heeds_runHostStep (hhost : step.host = some host) :
    Heeds (protocol step skip) (runHostStep plan step host.action)
      (fun _ ψ => φ.pristine → ψ.pristine) (fun _ _ => True) φ := by
  have hagain : Admits step skip (resubscribed host.action) := by
    intro φ
    exact .ite (fun _ => admits_decide .subscribes rfl (fun _ => trivial) φ) (fun _ => .pure .refl)
  refine (hagain φ).then (fun _ _ _ => trivial) ?_
  rintro _ ψ hψ
  refine (admits_decide .hostRequest rfl (fun _ => trivial) ψ).then (fun _ _ _ => trivial) ?_
  rintro _ χ hχ
  have hsame := (hψ.trans hχ).pristine
  split
  · exact .pure hsame
  · refine ⟨by simp [hhost], fun reply => ?_⟩
    cases reply with
    | error e => trivial
    | ok a => exact hsame
  · exact .pure hsame

theorem settles_executeHost (hhost : step.host = some host) (hown : Own step φ content)
    (hpris : φ.pristine) : Settles step skip (executeHost plan step host content) φ := by
  have hsett : ∀ (ψ : Stage) result, ψ.Settled step result := by
    intro ψ result hnone
    rw [hhost] at hnone
    cases hnone
  refine heeds_then (admits_decide .hostExecutor rfl (fun _ => trivial) φ)
    (fun _ _ _ => hsett _ _) ?_
  rintro _ ψ hψ hlat
  refine heeds_then (admits_decide .requireHostProduct rfl (fun _ => trivial) ψ)
    (fun _ _ _ => hsett _ _) ?_
  rintro _ χ hχ hlat'
  refine heeds_then (heeds_runHostStep hhost) (fun _ _ _ => hsett _ _) ?_
  rintro ended ω hrun hran
  refine heeds_caught (records_record (mayRecord_hostOutcome hhost
    (hrun ((hψ.trans hχ).pristine hpris)) ended)) ?_ ?_
  · rintro _ _ _ -
    exact .pure (hsett _ _)
  · rintro _ υ hυ hfail
    exact settles_compensateOrFence (hown.later (hlat.trans (hlat'.trans (hran.trans hfail))))
      (fun hnone => by rw [hhost] at hnone; cases hnone) hυ.owed (fun _ => hsett _ _)

/-! ### Admission -/

theorem heeds_admitStep (recalledRecovery : Bool) :
    Heeds (protocol step skip) (admitStep plan step recalledRecovery skip)
      (fun admitted ψ => Untouched φ ψ ∧ Own step ψ admitted.1 ∧ Pinned step ψ admitted.2)
      (fun _ => Untouched φ) φ := by
  have hrstr : ∀ (ψ : Stage) (recalled : Bool),
      Heeds (protocol step skip) (admitRestore plan step recalled)
        (fun old χ => Untouched ψ χ ∧ Pinned step χ old)
        (fun _ => Untouched ψ) ψ := by
    intro ψ recalled
    unfold admitRestore
    split
    next pin hpin =>
      refine .bind (heeds_admitRelease pin recalled) ?_
      rintro content χ ⟨hunt, hfit, hrel⟩
      refine .pure ⟨hunt, ?_⟩
      rintro _ ⟨⟩
      exact ⟨hfit, pin, hpin, hrel⟩
    · refine .pure ⟨.refl, ?_⟩
      rintro _ ⟨⟩
  have hgate : Admits step skip (gateApplies step skip) := by
    intro φ
    refine heeds_gateApplies.mono ?_ ?_
    · rintro _ _ ⟨rfl, -⟩
      exact .refl
    · rintro _ _ rfl
      exact untouched_trouble
  have hasks : ∀ q : Question, q.isBookkeeping = false →
      (∀ φ, (protocol step skip).legal φ (.decide q)) →
      Admits step skip (.decide q) := admits_decide
  refine .bind (heeds_admitRelease step.target _) ?_
  rintro content ψ ⟨hunt, hfit, hrel⟩
  refine heeds_then (hrstr ψ _) (fun _ _ h => hunt.trans h) ?_
  rintro old χ ⟨hunt', hpinned⟩ hlat
  have hunt := hunt.trans hunt'
  refine .bind (.bailIf hunt) ?_
  rintro _ _ ⟨rfl, hmatches⟩
  have hauto : content.restoresAutomatically = step.host.isNone := by
    unfold ReleaseContent.restoresAutomatically
    rw [not_not.mp hmatches]
    cases step.host <;> rfl
  refine AdmitsTo.heeds (b := (content, old)) ?_ hunt fun ω hω hlat' => ⟨hω,
    ⟨hfit.later (hlat.trans hlat'), hrel, hauto⟩, hpinned.later hlat'⟩
  refine (hasks _ rfl fun _ => trivial).to fun _ => ?_
  refine (Admits.onRestore (fun _ => hasks _ rfl fun _ => trivial) _).to fun _ => ?_
  refine (Admits.checkIf _ (hasks _ rfl fun _ => trivial)).to fun _ => ?_
  refine (admits_admitArtifactPulls content).to fun _ => ?_
  refine (Admits.onRestore (fun _ => hasks _ rfl fun _ => trivial) _).to fun _ => ?_
  refine (Admits.checkIf _ ((hasks _ rfl fun _ => trivial).bind fun _ =>
    hasks _ rfl fun _ => trivial)).to fun _ => ?_
  refine (Admits.onRestore (fun _ => hasks _ rfl fun _ => trivial) _).to fun _ => ?_
  refine hgate.to fun _ => ?_
  refine (Admits.checkIf _ ((hasks .resolveSpec rfl fun _ => trivial).bind fun _ =>
    .pure ())).to fun _ => ?_
  exact fun _ => .pure ⟨rfl, .refl⟩

/-- A step keeps to its protocol from its start, and returns only where its record is
    settled. -/
theorem heeds_execute (plan : Plan) (step : Step) (ext : Externals) (recalled skip : Bool) :
    Settles step skip (execute plan step ext recalled skip) (Stage.start step) := by
  refine (heeds_admitStep recalled).then ?_ ?_
  · rintro _ ψ hψ _
    exact ⟨hψ.owed rfl, .inr (.inr (.inr ⟨hψ.pristine rfl, .inl hψ.runs⟩))⟩
  · rintro ⟨_, _⟩ ψ ⟨hunt, hown, hpinned⟩
    dsimp only at hown hpinned ⊢
    split
    next host hhost => exact settles_executeHost hhost hown (hunt.pristine rfl)
    next hhost =>
      exact settles_executeSoftware
        ⟨hown, hpinned, hhost, hunt.pristine rfl, hunt.owed rfl⟩ hunt.runs

end Walk

/-! ### What an operation in order does -/

section Operations

variable {ext : Externals} {step : Step} {skip : Bool} {φ : Stage} {op : Op}
  {ch : op.Choice} {w : World}

/-- The environment is as it was, and what the stage knows of it is still so. -/
structure Quiet (φ ψ : Stage) (w w' : World) : Prop where
  environment : w'.environment = w.environment
  observed : w'.observed = w.observed
  pristine : ψ.pristine → φ.pristine
  read : ∀ base, ψ.read = some base → φ.read = some base ∨ base = w.environment

/-- A write in order took effect. -/
structure Wrote (ext : Externals) (step : Step) (φ ψ : Stage) (write : Write) (w w' : World) :
    Prop where
  read : φ.read.isSome
  writes : φ.Writes step write
  environment : ∀ base, φ.read = some base → w'.environment = write.apply ext.digest base
  observed : w'.observed = w.observed ++ write.observed
  pristine : ψ.pristine = false
  forgotten : ψ.read = none

/-- What a write asked for did: it took effect, or it was refused. -/
theorem quiet_or_wrote_write {ψ : Stage} {outage : Outage} {after : World}
    (hread : φ.read = some base) (hwrs : φ.Writes step write)
    (henv : after.environment = write.apply ext.digest base)
    (hobs : after.observed = w.observed ++ write.observed) (hpris : ψ.pristine = false)
    (hforgotten : ψ.read = none) :
    Quiet φ ψ w (outage.write w after).2 ∨
      ∃ write, Wrote ext step φ ψ write w (outage.write w after).2 := by
  have hwrote : Wrote ext step φ ψ write w after := by
    refine ⟨by simp [hread], hwrs, ?_, hobs, hpris, hforgotten⟩
    intro base' hbase
    cases hread.symm.trans hbase
    exact henv
  unfold Outage.write Fault.run
  split
  · exact .inr ⟨write, hwrote⟩
  · exact .inl ⟨rfl, rfl, by simp [hpris], by simp [hforgotten]⟩
  · exact .inr ⟨write, hwrote⟩

/-- An operation in order writes the environment as the protocol says, or leaves it alone. -/
theorem quiet_or_wrote (hleg : (protocol step skip).legal φ op) :
    Quiet φ (φ.after step op (exec ext op ch w).1) w (exec ext op ch w).2 ∨ ∃ write,
      Wrote ext step φ (φ.after step op (exec ext op ch w).1) write w (exec ext op ch w).2 := by
  cases op with
  | decide q =>
    refine .inl ⟨rfl, rfl, ?_, ?_⟩
    · cases ch with
      | ok ans => cases q <;> exact id
      | error failure =>
        simp only [exec, Stage.after]
        split
        · exact id
        · split <;> exact id
    · cases ch with
      | ok ans => cases q <;> exact fun _ => .inl
      | error failure =>
        simp only [exec, Stage.after]
        split
        · exact fun _ => .inl
        · split <;> exact fun _ => .inl
  | nowMillis => exact .inl ⟨rfl, rfl, id, fun _ => .inl⟩
  | readEnvironment reader =>
    obtain ⟨fault, failure⟩ := ch
    refine .inl ⟨rfl, rfl, ?_, ?_⟩
    · cases reader <;> cases fault <;> exact id
    · cases reader with
      | bookkeeping =>
        cases fault with
        | none =>
          rintro base ⟨⟩
          exact .inr rfl
        | refused | ambiguous => exact fun _ => .inl
      | admission | gate | request | edit => cases fault <;> exact fun _ => .inl
  | execute call inst rel overlays => exact .inl ⟨rfl, rfl, id, by rintro base ⟨⟩⟩
  | runHost action => exact .inl ⟨rfl, rfl, id, by rintro base ⟨⟩⟩
  | createAttempt =>
    obtain ⟨fault, failure⟩ := ch
    cases fault <;> exact .inl ⟨rfl, rfl, id, fun _ => .inl⟩
  | commit base write status detail =>
    obtain ⟨fault, failure⟩ := ch
    refine quiet_or_wrote_write hleg.1 hleg.2 rfl rfl ?_ ?_ <;> cases fault <;> rfl
  | updateEnvironment base write =>
    obtain ⟨fault, failure⟩ := ch
    refine quiet_or_wrote_write hleg.1 hleg.2 rfl rfl ?_ ?_ <;> cases fault <;> rfl
  | updateAttempt status detail =>
    obtain ⟨fault, failure⟩ := ch
    cases fault <;> exact .inl ⟨rfl, rfl, id, fun _ => .inl⟩
  | readAttempt => exact .inl ⟨rfl, rfl, id, fun _ => .inl⟩
  | claimEnvironment | releaseEnvironment | put => exact hleg.elim

/-- The gate decides to roll back only where there is a pin to roll back onto. -/
theorem rolling_after (hleg : (protocol step skip).legal φ op) {reply : op.Reply}
    (h : (φ.after step op reply).rolling) : φ.rolling ∨ gated step skip ∧ step.restore.isSome := by
  unfold Stage.after at h
  split at h
  next q ans =>
    cases q with
    | autoRollbackTarget pin => exact .inr ⟨hleg.1, by simp [hleg.2]⟩
    | _ => exact .inl h
  · split at h
    · exact .inl h
    · split at h <;> exact .inl h
  all_goals exact .inl h

/-- A write in order is about the step's instance. -/
theorem Stage.Writes.key (h : φ.Writes step write) : write.key = step.instanceName := by
  cases write with
  | observe obs attempt observedAt deps => rw [← h.1]; rfl
  | deployed prod inst v prev deps =>
    obtain ⟨rfl, rfl, -⟩ := h
    exact instanceKey_instanceName step
  | unknown prod inst detail =>
    obtain ⟨rfl, rfl⟩ := h
    exact instanceKey_instanceName step

end Operations

end Tenkai.StepLifecycle
