import Tenkai.StepProtocol

/-!
# The rollback destination

`deployed_prev.{instance}` is in order if it names a version that an observation recorded as
deployed, other than the one deployed now, and if a restart leaves it alone. Four kinds of step put
it out of order:

* an upgrade whose outcome cannot be recorded is compensated for, and recorded as the version to
  roll back to;
* a step that finds nothing deployed installs the destination itself;
* the gate of a restart decides to roll back and the restore is blocked, which records the version
  as its own predecessor;
* a host step says what it replaces from the applier's record.

Steps that avoid these keep the destination in order over every run, crashes included.
-/

namespace Tenkai.StepLifecycle

def deployedVersion : DeploymentTransition → Option String
  | .deployed version _ => some version
  | _ => none

def recorded (name : String) (observed : List DeploymentObservation) : List String :=
  observed.filterMap fun observation =>
    if observation.step.instanceName = name then deployedVersion observation.transition else none

theorem recorded_append (name : String) (observed more : List DeploymentObservation) :
    recorded name (observed ++ more) = recorded name observed ++ recorded name more :=
  List.filterMap_append

/-- The rollback destination was deployed before, and is not what is deployed. -/
structure Rooted (name : String) (w : World) : Prop where
  deployed : ∀ version, w.environment.get .deployed name = some version →
    version ∈ recorded name w.observed
  previous : ∀ version, w.environment.get .deployedPrev name = some version →
    version ∈ recorded name w.observed ∧ w.environment.get .deployed name ≠ some version

/-! ### Steps that keep it so -/

/-- If its outcome is not recorded, the release the step replaces is restored. -/
def compensable (step : Step) : Bool :=
  step.host = none && step.action ≠ .restart && step.fromVersion.isSome && step.restore.isSome

def Op.fails : (op : Op) → op.Choice → Bool
  | .decide question, answer => (question.isGate || question.isBookkeeping) && !answer.isOk
  | .readEnvironment reader, outage =>
    (reader = .gate || reader = .bookkeeping) && outage.fault ≠ .none
  | .createAttempt, outage | .commit _ _ _ _, outage | .updateEnvironment _ _, outage
  | .updateAttempt _ _, outage => outage.fault ≠ .none
  | _, _ => false

/-- While a release runs that was never recorded, and would be compensated for, the gate and
    bookkeeping do not fail. -/
def Steady (step : Step) (op : Op) (choice : op.Choice) (w : World) : Prop :=
  compensable step → running step.instanceName w.history = some step.releaseId →
    step.toVersion ∉ recorded step.instanceName w.observed → op.fails choice = false

instance (step : Step) (op : Op) (choice : op.Choice) (w : World) :
    Decidable (Steady step op choice w) :=
  inferInstanceAs (Decidable (_ → _ → _ → _))

/-- What the environment says before the step agrees with what the step says. -/
def Orderly (step : Step) (skipGates : Bool) (w : World) : Prop :=
  match step.host with
  | none =>
    step.releaseId = releaseId step.product step.toVersion ∧
      w.environment.get .deployed step.instanceName = step.fromVersion ∧
      if step.action = .restart then
        step.fromVersion = some step.toVersion ∧ (gated step skipGates → step.restore = none)
      else
        step.fromVersion ≠ some step.toVersion ∧
          (step.fromVersion = none →
            w.environment.get .deployedPrev step.instanceName ≠ some step.toVersion)
  | some host =>
    match host.action with
    | .install =>
      step.action ≠ .restart ∧
        (∀ version ∈ step.fromVersion, version ≠ step.toVersion ∧
          version ∈ recorded step.instanceName w.observed) ∧
        (step.fromVersion = none →
          w.environment.get .deployedPrev step.instanceName ≠ some step.toVersion)
    | .health => w.environment.get .deployedPrev step.instanceName ≠ some step.toVersion
    | .uninstall =>
      step.action ≠ .restart ∧ step.toVersion ∈ recorded step.instanceName w.observed

/-! ### What a write does to it -/

section Writes

variable {ext : Externals} {step : Step} {skip : Bool} {φ ψ : Stage} {w w' : World}
  {name : String}

/-- A transition that leaves the destination in order, `past` being recorded. -/
def Fits (previousBefore : Option String) (past : List String) : DeploymentTransition → Prop
  | .deployed version previous =>
    version ∈ past ∧ (∀ before, previous = some before → before ∈ past ∧ before ≠ version) ∧
      (previous = none → previousBefore ≠ some version)
  | .removed version => version ∈ past
  | _ => True

/-- What is recorded stays recorded. -/
theorem Rooted.same (h : Rooted name w) (henv : w'.environment = w.environment)
    (hobs : ∀ v ∈ recorded name w.observed, v ∈ recorded name w'.observed) : Rooted name w' := by
  constructor
  · intro v hver
    rw [henv] at hver
    exact hobs v (h.deployed v hver)
  · intro v hver
    rw [henv] at hver ⊢
    obtain ⟨hrecd, hoth⟩ := h.previous v hver
    exact ⟨hobs v hrecd, hoth⟩

theorem rooted_written {write : Write} (h : Rooted name w) (hkey : write.key = name)
    (hfits : Fits (w.environment.get .deployedPrev name)
      (recorded name (w.observed ++ write.observed)) write.transition)
    (henv : w'.environment = write.apply ext.digest w.environment)
    (hobs : w'.observed = w.observed ++ write.observed) : Rooted name w' := by
  have hdepl : w'.environment.get .deployed name =
      write.transition.deployedAfter (w.environment.get .deployed name) := by
    rw [henv, Write.get_apply rfl, if_pos hkey.symm]
    rfl
  have hprev : w'.environment.get .deployedPrev name =
      write.transition.previousAfter (w.environment.get .deployedPrev name) := by
    rw [henv, Write.get_apply rfl, if_pos hkey.symm]
    rfl
  have hmore : ∀ version ∈ recorded name w.observed, version ∈ recorded name w'.observed := by
    intro version hver
    rw [hobs, recorded_append]
    exact List.mem_append_left _ hver
  rw [← hobs] at hfits
  constructor
  · intro version hver
    rw [hdepl] at hver
    cases htrans : write.transition with
    | unchanged =>
      rw [htrans] at hver
      exact hmore _ (h.deployed version hver)
    | refreshed =>
      rw [htrans] at hver
      exact hmore _ (h.deployed version hver)
    | deployed after prev =>
      rw [htrans] at hver hfits
      cases hver
      exact hfits.1
    | removed after =>
      rw [htrans] at hver
      cases hver
    | unknown =>
      rw [htrans] at hver
      cases hver
  · intro version hver
    rw [hprev] at hver
    rw [hdepl]
    cases htrans : write.transition with
    | unchanged =>
      rw [htrans] at hver
      exact ⟨hmore _ (h.previous version hver).1, (h.previous version hver).2⟩
    | refreshed =>
      rw [htrans] at hver
      exact ⟨hmore _ (h.previous version hver).1, (h.previous version hver).2⟩
    | deployed after prev =>
      rw [htrans] at hver hfits
      obtain ⟨-, hnam, hkept⟩ := hfits
      cases prev with
      | some before =>
        obtain rfl : before = version := Option.some.inj hver
        obtain ⟨hrecd, hoth⟩ := hnam before rfl
        refine ⟨hrecd, ?_⟩
        rintro ⟨⟩
        exact hoth rfl
      | none =>
        refine ⟨hmore _ (h.previous version hver).1, ?_⟩
        rintro ⟨⟩
        exact hkept rfl hver
    | removed after =>
      rw [htrans] at hver hfits
      cases hver
      exact ⟨hfits, by rintro ⟨⟩⟩
    | unknown =>
      rw [htrans] at hver
      exact ⟨hmore _ (h.previous version hver).1, by rintro ⟨⟩⟩

end Writes

/-! ### One step -/

/-- Where the destination is in order, the stage of a step and the record agree on it. -/
structure Traced (step : Step) (skipGates : Bool) (previous : Option String) (φ : Stage)
    (w : World) : Prop where
  rooted : Rooted step.instanceName w
  read : ∀ base, φ.read = some base → base = w.environment
  orderly : φ.pristine → Orderly step skipGates w
  origin : step.host = none → ∀ version, step.fromVersion = some version →
    version ∈ recorded step.instanceName w.observed
  runs : compensable step → φ.runs = some step.releaseId →
    running step.instanceName w.history = some step.releaseId
  troubled : compensable step → φ.troubled →
    step.toVersion ∈ recorded step.instanceName w.observed
  rolling : φ.rolling → gated step skipGates ∧ step.restore.isSome
  restarted : step.action = .restart → w.environment.get .deployedPrev step.instanceName = previous

section Step

variable {ext : Externals} {step : Step} {skip : Bool} {prev : Option String}
  {φ : Stage} {w w' : World}

theorem Orderly.same (h : Orderly step skip w) (henv : w'.environment = w.environment)
    (hobs : w'.observed = w.observed) : Orderly step skip w' := by
  unfold Orderly at h ⊢
  rwa [henv, hobs]

/-- Only a failure while the step's release runs makes trouble. -/
theorem troubled_after {op : Op} {choice : op.Choice}
    (h : (φ.after step op (exec ext op choice w).1).troubled) :
    φ.troubled ∨ φ.runs = some step.releaseId ∧ op.fails choice := by
  have htrbl : (φ.trouble step).troubled → φ.troubled ∨ φ.runs = some step.releaseId := by
    simp [Stage.trouble]
  cases op with
  | decide q =>
    cases choice with
    | ok ans => cases q <;> exact .inl h
    | error failure =>
      have hfails : q.isGate ∨ q.isBookkeeping → (Op.decide q).fails (.error failure) := by
        intro hqn
        exact Bool.and_eq_true_iff.mpr ⟨Bool.or_eq_true_iff.mpr hqn, rfl⟩
      simp only [exec, Stage.after] at h
      split at h
      next hbook => exact (htrbl h).imp id fun hruns => ⟨hruns, hfails (.inr hbook)⟩
      · split at h
        next hgate => exact (htrbl h).imp id fun hruns => ⟨hruns, hfails (.inl hgate)⟩
        · exact .inl h
  | readEnvironment reader =>
    obtain ⟨fault, failure⟩ := choice
    cases reader <;> cases fault <;> first
        | exact .inl h
        | exact (htrbl h).imp id fun hruns => ⟨hruns, rfl⟩
  | createAttempt =>
    obtain ⟨fault, failure⟩ := choice
    cases fault <;> first
        | exact .inl h
        | exact (htrbl h).imp id fun hruns => ⟨hruns, rfl⟩
  | commit base write status detail =>
    obtain ⟨fault, failure⟩ := choice
    cases fault <;> first
        | exact .inl h
        | exact (htrbl h).imp id fun hruns => ⟨hruns, rfl⟩
  | updateEnvironment base write =>
    obtain ⟨fault, failure⟩ := choice
    cases fault <;> first
        | exact .inl h
        | exact (htrbl h).imp id fun hruns => ⟨hruns, rfl⟩
  | updateAttempt status detail =>
    obtain ⟨fault, failure⟩ := choice
    cases fault <;> first
        | exact .inl h
        | exact (htrbl h).imp id fun hruns => ⟨hruns, rfl⟩
  | _ => exact .inl h

/-- The stage and the history hear the same answers. -/
theorem running_exec {op : Op} {choice : op.Choice} (hleg : (protocol step skip).legal φ op)
    (h : φ.runs = some step.releaseId → running step.instanceName w.history = some step.releaseId)
    (haft : (φ.after step op (exec ext op choice w).1).runs = some step.releaseId) :
    running step.instanceName (exec ext op choice w).2.history = some step.releaseId := by
  cases op with
  | execute call inst rel overlays =>
    simp only [exec, running_append, hleg.1, true_and]
    split
    next hok => exact (if_pos hok).symm.trans haft
    next hok => exact h ((if_neg hok).symm.trans haft)
  | decide q =>
    refine h ?_
    cases choice with
    | ok ans => cases q <;> exact haft
    | error failure =>
      simp only [exec, Stage.after] at haft
      split at haft
      · exact haft
      · split at haft <;> exact haft
  | readEnvironment reader =>
    obtain ⟨fault, failure⟩ := choice
    cases reader <;> cases fault <;> exact h haft
  | createAttempt => obtain ⟨fault, failure⟩ := choice; cases fault <;> exact h haft
  | commit base write status detail =>
    obtain ⟨fault, failure⟩ := choice
    cases fault <;> exact h haft
  | updateEnvironment base write =>
    obtain ⟨fault, failure⟩ := choice
    cases fault <;> exact h haft
  | updateAttempt status detail =>
    obtain ⟨fault, failure⟩ := choice
    cases fault <;> exact h haft
  | nowMillis | runHost | readAttempt => exact h haft
  | claimEnvironment | releaseEnvironment | put => exact hleg.elim

theorem Traced.fits (h : Traced step skip prev φ w)
    (hmoves : step.host = none → step.action ≠ .restart → step.fromVersion ≠ some step.toVersion)
    {write : Write} (hwrs : φ.Writes step write) :
    Fits (w.environment.get .deployedPrev step.instanceName)
        (recorded step.instanceName (w.observed ++ write.observed)) write.transition ∧
      (step.action = .restart →
        write.transition.previousAfter (w.environment.get .deployedPrev step.instanceName) =
          w.environment.get .deployedPrev step.instanceName) := by
  have hpast : ∀ v ∈ recorded step.instanceName w.observed,
      v ∈ recorded step.instanceName (w.observed ++ write.observed) := by
    intro v hver
    rw [recorded_append]
    exact List.mem_append_left _ hver
  cases write with
  | unknown prod inst detail => exact ⟨trivial, fun _ => rfl⟩
  | deployed prod inst v replaced deps =>
    -- the compensation: the destination is the step's own release
    obtain ⟨-, -, hfrom, rfl, hact, hhost, htrbd, -, pin, hpin, -⟩ := hwrs
    have hcomp : compensable step := by simp [compensable, hhost, hact, hfrom, hpin]
    refine ⟨⟨hpast _ (h.origin hhost v hfrom), ?_, by rintro ⟨⟩⟩, fun hrsta => absurd hrsta hact⟩
    rintro before ⟨⟩
    refine ⟨hpast _ (h.troubled hcomp htrbd), ?_⟩
    rintro rfl
    exact hmoves hhost hact hfrom
  | observe obs attempt observedAt deps =>
    obtain ⟨hstep, hpris, htran⟩ := hwrs
    have hord := h.orderly hpris
    unfold Orderly at hord
    dsimp only [Write.transition, Write.observed]
    cases htrans : obs.transition with
    | unchanged | refreshed | unknown => exact ⟨trivial, fun _ => rfl⟩
    | removed v =>
      rw [htrans] at htran
      obtain ⟨rfl, host, hhost, hact⟩ := htran
      rw [hhost] at hord
      simp only [hact] at hord
      exact ⟨hpast _ hord.2, fun hrsta => absurd hrsta hord.1⟩
    | deployed v replaced =>
      rw [htrans] at htran
      obtain ⟨rfl, hlive⟩ := htran
      have hnam : step.toVersion ∈ recorded step.instanceName (w.observed ++ [obs]) := by
        rw [recorded_append]
        refine List.mem_append_right _ ?_
        simp [recorded, hstep, htrans, deployedVersion]
      cases hhost : step.host with
      | none =>
        rw [hhost] at hlive hord
        obtain ⟨rfl, -, -, hroll⟩ := hlive
        by_cases hact : step.action = .restart
        · -- a restart records itself as deployed only where its gate rolled back
          obtain ⟨hgated, hrstr⟩ := h.rolling (hroll hact)
          obtain ⟨-, -, hkept⟩ := hord
          rw [if_pos hact] at hkept
          simp [hkept.2 hgated] at hrstr
        · obtain ⟨-, -, hmoved⟩ := hord
          rw [if_neg hact] at hmoved
          refine ⟨⟨hnam, ?_, hmoved.2⟩, fun hrsta => absurd hrsta hact⟩
          intro before hbef
          refine ⟨hpast _ (h.origin hhost before hbef), ?_⟩
          rintro rfl
          exact hmoved.1 hbef
      | some host =>
        rw [hhost] at hlive hord
        rcases hlive with ⟨hact, rfl⟩ | ⟨hact, rfl⟩
        · simp only [hact] at hord
          obtain ⟨hrsta, hfrom, hnone⟩ := hord
          refine ⟨⟨hnam, ?_, hnone⟩, fun h => absurd h hrsta⟩
          intro before hbef
          exact ⟨hpast _ (hfrom before hbef).2, (hfrom before hbef).1⟩
        · simp only [hact] at hord
          exact ⟨⟨hnam, by rintro _ ⟨⟩, fun _ => hord⟩, fun _ => rfl⟩

theorem keeps_traced
    (hmoves : step.host = none → step.action ≠ .restart → step.fromVersion ≠ some step.toVersion) :
    (protocol step skip).Keeps (exec ext) (Steady step) (Traced step skip prev) := by
  intro φ w op choice h hleg hstdy
  have hruns : compensable step →
      (φ.after step op (exec ext op choice w).1).runs = some step.releaseId →
      running step.instanceName (exec ext op choice w).2.history = some step.releaseId :=
    fun hcomp => running_exec hleg (h.runs hcomp)
  have htrbd : compensable step → (φ.after step op (exec ext op choice w).1).troubled →
      step.toVersion ∈ recorded step.instanceName w.observed := by
    intro hcomp haft
    rcases troubled_after haft with hbef | ⟨hlive, hfails⟩
    · exact h.troubled hcomp hbef
    · by_contra hnev
      rw [hstdy hcomp (h.runs hcomp hlive) hnev] at hfails
      cases hfails
  have hroll : (φ.after step op (exec ext op choice w).1).rolling →
      gated step skip ∧ step.restore.isSome :=
    fun haft => (rolling_after hleg haft).elim h.rolling id
  rcases @quiet_or_wrote ext step skip φ op choice w hleg with hqt | ⟨write, hwrote⟩
  · have hsame : ∀ version ∈ recorded step.instanceName w.observed,
        version ∈ recorded step.instanceName (exec ext op choice w).2.observed := by
      rw [hqt.observed]
      exact fun _ => id
    refine ⟨h.rooted.same hqt.environment hsame, ?_, ?_, ?_, hruns, ?_, hroll, ?_⟩
    · intro base hbase
      rw [hqt.environment]
      exact (hqt.read base hbase).elim (h.read base) id
    · exact fun hpris => (h.orderly (hqt.pristine hpris)).same hqt.environment hqt.observed
    · exact fun hhost version hfrom => hsame version (h.origin hhost version hfrom)
    · exact fun hcomp haft => hsame _ (htrbd hcomp haft)
    · rw [hqt.environment]
      exact h.restarted
  · obtain ⟨base, hbase⟩ := Option.isSome_iff_exists.mp hwrote.read
    have henv := hwrote.environment base hbase
    rw [h.read base hbase] at henv
    have hmore : ∀ version ∈ recorded step.instanceName w.observed,
        version ∈ recorded step.instanceName (exec ext op choice w).2.observed := by
      intro version hver
      rw [hwrote.observed, recorded_append]
      exact List.mem_append_left _ hver
    obtain ⟨hfits, hrestarted⟩ := h.fits hmoves hwrote.writes
    refine ⟨rooted_written h.rooted hwrote.writes.key hfits henv hwrote.observed, ?_, ?_,
      ?_, hruns, ?_, hroll, ?_⟩
    · simp [hwrote.forgotten]
    · simp [hwrote.pristine]
    · exact fun hhost version hfrom => hmore version (h.origin hhost version hfrom)
    · exact fun hcomp haft => hmore _ (htrbd hcomp haft)
    · intro hact
      rw [henv, Write.get_apply rfl, if_pos hwrote.writes.key.symm]
      exact (hrestarted hact).trans (h.restarted hact)

end Step

/-! ### Every run -/

/-- One execution of a step, and what its surroundings answer; where the answers end, it is
    cut short. -/
structure Turn where
  plan : Plan
  step : Step
  recalledRecovery : Bool
  skipGates : Bool
  oracles : List (Oracle interface)

def Turn.program (turn : Turn) (ext : Externals) : Prog interface (Except Failure Outcome) :=
  (execute turn.plan turn.step ext turn.recalledRecovery turn.skipGates).run

def Turn.play (ext : Externals) (w : World) (turn : Turn) : World :=
  (turn.program ext).play (exec ext) turn.oracles w

def run (ext : Externals) (w : World) (turns : List Turn) : World :=
  turns.foldl (Turn.play ext) w

/-- A step of the instance that agrees with the environment, and is not cheated of its
    record. -/
structure Turn.Proper (ext : Externals) (name : String) (w : World) (turn : Turn) : Prop where
  «instance» : turn.step.instanceName = name
  orderly : Orderly turn.step turn.skipGates w
  steady : (turn.program ext).Admits (exec ext) (Steady turn.step) turn.oracles w

def ProperRun (ext : Externals) (name : String) : World → List Turn → Prop
  | _, [] => True
  | w, turn :: turns => turn.Proper ext name w ∧ ProperRun ext name (turn.play ext w) turns

section Run

variable {ext : Externals} {name : String} {w : World} {turn : Turn} {turns : List Turn}

theorem Orderly.moves {step : Step} {skip : Bool} (h : Orderly step skip w)
    (hhost : step.host = none) (hact : step.action ≠ .restart) :
    step.fromVersion ≠ some step.toVersion := by
  unfold Orderly at h
  rw [hhost] at h
  obtain ⟨-, -, hmoved⟩ := h
  rw [if_neg hact] at hmoved
  exact hmoved.1

theorem traced_start {step : Step} {skip : Bool} (hrooted : Rooted step.instanceName w)
    (hord : Orderly step skip w) :
    Traced step skip (w.environment.get .deployedPrev step.instanceName) (Stage.start step) w := by
  refine ⟨hrooted, by rintro _ ⟨⟩, fun _ => hord, ?_, ?_, by rintro _ ⟨⟩, by rintro ⟨⟩,
    fun _ => rfl⟩
  · intro hhost v hfrom
    unfold Orderly at hord
    rw [hhost] at hord
    exact hrooted.deployed v (hord.2.1.trans hfrom)
  · -- the step's release is not the one it finds
    intro hcomp hruns
    simp only [compensable, Bool.and_eq_true, decide_eq_true_eq] at hcomp
    obtain ⟨⟨⟨hhost, hact⟩, -⟩, -⟩ := hcomp
    have hmoves := hord.moves hhost hact
    unfold Orderly at hord
    rw [hhost] at hord
    obtain ⟨v, hfrom, hver⟩ := Option.map_eq_some_iff.mp hruns
    rw [hord.1] at hver
    exact absurd (hfrom.trans (congrArg some (releaseId_inj hver))) hmoves

/-- A proper step keeps the destination in order wherever it stops, and a restart keeps it. -/
theorem Turn.Proper.rooted (hprop : turn.Proper ext name w) (hrooted : Rooted name w) :
    Rooted name (turn.play ext w) ∧
      (turn.step.action = .restart → (turn.play ext w).environment.get .deployedPrev name =
        w.environment.get .deployedPrev name) := by
  obtain ⟨rfl, hord, hstdy⟩ := hprop
  obtain ⟨ψ, htraced, -⟩ := Obeys.play (keeps_traced hord.moves)
    (heeds_execute turn.plan turn.step ext turn.recalledRecovery turn.skipGates)
    (traced_start hrooted hord) hstdy
  exact ⟨htraced.rooted, htraced.restarted⟩

theorem rooted_run (h : ProperRun ext name w turns) (hrooted : Rooted name w) :
    Rooted name (run ext w turns) := by
  induction turns generalizing w with
  | nil => exact hrooted
  | cons turn turns ih => exact ih h.2 (h.1.rooted hrooted).1

theorem ProperRun.append {before after : List Turn} (h : ProperRun ext name w (before ++ after)) :
    ProperRun ext name w before ∧ ProperRun ext name (run ext w before) after := by
  induction before generalizing w with
  | nil => exact ⟨trivial, h⟩
  | cons turn before ih => exact ⟨⟨h.1, (ih h.2).1⟩, (ih h.2).2⟩

def World.fresh (environment : Properties) (history : List ExecutorEvent) : World :=
  ⟨environment, none, true, history, [], false⟩

/-- From an environment that has no record of an instance, over every run of proper steps: what
    `deployed_prev` names was recorded as deployed before, and is not what is deployed; and no
    restart changes it. -/
theorem rollback_destination_in_order (ext : Externals) (name : String)
    (environment : Properties) (history : List ExecutorEvent) (turns : List Turn)
    (hdeployed : environment.get .deployed name = none)
    (hprevious : environment.get .deployedPrev name = none)
    (hproper : ProperRun ext name (.fresh environment history) turns) :
    (∀ version, (run ext (.fresh environment history) turns).environment.get .deployedPrev name =
        some version →
      version ∈ recorded name (run ext (.fresh environment history) turns).observed ∧
        (run ext (.fresh environment history) turns).environment.get .deployed name ≠
          some version) ∧
    ∀ before turn after, turns = before ++ turn :: after → turn.step.action = .restart →
      (run ext (.fresh environment history) (before ++ [turn])).environment.get .deployedPrev name =
        (run ext (.fresh environment history) before).environment.get .deployedPrev name := by
  have hstart : Rooted name (.fresh environment history) := by
    constructor
    · simp [World.fresh, hdeployed]
    · simp [World.fresh, hprevious]
  refine ⟨(rooted_run hproper hstart).previous, ?_⟩
  rintro before turn after rfl haction
  obtain ⟨hbefore, hturn, -⟩ := hproper.append
  have hkept := (hturn.rooted (rooted_run hbefore hstart)).2 haction
  rwa [run, List.foldl_append]

end Run

/-! ### Runs of a product -/

def smoothTurn (step : Step) : Turn :=
  ⟨samplePlan, step, false, false, List.replicate 60 (smooth ⟨true, none⟩)⟩

/-- `web` is installed, upgraded, restarted and rolled back. -/
def webTurns : List Turn :=
  [smoothTurn (webStep .install none "1.0" none),
    smoothTurn (webStep .upgrade (some "1.0") "2.0" (some (webPin "1.0"))),
    smoothTurn (webStep .restart (some "2.0") "2.0" none),
    smoothTurn (webStep .rollback (some "2.0") "1.0" (some (webPin "2.0")))]

theorem properRun_webTurns : ProperRun plainExternals "web" emptyWorld webTurns := by
  refine ⟨⟨rfl, ⟨rfl, by decide, ?_⟩, by decide⟩, ⟨rfl, ⟨rfl, by decide, ?_⟩, by decide⟩,
    ⟨rfl, ⟨rfl, by decide, ?_⟩, by decide⟩, ⟨rfl, ⟨rfl, by decide, ?_⟩, by decide⟩, trivial⟩
  all_goals decide

theorem rollback_destination_in_order_web :
    (run plainExternals emptyWorld webTurns).environment.get .deployedPrev "web" = some "2.0" ∧
      "2.0" ∈ recorded "web" (run plainExternals emptyWorld webTurns).observed ∧
      (run plainExternals emptyWorld webTurns).environment.get .deployed "web" ≠ some "2.0" := by
  have hset : (run plainExternals emptyWorld webTurns).environment.get .deployedPrev "web" =
      some "2.0" := by decide
  exact ⟨hset, (rollback_destination_in_order plainExternals "web" ∅ [] webTurns rfl rfl
    properRun_webTurns).1 "2.0" hset⟩

def refusingAttempts : Oracle interface
  | .createAttempt => (⟨.refused, ⟨"store unavailable", .other⟩⟩ : Outage)
  | op => smooth ⟨true, none⟩ op

def failingExecutors : Oracle interface
  | .execute _ _ _ _ => .ok (.error "exit 1")
  | op => smooth ⟨true, none⟩ op

/-- No release is admitted, under a gate that fails. -/
def refusingReleases : Oracle interface
  | .decide (.admitRelease _ _) => .error ⟨"artifact missing", .other⟩
  | op => smooth ⟨false, some .rollback⟩ op

/-- The outcome of an upgrade cannot be stored, and the release before it is restored. -/
def unrecordedUpgrade : List Turn :=
  [smoothTurn (webStep .install none "1.0" none),
    ⟨samplePlan, webStep .upgrade (some "1.0") "2.0" (some (webPin "1.0")), false, false,
      List.replicate 60 refusingAttempts⟩]

/-- An upgrade fails and cannot be undone, and the product is rolled back from there. -/
def rollbackFromUnknown : List Turn :=
  [smoothTurn (webStep .install none "1.0" none),
    smoothTurn (webStep .upgrade (some "1.0") "2.0" (some (webPin "1.0"))),
    ⟨samplePlan, webStep .upgrade (some "2.0") "3.0" (some (webPin "2.0")), false, false,
      List.replicate 60 failingExecutors⟩,
    smoothTurn (webStep .rollback none "1.0" none)]

/-- A release whose gate failed is restarted by a package migration; the gate fails again, and
    the release is not admitted any more when it is to be restored. -/
def heldRestart : List Turn :=
  [⟨samplePlan, webStep .install none "1.0" none, false, false,
      List.replicate 60 (smooth ⟨false, none⟩)⟩,
    ⟨samplePlan, webStep .restart (some "1.0") "1.0" (some (webPin "1.0")), false, false,
      List.replicate 10 (smooth ⟨false, some .rollback⟩) ++ List.replicate 60 refusingReleases⟩]

/-- The destination is a version that was never recorded; it is the version deployed; it is
    changed by a restart. -/
theorem rollback_destination_out_of_order :
    ((run plainExternals emptyWorld unrecordedUpgrade).environment.get .deployedPrev "web" =
        some "2.0" ∧
      "2.0" ∉ recorded "web" (run plainExternals emptyWorld unrecordedUpgrade).observed) ∧
    ((run plainExternals emptyWorld rollbackFromUnknown).environment.get .deployedPrev "web" =
        some "1.0" ∧
      (run plainExternals emptyWorld rollbackFromUnknown).environment.get .deployed "web" =
        some "1.0") ∧
    (run plainExternals emptyWorld (heldRestart.take 1)).environment.get .deployedPrev "web" =
        none ∧
      (run plainExternals emptyWorld heldRestart).environment.get .deployedPrev "web" =
        some "1.0" := by
  decide

end Tenkai.StepLifecycle
