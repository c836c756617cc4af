import Tenkai.WaveMoves

/-!
# The order of a wave

A wave that stops on failure executes the plan of an environment only when every environment before
it has succeeded, and nothing more once one failed or was blocked; one that succeeded has succeeded
in every environment. `Orderly` is what every persisted record satisfies, `Calm` what an orderly
record that has not failed looks like while a call works on it.
-/

namespace Tenkai.Wave

/-- What every record persisted by the forward calls satisfies. -/
structure Orderly (record : Record) : Prop where
  stops : record.spec.failPolicy = .stopOnFailure →
    ∀ environment ∈ record.environments, environment.status.isFailure → record.status = .failed
  skips : ∀ environment ∈ record.environments, environment.status = .skipped →
    record.status = .failed
  forward : ∀ environment ∈ record.environments, environment.status ≠ .rolledBack
  succeeds : record.status = .succeeded →
    ∀ environment ∈ record.environments, environment.status = .succeeded

/-- An environment status that does not end a wave of this policy. -/
def EnvironmentStatus.calm (policy : FailPolicy) : EnvironmentStatus → Bool
  | .failed | .blocked => policy = .continueAfterFailure
  | .skipped | .rolledBack => false
  | .unstarted | .running | .awaitingApproval | .succeeded => true

def Calm (record : Record) : Prop :=
  ∀ environment ∈ record.environments, environment.status.calm record.spec.failPolicy

variable {record : Record} {f : EnvironmentRecord → EnvironmentRecord}

theorem Orderly.calm (h : Orderly record) (hstat : record.status ≠ .failed) : Calm record := by
  intro env hmem
  have hskip := h.skips env hmem
  have hfwd := h.forward env hmem
  have hstop := fun hpol => h.stops hpol env hmem
  cases hpol : record.spec.failPolicy <;> cases hs : env.status <;>
    simp_all [EnvironmentStatus.calm, EnvironmentStatus.isFailure]

/-- A calm record may be persisted with any status but an undeserved success. -/
theorem Calm.orderly (h : Calm record)
    (hsuc : record.status = .succeeded → ∀ env ∈ record.environments, env.status = .succeeded) :
    Orderly record := by
  refine ⟨?_, ?_, ?_, hsuc⟩
  · intro hpol env hmem hflr
    have hcalm := h env hmem
    rw [hpol] at hcalm
    cases hs : env.status <;>
      simp [hs, EnvironmentStatus.calm, EnvironmentStatus.isFailure] at hcalm hflr
  · intro env hmem hskip
    have hcalm := h env hmem
    simp [hskip, EnvironmentStatus.calm] at hcalm
  · intro env hmem hrld
    have hcalm := h env hmem
    simp [hrld, EnvironmentStatus.calm] at hcalm

theorem Calm.with_status (h : Calm record) {status : Status} (hstat : status ≠ .succeeded) :
    Orderly { record with status } :=
  @Calm.orderly { record with status } h (fun hs => absurd hs hstat)

theorem Calm.modify (h : Calm record) (k : Nat)
    (hf : ∀ env, (f env).status.calm record.spec.failPolicy) : Calm (record.modify k f) := by
  intro env hmem
  rcases Record.mem_modify hmem with hmem | ⟨old, -, rfl⟩
  · exact h env hmem
  · exact hf old

/-- The status a wave derives from a calm record. -/
theorem Calm.refresh (h : Calm record) : Orderly (refreshWaveStatus record) := by
  unfold refreshWaveStatus
  split
  next hfixed =>
    refine h.orderly ?_
    intro hsucc
    simp [hsucc] at hfixed
  · split
    · exact h.with_status (by decide)
    · split
      next hcpl =>
        split
        · exact h.with_status (by decide)
        next hfine =>
          -- complete, and neither failed, skipped nor rolled back
          refine @Calm.orderly { record with status := .succeeded } h ?_
          intro _ environment hmem
          have hdone := List.all_eq_true.mp hcpl environment hmem
          have hgood : environment.status.isFailure = false := by
            simpa using List.any_eq_false.mp (by simpa using hfine) environment hmem
          have hcalm := h environment hmem
          cases hs : environment.status <;>
            simp_all [EnvironmentStatus.calm, EnvironmentStatus.isComplete,
              EnvironmentStatus.isFailure]
      · exact h.with_status (by decide)

theorem Calm.fail (h : Calm record) (index order : Nat)
    (hf : ∀ environment, (f environment).status.isFailure) :
    Orderly (applyFailPolicy (record.modify index f) order) := by
  have hstat : ∀ environment ∈ (record.modify index f).environments,
      environment.status.calm record.spec.failPolicy ∨ environment.status.isFailure := by
    intro environment hmem
    rcases Record.mem_modify hmem with hmem | ⟨old, -, rfl⟩
    · exact .inl (h environment hmem)
    · exact .inr (hf old)
  have hnev : ∀ environment ∈ (record.modify index f).environments,
      environment.status ≠ .skipped ∧ environment.status ≠ .rolledBack := by
    intro environment hmem
    rcases hstat environment hmem with hcalm | hflr
    · constructor <;> intro hs <;> simp [hs, EnvironmentStatus.calm] at hcalm
    · constructor <;> intro hs <;> simp [hs, EnvironmentStatus.isFailure] at hflr
  cases hpol : record.spec.failPolicy with
  | stopOnFailure =>
    have hmodf : (record.modify index f).spec.failPolicy = .stopOnFailure := hpol
    simp only [applyFailPolicy, hmodf]
    refine ⟨fun _ _ _ _ => rfl, fun _ _ _ => rfl, ?_, nofun⟩
    intro environment hmem
    obtain ⟨old, hold, rfl⟩ := List.mem_map.mp hmem
    split
    · simp
    · exact (hnev old hold).2
  | continueAfterFailure =>
    have hmodf : (record.modify index f).spec.failPolicy = .continueAfterFailure := hpol
    have hcalm : Calm (record.modify index f) := by
      intro environment hmem
      rcases hstat environment hmem with hcalm | hflr
      · exact hcalm
      · rw [hmodf]
        cases hs : environment.status <;>
          simp_all [EnvironmentStatus.calm, EnvironmentStatus.isFailure]
    simp only [applyFailPolicy, hmodf]
    split
    · exact hcalm.with_status (by decide)
    · exact hcalm.with_status (by decide)

theorem Calm.settle (h : Calm record) (k order : Nat) {mark : EnvironmentStatus} (hf : Marks f mark)
    (hmark : mark.isEnded) : Orderly (settleStatus (record.modify k f) order mark) := by
  unfold settleStatus
  split
  next hflr =>
    refine h.fail k order fun env => ?_
    rwa [hf.status]
  next hfine =>
    refine (h.modify k fun env => ?_).refresh
    rw [hf.status]
    cases mark <;> simp_all [EnvironmentStatus.isEnded, EnvironmentStatus.isFailure,
      EnvironmentStatus.calm]

@[simp] theorem settleStatus_spec (record : Record) (order : Nat) (status : EnvironmentStatus) :
    (settleStatus record order status).spec = record.spec := by
  unfold settleStatus applyFailPolicy refreshWaveStatus
  repeat' split
  all_goals rfl

@[simp] theorem refreshWaveStatus_spec (record : Record) :
    (refreshWaveStatus record).spec = record.spec := by
  unfold refreshWaveStatus
  repeat' split
  all_goals rfl

/-- Every environment before `index` has succeeded. -/
def Record.ReadyAt (record : Record) (index : Nat) : Prop :=
  record.spec.failPolicy = .stopOnFailure →
    ∀ j < index, (record.environments.map (·.status))[j]? = some .succeeded

theorem Calm.ready (h : Calm record) {w : World} {index : Nat} {env : EnvironmentRecord}
    (hpend : Pending w record index env) : record.ReadyAt index := by
  intro _ j hj
  obtain ⟨hlt, -⟩ := List.getElem?_eq_some_iff.mp hpend.found
  have hjlt : j < record.environments.length := Nat.lt_trans hj hlt
  have hearl := List.getElem?_eq_getElem hjlt
  have hcpl := hpend.before j hj _ hearl
  have hcalm := h _ (List.getElem_mem hjlt)
  -- a complete env of a calm record that stops on failure has succeeded
  cases hs : record.environments[j].status <;>
    simp_all [EnvironmentStatus.calm, EnvironmentStatus.isComplete]

/-! ### What every move keeps -/

structure Inv (w : World) : Prop where
  orderly : ∀ record, w.wave = some record → Orderly record
  unstarted : w.wave = none → w.executions = []
  ordered : ∀ record, w.wave = some record → record.spec.failPolicy = .stopOnFailure →
    ∀ x ∈ w.executions, ∀ j < x.index, x.statuses[j]? = some .succeeded

theorem Inv.plans {w t : World} (h : Inv w) (hwave : t.wave = w.wave)
    (hexecutions : t.executions = w.executions) : Inv t := by
  refine ⟨?_, ?_, ?_⟩
  · rw [hwave]
    exact h.orderly
  · rw [hwave, hexecutions]
    exact h.unstarted
  · rw [hwave, hexecutions]
    exact h.ordered

section Moves

variable {w : World} {record : Record}

theorem Inv.persist (h : Inv w) (hw : w.wave = some record) {next : Record} (hnext : Orderly next)
    (hspec : next.spec = record.spec) : Inv (w.storeWave next) := by
  refine ⟨?_, ?_, ?_⟩
  · rintro _ ⟨⟩
    exact hnext
  · intro hnone
    cases hnone
  · rintro _ ⟨⟩ hpol
    rw [hspec] at hpol
    exact h.ordered record hw hpol

theorem Inv.executed (h : Inv w) (hw : w.wave = some record) {index : Nat}
    (hrdy : record.ReadyAt index) (id : String) (plan : Plan) (ending : Ending) :
    Inv (w.executed index id plan ending) := by
  refine ⟨h.orderly, ?_, ?_⟩
  · intro hnone
    rw [show (w.executed index id plan ending).wave = w.wave from rfl, hw] at hnone
    cases hnone
  · intro found hfd hpol x hx
    obtain rfl : record = found := Option.some.inj (hw.symm.trans hfd)
    rcases List.mem_append.mp hx with hx | hx
    · exact h.ordered record hw hpol x hx
    · obtain rfl := List.mem_singleton.mp hx
      rw [hw]
      exact hrdy hpol

end Moves

theorem Orderly.calm_of_active (h : Orderly record) (hactv : record.status.isTerminal = false) :
    Calm record := by
  refine h.calm ?_
  intro hfail
  simp [hfail, Status.isTerminal] at hactv

theorem admittedRecord_orderly (spec : Spec) (pin : Pin) : Orderly (admittedRecord spec pin) := by
  refine Calm.orderly ?_ (by simp [admittedRecord])
  intro _ hmem
  obtain ⟨i, -, rfl⟩ := List.mem_mapIdx.mp hmem
  rfl

/-- Every forward move keeps records orderly and executions in order. -/
theorem inv_kept : Kept Inv := by
  intro w t h hmove
  -- a record that is not over is calm, so whatever is stored next is orderly again
  have hcalm : ∀ record, w.wave = some record → record.status.isTerminal = false →
      Calm record := fun record hst hactv => (h.orderly record hst).calm_of_active hactv
  cases hmove with
  | admitted spec pin hnone =>
    refine ⟨?_, ?_, ?_⟩
    · rintro _ ⟨⟩
      exact admittedRecord_orderly spec pin
    · intro hsome
      cases hsome
    · intro record _ _ x hx
      rw [show (w.storeWave _).executions = [] from h.unstarted hnone] at hx
      cases hx
  | @resumed record hst hstopped =>
    have hactv : record.status.isTerminal = false := by rw [hstopped]; rfl
    have hresumed : Calm { record with operatorDecision := some "resume" } := hcalm record hst hactv
    exact h.persist hst (hresumed.with_status (by decide)) rfl
  | @stopped record hst hactv =>
    have hstop : Calm { record with operatorDecision := some "stop" } := hcalm record hst hactv
    exact h.persist hst (hstop.with_status (by decide)) rfl
  | refreshed hst hactv =>
    exact h.persist hst (hcalm _ hst hactv).refresh (refreshWaveStatus_spec _)
  | created hpend hpl hadm => exact h.plans rfl rfl
  | @planned record k _ hpend plan =>
    refine h.persist hpend.stored (Calm.orderly ?_ ?_) rfl
    · exact (hcalm record hpend.stored hpend.active).modify k fun _ => rfl
    · intro hsucc
      have hactv := hpend.active
      rw [show record.status = .succeeded from hsucc] at hactv
      cases hactv
  | @marked record k _ hpend f mark hf hmark status hstat =>
    have hmkd : Calm (record.modify k f) := by
      refine (hcalm record hpend.stored hpend.active).modify k fun _ => ?_
      rw [hf.status]
      rcases hmark with rfl | rfl <;> rfl
    refine h.persist hpend.stored (hmkd.with_status ?_) rfl
    rcases hstat with rfl | rfl | rfl <;> decide
  | @ended record k _ hpend f mark hf hmark currentOrder order =>
    have hcalm' : Calm { record with currentOrder } := hcalm record hpend.stored hpend.active
    exact h.persist hpend.stored (hcalm'.settle k order hf hmark) (settleStatus_spec _ _ _)
  | executed hpend hplan hfd hfwd ending =>
    exact h.executed hpend.stored ((hcalm _ hpend.stored hpend.active).ready hpend) _ _ ending

theorem terminal_kept (hterm : record.status.isTerminal) (executions : List Execution) :
    Kept fun w => w.wave = some record ∧ w.executions = executions := by
  rintro w t ⟨hwave, -⟩ hmove
  have hover : ∀ {found}, w.wave = some found → found.status.isTerminal = false → False := by
    intro found hfd hactv
    obtain rfl : record = found := Option.some.inj (hwave.symm.trans hfd)
    rw [hterm] at hactv
    cases hactv
  cases hmove with
  | admitted spec pin hnone =>
    rw [hwave] at hnone
    cases hnone
  | resumed hst hstop => exact (hover hst (by rw [hstop]; rfl)).elim
  | stopped hst hactv => exact (hover hst hactv).elim
  | refreshed hst hactv => exact (hover hst hactv).elim
  | created hpend => exact (hover hpend.stored hpend.active).elim
  | planned hpend => exact (hover hpend.stored hpend.active).elim
  | marked hpend => exact (hover hpend.stored hpend.active).elim
  | ended hpend => exact (hover hpend.stored hpend.active).elim
  | executed hpend => exact (hover hpend.stored hpend.active).elim

theorem OutsideMove.same {w t : World} {id : String} {state : PlanState}
    (h : OutsideMove w id state t) : t.wave = w.wave ∧ t.executions = w.executions := by
  cases h with
  | recorded | unrelated => exact ⟨rfl, rfl⟩

/-- Without rollbacks, from a wave not yet started: under stop-on-failure every plan was
    executed with all environments before its own succeeded, and a failed or blocked
    environment ends execution and success for good; under either policy a wave that
    succeeded has succeeded everywhere. -/
theorem wave_keeps_order (plans : Plans) (before after : List Turn)
    (hforward : ∀ turn ∈ before ++ after, turn.call.isForward) (record : Record)
    (hrecord : ((World.fresh plans).run before).wave = some record) :
    (record.spec.failPolicy = .stopOnFailure → (∀ x ∈ ((World.fresh plans).run before).executions,
        ∀ j < x.index, x.statuses[j]? = some .succeeded) ∧
      ((∃ environment ∈ record.environments, environment.status.isFailure) →
        ((World.fresh plans).run (before ++ after)).executions =
          ((World.fresh plans).run before).executions ∧
        ∀ later, ((World.fresh plans).run (before ++ after)).wave = some later →
          later.status ≠ .succeeded)) ∧
    (record.status = .succeeded →
      ∀ environment ∈ record.environments, environment.status = .succeeded) := by
  have hfresh : Inv (.fresh plans) := by
    refine ⟨?_, fun _ => rfl, ?_⟩
    · intro record h
      cases h
    · intro record h
      cases h
  have hinv : Inv ((World.fresh plans).run before) := World.run_invariant (fun turn hmem w hw =>
      along_forward inv_kept (hforward turn (List.mem_append_left _ hmem)) hw
        fun _ _ _ _ hmove => hw.plans hmove.same.1 hmove.same.2) hfresh
  have horderly := hinv.orderly record hrecord
  refine ⟨?_, horderly.succeeds⟩
  intro hpolicy
  refine ⟨hinv.ordered record hrecord hpolicy, ?_⟩
  rintro ⟨environment, hmem, hfailure⟩
  have hfailed : record.status = .failed := horderly.stops hpolicy environment hmem hfailure
  have hterminal : record.status.isTerminal := by rw [hfailed]; rfl
  have hend := World.run_invariant (fun turn hmem w hw =>
    along_forward (terminal_kept hterminal ((World.fresh plans).run before).executions)
      (hforward turn (List.mem_append_right before hmem)) hw
        fun _ _ _ _ hmove => ⟨hmove.same.1.trans hw.1, hmove.same.2.trans hw.2⟩) ⟨hrecord, rfl⟩
  rw [World.run_append]
  refine ⟨hend.2, ?_⟩
  intro later hlater
  obtain rfl : record = later := Option.some.inj (hend.1.symm.trans hlater)
  rw [hfailed]
  decide

/-- The plan of the second of three environments fails. -/
def failingTurns : List Turn :=
  [Call.ending (.startOrResume (apiSpec ["a", "b", "c"])) .succeeded,
    Call.ending (.advance .signed) .succeeded, Call.ending (.advance .signed) .failed]

theorem wave_keeps_order_failing :
    (((World.fresh noPlans).run failingTurns).executions.map fun x => (x.index, x.statuses)) =
        [(0, [.running, .unstarted, .unstarted]), (1, [.succeeded, .running, .unstarted])] ∧
      ((World.fresh noPlans).run
        (failingTurns ++ [Call.ending (.advance .signed) .succeeded])).executions.length = 2 := by
  have hsome : ((World.fresh noPlans).run failingTurns).wave.isSome := by decide
  have horder := wave_keeps_order noPlans failingTurns
    [Call.ending (.advance .signed) .succeeded] (by decide) _ (Option.some_get hsome).symm
  have hends := (horder.1 (by decide +revert)).2 (by decide +revert)
  refine ⟨by decide, ?_⟩
  rw [hends.1]
  decide

/-- However a wave came to its end, calls other than rollbacks execute nothing for it and leave its
    record as it is. -/
theorem terminal_wave_is_final (w : World) (turns : List Turn)
    (hforward : ∀ turn ∈ turns, turn.call.isForward) (hrecord : w.wave = some record)
    (hterminal : record.status.isTerminal) :
    (w.run turns).wave = some record ∧ (w.run turns).executions = w.executions :=
  World.run_invariant (fun turn hmem _ hw =>
    along_forward (terminal_kept hterminal w.executions) (hforward turn hmem) hw
      fun _ _ _ _ hmove => ⟨hmove.same.1.trans hw.1, hmove.same.2.trans hw.2⟩) ⟨hrecord, rfl⟩

theorem terminal_wave_is_final_failing : ∃ record,
    ((World.fresh noPlans).run failingTurns).wave = some record ∧ record.status = .failed ∧
    (((World.fresh noPlans).run failingTurns).run
      [Call.ending (.startOrResume (apiSpec ["a"])) .succeeded]).wave = some record := by
  have hsome : ((World.fresh noPlans).run failingTurns).wave.isSome := by decide
  exact ⟨_, (Option.some_get hsome).symm, by decide +revert,
    (terminal_wave_is_final _ _ (by decide) (Option.some_get hsome).symm (by decide +revert)).1⟩

end Tenkai.Wave
