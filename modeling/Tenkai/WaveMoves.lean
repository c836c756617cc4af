import Tenkai.Wave

/-!
# What the calls of a wave can do to the shared state

The forward calls as a relation (`ForwardMove`, `OutsideMove`): the calls are gone through once,
here, and every law about runs is a law about moves. What a rollback stores last depends on every
environment it took up before, so each function of its loop gets a specification besides
(`RollbackMove`).
-/

namespace Tenkai.Wave

open M Prog

/-- A change of an environment's record that sets its status and keeps whose it is and
    which plan it has. -/
structure Marks (f : EnvironmentRecord → EnvironmentRecord) (status : EnvironmentStatus) :
    Prop where
  environment : ∀ e, (f e).environment = e.environment
  planId : ∀ e, (f e).planId = e.planId
  status : ∀ e, (f e).status = status

/-- The stored record is not over, and the environment at `index` is the one to go on with. -/
structure Pending (w : World) (record : Record) (index : Nat) (environment : EnvironmentRecord) :
    Prop where
  stored : w.wave = some record
  active : record.status.isTerminal = false
  found : record.environments[index]? = some environment
  incomplete : environment.status.isComplete = false
  before : ∀ j < index, ∀ earlier, record.environments[j]? = some earlier →
    earlier.status.isComplete

variable {environment : EnvironmentRecord} {index : Nat} {rec : Record} {w : World}

/-- The environment stays the one to go on with while its record is brought up to date. -/
theorem Pending.update {t : World} {next : Record} (h : Pending w rec index environment)
    {f : EnvironmentRecord → EnvironmentRecord} (hst : t.wave = some next)
    (hnext : next.environments = (rec.modify index f).environments)
    (hactv : next.status.isTerminal = false) (hinc : (f environment).status.isComplete = false) :
    Pending t next index (f environment) := by
  refine ⟨hst, hactv, ?_, hinc, ?_⟩
  · rw [hnext, Record.getElem?_modify, h.found]
    simp
  · intro j hj _ hearl
    have hne : index ≠ j := by omega
    rw [hnext, Record.getElem?_modify] at hearl
    obtain ⟨old, hold, rfl⟩ := Option.map_eq_some_iff.mp hearl
    simpa [hne] using h.before j hj old hold

theorem Pending.plans {t : World} (h : Pending w rec index environment) (hwave : t.wave = w.wave) :
    Pending t rec index environment :=
  ⟨hwave.trans h.stored, h.active, h.found, h.incomplete, h.before⟩

def EnvironmentStatus.isEnded : EnvironmentStatus → Bool
  | .succeeded | .failed | .blocked => true
  | _ => false

inductive ForwardMove (w : World) : World → Prop
  | admitted (spec : Spec) (pin : Pin) (hnone : w.wave = none)
      (hdistinct : spec.environments.Nodup) :
      ForwardMove w (w.storeWave (admittedRecord spec pin))
  | resumed {record : Record} (hstored : w.wave = some record)
      (hstopped : record.status = .stopped) :
      ForwardMove w (w.storeWave
        { record with status := .running, operatorDecision := some "resume" })
  | stopped {record : Record} (hstored : w.wave = some record)
      (hactive : record.status.isTerminal = false) :
      ForwardMove w (w.storeWave
        { record with status := .stopped, operatorDecision := some "stop" })
  | refreshed {record : Record} (hstored : w.wave = some record)
      (hactive : record.status.isTerminal = false)
      (hcomplete : ∀ environment ∈ record.environments, environment.status.isComplete) :
      ForwardMove w (w.storeWave (refreshWaveStatus record))
  /-- A plan is created for an environment that has none. -/
  | created {record : Record} {index : Nat} {environment : EnvironmentRecord}
      (h : Pending w record index environment) {plan : Plan}
      (hplanned : Planned environment.environment plan) (hadmits : w.Admits plan) :
      ForwardMove w (w.putPlan plan)
  /-- And recorded. -/
  | planned {record : Record} {index : Nat} {environment : EnvironmentRecord}
      (h : Pending w record index environment) {plan : Plan}
      (hfound : w.plans plan.id = some plan)
      (hplanned : Planned environment.environment plan) (hforward : isRollback plan = false) :
      ForwardMove w (w.storeWave (record.modify index fun environment =>
        { environment with planId := some plan.id, status := .awaitingApproval }))
  /-- The environment waits, runs, or has to be recovered. -/
  | marked {record : Record} {index : Nat} {environment : EnvironmentRecord}
      (h : Pending w record index environment) {f : EnvironmentRecord → EnvironmentRecord}
      {mark : EnvironmentStatus} (hf : Marks f mark)
      (hmark : mark = .running ∨ mark = .awaitingApproval) {status : Status}
      (hstatus : status = .running ∨ status = .awaitingApproval ∨ status = .recoveryRequired) :
      ForwardMove w (w.storeWave { record.modify index f with status })
  /-- The environment is left as its plan ended. -/
  | ended {record : Record} {index : Nat} {environment : EnvironmentRecord}
      (h : Pending w record index environment) {f : EnvironmentRecord → EnvironmentRecord}
      {mark : EnvironmentStatus} (hf : Marks f mark) (hmark : mark.isEnded)
      (currentOrder order : Nat) :
      ForwardMove w (w.storeWave
        (settleStatus ({ record with currentOrder }.modify index f) order mark))
  | executed {record : Record} {index : Nat} {environment : EnvironmentRecord}
      (h : Pending w record index environment) {plan : Plan}
      (hplan : environment.planId = some plan.id) (hfound : w.plans plan.id = some plan)
      (hforward : isRollback plan = false) (ending : Ending) :
      ForwardMove w (w.executed index plan.id plan ending)

/-- A plan changes outside the wave. -/
inductive OutsideMove (w : World) (id : String) (state : PlanState) : World → Prop
  | recorded {plan : Plan} (hfound : w.plans id = some plan) (hrecorded : w.records id)
      (hchanged : plan.state ≠ state) :
      OutsideMove w id state (w.setPlanState plan state plan.statusDetail)
  /-- A plan that is not the wave's, or nothing changes. -/
  | unrelated {plan : Plan} (hfound : w.plans id = some plan)
      (hunrelated : ¬ (w.records id ∧ plan.state ≠ state)) :
      OutsideMove w id state (w.putPlan { plan with state })

/-! ### The forward calls -/

theorem endedStatus_isEnded (state : PlanState) : (endedStatus state).isEnded := by
  cases state <;> rfl

theorem endedEvidence_status (plan : Plan) : (endedEvidence plan).status = endedStatus plan.state := by
  unfold endedEvidence
  split
  next ev h => exact (evidenceFromOutcomes_status h).2
  · rfl

theorem endedEvidence_isEnded (plan : Plan) : (endedEvidence plan).status.isEnded := by
  rw [endedEvidence_status]
  exact endedStatus_isEnded _

section Forward

variable {J : World → Prop} {w : World} {rec : Record} {index : Nat}
  {environment : EnvironmentRecord}

def Kept (J : World → Prop) : Prop := ∀ w t, J w → ForwardMove w t → J t

theorem leads_persist_move (hJ : Kept J) (hw : J w) {next : Record}
    (hmove : ForwardMove w (w.storeWave next)) :
    Leads exec J (persist next) (fun _ t => t = w.storeWave next ∧ J t) w := by
  have hnext := hJ w _ hw hmove
  refine .of_along (along_persist hw hnext) ?_
  intro _ t ht
  obtain rfl := ht rfl
  exact ⟨rfl, hnext⟩

section Pending

variable (hJ : Kept J) (hw : J w) (h : Pending w rec index environment)

include hw h

theorem leads_capturePlanEvidence (taken : EnvironmentRecord) (id : String)
    (outcomes : List Outcome) :
    Leads exec J (capturePlanEvidence rec index taken id outcomes)
      (fun next t => t = w ∧ ForwardMove w (w.storeWave next)) w := by
  refine .bind (leads_loadPlan hw id) ?_
  rintro plan t ⟨rfl, -⟩
  cases hevid : evidenceFromOutcomes plan outcomes with
  | error message => exact .throw _
  | ok ev =>
    refine .bind (leads_decide hw _) ?_
    rintro _ t rfl
    have hmark : ev.status.isEnded := by
      rw [(evidenceFromOutcomes_status hevid).2]
      exact endedStatus_isEnded _
    exact .pure ⟨rfl, .ended h (by constructor <;> exact fun _ => rfl) hmark taken.order
      taken.order⟩

theorem leads_recordExecuteError (taken : EnvironmentRecord) (planId message : String) :
    Leads exec J (recordExecuteError rec index taken planId message)
      (fun next t => t = w ∧ ForwardMove w (w.storeWave next)) w := by
  refine .bind (.caught (along_loadPlan hw planId)) ?_
  rintro loaded t ⟨rfl, -⟩
  have hmarks : ∀ status, Marks (fun environment =>
      { environment with detail := message, status }) status :=
    fun _ => ⟨fun _ => rfl, fun _ => rfl, fun _ => rfl⟩
  have hmkd := fun mark hmark status hstat =>
    @ForwardMove.marked _ rec index environment h _ mark (hmarks mark) hmark status hstat
  have hrun := hmkd .running (.inl rfl) .recoveryRequired (.inr (.inr rfl))
  have hwait := hmkd .awaitingApproval (.inr rfl) .awaitingApproval (.inr (.inl rfl))
  have hended := fun status hstat =>
    ForwardMove.ended h (hmarks status) hstat rec.currentOrder taken.order
  cases loaded with
  | error _ => exact .pure ⟨rfl, hwait⟩
  | ok plan =>
    cases hsta : plan.state with
    | succeeded | running => exact .pure ⟨rfl, by simpa only [hsta] using hrun⟩
    | computed => exact .pure ⟨rfl, by simpa only [hsta] using hwait⟩
    | failed =>
      simp only [hsta]
      exact .pure ⟨rfl, hended .failed rfl⟩
    | blocked =>
      simp only [hsta]
      exact .pure ⟨rfl, hended .blocked rfl⟩

theorem leads_settleExecution (taken : EnvironmentRecord) (id : String)
    (executed : Except String (List Outcome)) :
    Leads exec J (settleExecution rec index taken id executed)
      (fun next t => t = w ∧ ForwardMove w (w.storeWave next)) w := by
  cases executed with
  | ok outcomes => exact leads_capturePlanEvidence hw h taken id outcomes
  | error message => exact leads_recordExecuteError hw h taken id message

include hJ

theorem leads_resumeExistingPlan :
    Leads exec J (resumeExistingPlan rec index environment) (fun next t => next = none → t = w) w :=
      by
  unfold resumeExistingPlan
  cases environment.planId with
  | none => exact .pure fun _ => rfl
  | some planId =>
    refine .bind (leads_loadPlan hw planId) ?_
    rintro plan t ⟨rfl, -⟩
    have hended : Leads exec J (do
        persist (settleStatus (rec.noteEvidence index (endedEvidence plan)) environment.order
          (endedEvidence plan).status)
        return some (settleStatus (rec.noteEvidence index (endedEvidence plan))
          environment.order (endedEvidence plan).status))
        (fun next u => next = none → u = t) t := by
      refine .bind (leads_persist_move hJ hw (.ended h
        (by constructor <;> exact fun _ => rfl) (endedEvidence_isEnded plan)
        rec.currentOrder environment.order)) ?_
      intro _ u _
      exact .pure (by simp)
    cases plan.state with
    | succeeded | failed | blocked => exact hended
    | running =>
      refine .bind (leads_persist_move hJ hw (.marked h
        (by constructor <;> exact fun _ => rfl) (.inl rfl) (.inr (.inr rfl)))) ?_
      intro _ u _
      exact .pure (by simp)
    | computed => exact .pure fun _ => rfl

theorem leads_loadOrCreatePlan : Leads exec J (loadOrCreatePlan environment) (fun plan t => J t ∧
      Pending t rec index environment ∧
      t.plans plan.id = some plan ∧ (environment.planId = none ∧
      Planned environment.environment plan ∨ environment.planId = some plan.id)) w := by
  unfold loadOrCreatePlan
  cases hpid : environment.planId with
  | some planId =>
    refine .of_along (along_loadPlan hw planId) ?_
    rintro plan t ⟨rfl, hfd⟩
    have hst := hfd plan rfl
    obtain rfl := t.plans.keyed planId plan hst
    exact ⟨hw, h, hst, .inr rfl⟩
  | none =>
    have hput : ∀ plan, Planned environment.environment plan → w.Admits plan → J (w.putPlan plan) :=
      fun plan hplan hadm => hJ w _ hw (.created h hplan hadm)
    refine .of_along (along_createPlan hw _ hput) ?_
    intro plan t ht
    obtain ⟨rfl, hplan, hadm⟩ := ht plan rfl
    refine ⟨hput plan hplan hadm, h.plans rfl, ?_, .inl ⟨rfl, hplan⟩⟩
    simp [World.putPlan]

theorem leads_pendingPlan : Leads exec J (pendingPlan rec index environment)
      (fun found t => J t ∧ isRollback found.2 = false ∧ t.plans found.2.id = some found.2 ∧
        ∃ taken, Pending t found.1 index taken ∧ taken.planId = some found.2.id) w := by
  refine .bind (leads_loadOrCreatePlan hJ hw h) ?_
  rintro plan t ⟨ht, hpend, hfd, hplan⟩
  refine .bind (.bailIf _) ?_
  rintro _ t ⟨rfl, hfwd⟩
  rw [Bool.not_eq_true] at hfwd
  refine .bind (leads_planPinsWave plan rec) ?_
  rintro _ t rfl
  rcases hplan with ⟨hnone, hpl⟩ | hsome
  · rw [hnone]
    refine .bind (leads_persist_move hJ ht (.planned hpend hfd hpl hfwd)) ?_
    rintro _ u ⟨rfl, hu⟩
    refine .pure ⟨hu, hfwd, hfd, _, hpend.update rfl rfl hpend.active rfl, rfl⟩
  · rw [hsome]
    exact .pure ⟨ht, hfwd, hfd, environment, hpend, hsome⟩

theorem leads_executePending {plan : Plan} (hplan : environment.planId = some plan.id)
    (hfd : w.plans plan.id = some plan) (hfwd : isRollback plan = false)
    (auth : Authorization) (taken : EnvironmentRecord) :
    Leads exec J (executePending auth rec index taken plan) (fun _ _ => True) w := by
  refine .bind (.bailIf _) ?_
  rintro _ t ⟨rfl, -⟩
  refine .bind (leads_authorizePlan hw auth _ _) ?_
  rintro authorized t rfl
  cases authorized with
  | false =>
    refine .bind (leads_persist_move hJ hw (.marked h
      (by constructor <;> exact fun _ => rfl) (.inr rfl) (.inr (.inl rfl)))) ?_
    intro _ _ _
    exact .pure trivial
  | true =>
    refine .bind (leads_decide hw _) ?_
    rintro _ t rfl
    refine .bind (leads_persist_move hJ hw (.marked h
      (by constructor <;> exact fun _ => rfl) (.inl rfl) (.inl rfl))) ?_
    rintro _ u ⟨hu, hinv⟩
    subst hu
    let running : Record := { rec.modify index fun environment =>
      { environment with status := .running } with status := .running }
    have hrun : Pending (t.storeWave running) running index
        { environment with status := .running } :=
      h.update (f := fun environment => { environment with status := .running }) rfl rfl rfl rfl
    have hexd : ∀ ending, J ((t.storeWave running).executed index plan.id plan ending) :=
      fun ending => hJ _ _ hinv (.executed hrun hplan hfd hfwd ending)
    refine .bind (R := fun _ u => J u ∧ u.wave = some running) ?_ ?_
    · refine .caught ((along_executePlan hinv index plan.id ?_).mono ?_)
      · intro stored ending hst _
        obtain rfl : plan = stored := Option.some.inj (hfd.symm.trans hst)
        exact hexd ending
      · rintro r u (⟨rfl, -⟩ | ⟨stored, ending, hst, -, rfl, -⟩)
        · exact ⟨hinv, rfl⟩
        · obtain rfl : plan = stored := Option.some.inj (hfd.symm.trans hst)
          exact ⟨hexd ending, rfl⟩
    · rintro executed u ⟨hu, hwave⟩
      refine .bind (leads_settleExecution hu (hrun.plans hwave) taken plan.id executed) ?_
      rintro _ u ⟨rfl, hmove⟩
      refine .bind (leads_persist_move hJ hu hmove) ?_
      intro _ _ _
      exact .pure trivial

theorem leads_advancePending (auth : Authorization) :
    Leads exec J (advancePending auth rec index environment) (fun _ _ => True) w := by
  refine .bind (leads_resumeExistingPlan hJ hw h) ?_
  intro next t ht
  cases next with
  | some next => exact .pure trivial
  | none =>
    obtain rfl := ht rfl
    refine .bind (leads_decide hw _) ?_
    rintro _ t rfl
    refine .bind (leads_pendingPlan hJ hw h) ?_
    rintro ⟨_, _⟩ t ⟨ht, hfwd, hfd, _, hpend, hplan⟩
    exact leads_executePending hJ ht hpend hplan hfd hfwd auth environment

end Pending

theorem leads_resumeStopped (hJ : Kept J) (hw : J w) (hst : w.wave = some rec) :
    Leads exec J (resumeStopped rec) (fun next t => J t ∧ t.wave = some next) w := by
  by_cases hstop : rec.status = .stopped
  · simp only [resumeStopped, if_pos hstop]
    refine .bind (leads_persist_move hJ hw (.resumed hst hstop)) ?_
    rintro _ t ⟨rfl, ht⟩
    exact .pure ⟨ht, rfl⟩
  · simp only [resumeStopped, if_neg hstop]
    exact .pure ⟨hw, hst⟩

theorem leads_advance (hJ : Kept J) (hw : J w) (auth : Authorization) :
    Leads exec J (advance auth) (fun _ _ => True) w := by
  refine .bind (leads_loadWave hw) ?_
  rintro _ t ⟨rfl, hst⟩
  refine .bind (leads_resumeStopped hJ hw hst) ?_
  rintro r t ⟨ht, hst⟩
  by_cases hterm : r.status.isTerminal
  · simp only [if_pos hterm]
    exact .pure trivial
  · simp only [if_neg hterm]
    rw [Bool.not_eq_true] at hterm
    cases hpend : r.pending with
    | some found =>
      obtain ⟨k, env⟩ := found
      obtain ⟨hfd, hinc, hbef⟩ := Record.pending_spec hpend
      exact leads_advancePending hJ ht ⟨hst, hterm, hfd, hinc, hbef⟩ auth
    | none =>
      refine .bind (leads_persist_move hJ ht (.refreshed hst hterm (Record.pending_none hpend))) ?_
      intro _ _ _
      exact .pure trivial

theorem leads_stopWave (hw : J w) (hstop : ∀ r, w.wave = some r → r.status.isTerminal = false →
      J (w.storeWave { r with status := .stopped, operatorDecision := some "stop" })) :
    Leads exec J stopWave (fun _ _ => True) w := by
  refine .bind (leads_loadWave hw) ?_
  rintro r t ⟨rfl, hst⟩
  have hpersist : r.status.isTerminal = false → Leads exec J (do
      persist { r with status := .stopped, operatorDecision := some "stop" }
      return { r with status := .stopped, operatorDecision := some "stop" })
      (fun _ _ => True) t := by
    intro hactv
    refine .bind (leads_persist hw (hstop r hst hactv)) ?_
    intro _ _ _
    exact .pure trivial
  cases hstat : r.status with
  | rolledBack | recoveryRequired | succeeded | failed => exact .pure trivial
  | admitted | running | awaitingApproval | stopped | rollingBack =>
    exact hpersist (by rw [hstat]; rfl)

end Forward

/-- A call of the wave other than a rollback, or a plan changed outside the wave. -/
def Call.isForward : Call → Bool
  | .rollbackWave _ => false
  | _ => true

/-- What every move keeps, every forward call keeps. -/
theorem along_forward {J : World → Prop} (hJ : Kept J) {call : Call} (hcall : call.isForward)
    (hw : J w)
    (houtside : ∀ id state t, call = .changePlan id state → OutsideMove w id state t → J t) :
    Along exec J call.program (fun _ _ => True) w := by
  cases call with
  | startOrResume spec =>
    refine along_program (leads_startOrResume hw spec ?_)
    intro pin hnone hdist
    exact hJ w _ hw (.admitted spec pin hnone hdist)
  | advance auth => exact along_program (leads_advance hJ hw auth)
  | stopWave =>
    exact along_program (leads_stopWave hw fun r hst hactv => hJ w _ hw (.stopped hst hactv))
  | rollbackWave auth => cases hcall
  | changePlan id state =>
    refine .bind (along_changePlan hw id state ?_ ?_) fun _ _ _ => trivial
    · intro plan hfd hrecd hchgd
      exact houtside id state _ rfl (.recorded hfd hrecd hchgd)
    · intro plan hfd hunrelated
      exact houtside id state _ rfl (.unrelated hfd hunrelated)

/-! ### Rollback -/

/-- The stored record is rolling back, and the environment at `index` is taken up. -/
structure Rolling (w : World) (record : Record) (index : Nat) (environment : EnvironmentRecord) :
    Prop where
  stored : w.wave = some record
  rolling : record.status = .rollingBack
  found : record.environments[index]? = some environment

/-- A change of an environment's record when its rollback cannot go on: it is not rolled
    back by that. -/
structure Halts (f : EnvironmentRecord → EnvironmentRecord) : Prop where
  environment : ∀ e, (f e).environment = e.environment
  planId : ∀ e, (f e).planId = e.planId
  status : ∀ e, (f e).status = e.status ∨ (f e).status ≠ .rolledBack

/-- What a rollback does before it stores the wave as rolled back. -/
inductive RollbackMove (w : World) : World → Prop
  | begun {record : Record} (hstored : w.wave = some record) :
      RollbackMove w (w.storeWave
        { record with status := .rollingBack, operatorDecision := some "rollback" })
  /-- The environment was waiting for a forward plan. -/
  | skipped {record : Record} {index : Nat} {environment : EnvironmentRecord}
      (h : Rolling w record index environment) {f : EnvironmentRecord → EnvironmentRecord}
      (hf : Marks f .skipped) :
      RollbackMove w (w.storeWave (record.modify index f))
  | created {record : Record} {index : Nat} {environment : EnvironmentRecord}
      (h : Rolling w record index environment) {plan : Plan}
      (hplanned : Planned environment.environment plan) (hrollback : isRollback plan)
      (hadmits : w.Admits plan) :
      RollbackMove w (w.putPlan plan)
  | planned {record : Record} {index : Nat} {environment : EnvironmentRecord}
      (h : Rolling w record index environment) {plan : Plan}
      (hfound : w.plans plan.id = some plan)
      (hplanned : Planned environment.environment plan) (hrollback : isRollback plan) :
      RollbackMove w (w.storeWave (record.modify index fun environment =>
        { environment with planId := some plan.id }))
  | executed {record : Record} {index : Nat} {environment : EnvironmentRecord}
      (h : Rolling w record index environment) {plan : Plan}
      (hplan : environment.planId = some plan.id) (hfound : w.plans plan.id = some plan)
      (hrollback : isRollback plan) (ending : Ending) :
      RollbackMove w (w.executed index plan.id plan ending)
  /-- The recorded rollback plan has succeeded. -/
  | rolledBack {record : Record} {index : Nat} {environment : EnvironmentRecord}
      (h : Rolling w record index environment) {f : EnvironmentRecord → EnvironmentRecord}
      (hf : Marks f .rolledBack) {plan : Plan} (hplan : environment.planId = some plan.id)
      (hfound : w.plans plan.id = some plan) (hrollback : isRollback plan)
      (hsucceeded : plan.state = .succeeded) :
      RollbackMove w (w.storeWave (record.modify index f))
  /-- The rollback ends here: an operator has to recover or to approve. -/
  | halted {record : Record} {index : Nat} {environment : EnvironmentRecord}
      (h : Rolling w record index environment) {f : EnvironmentRecord → EnvironmentRecord}
      (hf : Halts f) {status : Status}
      (hstatus : status = .recoveryRequired ∨ status = .awaitingApproval) :
      RollbackMove w (w.storeWave { record.modify index f with status })

def KeptBack (J : World → Prop) : Prop := ∀ w t, J w → RollbackMove w t → J t

/-- `next` differs from `record` at `index` only. -/
def Record.SameOff (record next : Record) (index : Nat) : Prop :=
  ∀ j, j ≠ index → next.environments[j]? = record.environments[j]?

theorem Record.sameOff_modify (r : Record) (index : Nat)
    (f : EnvironmentRecord → EnvironmentRecord) : r.SameOff (r.modify index f) index := by
  intro j hj
  rw [Record.getElem?_modify]
  simp [Ne.symm hj]

theorem Record.SameOff.trans {first second third : Record} (h : first.SameOff second index)
    (h' : second.SameOff third index) : first.SameOff third index :=
  fun j hj => (h' j hj).trans (h j hj)

/-- The environment at `index` is dealt with: rolled back, or skipped because it was
    waiting for a forward plan. -/
structure Processed (w : World) (record : Record) (index : Nat) (environment : EnvironmentRecord)
    (next : Record) : Prop where
  same : record.SameOff next index
  done : ∃ after, next.environments[index]? = some after ∧
    after.environment = environment.environment ∧
    (after.status = .rolledBack ∨ environment.status = .awaitingApproval ∧
      ∃ id plan, environment.planId = some id ∧ w.plans id = some plan ∧ isRollback plan = false)

section Rollback

variable {J : World → Prop} {w : World} {rec : Record} {index : Nat}
  {environment : EnvironmentRecord}

theorem Rolling.found_modify (h : Rolling w rec index environment)
    (f : EnvironmentRecord → EnvironmentRecord) :
    (rec.modify index f).environments[index]? = some (f environment) := by
  rw [Record.getElem?_modify, h.found]
  simp

theorem leads_persist_back (hJ : KeptBack J) (hw : J w) {next : Record}
    (hmove : RollbackMove w (w.storeWave next)) :
    Leads exec J (persist next) (fun _ t => t = w.storeWave next ∧ J t) w := by
  have hnext := hJ w _ hw hmove
  refine .of_along (along_persist hw hnext) ?_
  intro _ t ht
  obtain rfl := ht rfl
  exact ⟨rfl, hnext⟩

/-- What `rollback_locked` knows once it chose what to do about an environment. -/
def Chosen (J : World → Prop) (w : World) (record : Record) (index : Nat)
    (environment : EnvironmentRecord) : RollbackChoice → World → Prop
  | .halt _, _ => True
  | .next next, t => J t ∧ t.wave = some next ∧ next.status = .rollingBack ∧
      Processed w record index environment next
  | .execute next plan, t => J t ∧ isRollback plan ∧ t.plans plan.id = some plan ∧
      record.SameOff next index ∧
      ∃ taken, Rolling t next index taken ∧ taken.planId = some plan.id ∧
        taken.environment = environment.environment

theorem leads_createRollbackPlan (hJ : KeptBack J) (hw : J w)
    (h : Rolling w rec index environment) :
    Leads exec J (createRollbackPlan rec index environment) (Chosen J w rec index environment) w :=
      by
  refine .bind (.caught (along_rollbackStep hw _ _)) ?_
  rintro found t ⟨rfl, hstep⟩
  cases found with
  | error message =>
    refine .bind (leads_persist_back hJ hw (.halted h
      (by exact ⟨fun _ => rfl, fun _ => rfl, fun _ => .inl rfl⟩) (.inl rfl))) ?_
    intro _ _ _
    exact .pure trivial
  | ok step =>
    have hput : ∀ plan, Planned environment.environment plan → isRollback plan →
        t.Admits plan → J (t.putPlan plan) :=
      fun plan hplan hback hadm => hJ t _ hw (.created h hplan hback hadm)
    refine .bind (.of_along (along_createFromSteps hw _ (hstep step rfl) hput)
      fun plan u hu => hu plan rfl) ?_
    rintro plan u ⟨rfl, hplan, hback, hadm⟩
    have hfd : (t.putPlan plan).plans plan.id = some plan := by simp [World.putPlan]
    have hcrt : Rolling (t.putPlan plan) rec index environment := ⟨h.stored, h.rolling, h.found⟩
    refine .bind (leads_persist_back hJ (hput plan hplan hback hadm)
      (.planned hcrt hfd hplan hback)) ?_
    rintro _ u ⟨rfl, hu⟩
    exact .pure ⟨hu, hback, hfd, rec.sameOff_modify index _, _,
      ⟨rfl, h.rolling, h.found_modify _⟩, rfl, rfl⟩

theorem leads_rollbackPlan (hJ : KeptBack J) (hw : J w) (h : Rolling w rec index environment) :
    Leads exec J (rollbackPlan rec index environment) (Chosen J w rec index environment) w := by
  unfold rollbackPlan
  by_cases hwait : environment.status = .awaitingApproval
  · simp only [if_pos hwait]
    cases hpid : environment.planId with
    | none => exact .throw _
    | some planId =>
      refine .bind (leads_loadPlan hw planId) ?_
      rintro loaded t ⟨rfl, hfd⟩
      by_cases hback : isRollback loaded
      · simp only [if_pos hback]
        obtain rfl := t.plans.keyed planId loaded hfd
        exact .pure ⟨hw, hback, hfd, fun _ _ => rfl, environment, h, hpid, rfl⟩
      · simp only [if_neg hback]
        refine .bind (leads_persist_back hJ hw (.skipped h
          (by constructor <;> exact fun _ => rfl))) ?_
        rintro _ u ⟨rfl, hu⟩
        rw [Bool.not_eq_true] at hback
        exact .pure ⟨hu, rfl, h.rolling, rec.sameOff_modify index _, _,
          h.found_modify _, rfl, .inr ⟨hwait, planId, loaded, hpid, hfd, hback⟩⟩
  · simp only [if_neg hwait]
    cases hpid : environment.planId with
    | none => exact leads_createRollbackPlan hJ hw h
    | some planId =>
      refine .bind (.caught (along_loadPlan hw planId)) ?_
      rintro found t ⟨rfl, hload⟩
      cases found with
      | error _ => exact leads_createRollbackPlan hJ hw h
      | ok existing =>
        have hfd := hload existing rfl
        obtain rfl := t.plans.keyed planId existing hfd
        by_cases hback : isRollback existing
        · simp only [if_pos hback]
          have hexecute : Chosen J t rec index environment (.execute rec existing) t :=
            ⟨hw, hback, hfd, fun _ _ => rfl, environment, h, hpid, rfl⟩
          have hhalt : ∀ detail, Leads exec J (do
              persist { rec.modify index fun environment =>
                { environment with detail } with status := .recoveryRequired }
              return .halt { rec.modify index fun environment =>
                { environment with detail } with status := .recoveryRequired })
              (Chosen J t rec index environment) t := by
            intro detail
            refine .bind (leads_persist_back hJ hw (.halted h
              (by exact ⟨fun _ => rfl, fun _ => rfl, fun _ => .inl rfl⟩) (.inl rfl))) ?_
            intro _ _ _
            exact .pure trivial
          cases hsta : existing.state with
          | succeeded =>
            refine .bind (leads_persist_back hJ hw (.rolledBack h
              (by constructor <;> exact fun _ => rfl) hpid hfd hback hsta)) ?_
            rintro _ u ⟨rfl, hu⟩
            exact .pure ⟨hu, rfl, h.rolling, rec.sameOff_modify index _, _,
              h.found_modify _, rfl, .inl rfl⟩
          | computed | blocked => exact .pure hexecute
          | running | failed => exact hhalt _
        · simp only [if_neg hback]
          exact leads_createRollbackPlan hJ hw h

/-- The result of one rollback plan: the environment is rolled back, or the rollback ends. -/
def RolledBackAt (J : World → Prop) (record : Record) (index : Nat)
    (environment : EnvironmentRecord) : Record ⊕ Record → World → Prop
  | .inl next, t => J t ∧ t.wave = some next ∧ next.status = .rollingBack ∧
      record.SameOff next index ∧
      ∃ after, next.environments[index]? = some after ∧
        after.environment = environment.environment ∧ after.status = .rolledBack
  | .inr _, _ => True

theorem leads_executeRollback (hJ : KeptBack J) (hw : J w) (h : Rolling w rec index environment)
    {plan : Plan} (hplan : environment.planId = some plan.id) (hfd : w.plans plan.id = some plan)
    (hback : isRollback plan) (auth : Authorization) (taken : EnvironmentRecord) :
    Leads exec J (executeRollback auth rec index taken plan)
      (RolledBackAt J rec index environment) w := by
  refine .bind (leads_authorizePlan hw auth _ _) ?_
  rintro authorized t rfl
  cases authorized with
  | false =>
    refine .bind (leads_persist_back hJ hw (.halted h
      (by exact ⟨fun _ => rfl, fun _ => rfl, fun _ => .inr (by simp)⟩) (.inr rfl))) ?_
    intro _ _ _
    exact .pure trivial
  | true =>
    refine .bind (leads_decide hw _) ?_
    rintro _ t rfl
    have hexd : ∀ ending, J (t.executed index plan.id plan ending) :=
      fun ending => hJ t _ hw (.executed h hplan hfd hback ending)
    -- an execution leaves the plan as it ended; without one there is an error
    refine .bind (R := fun r u => J u ∧ u.wave = some rec ∧
      ∀ outcomes, r = .ok outcomes → ∃ ending, u = t.executed index plan.id plan ending)
      ?_ ?_
    · refine .caught ((along_executePlan hw index plan.id ?_).mono ?_)
      · intro stored ending hst _
        obtain rfl : plan = stored := Option.some.inj (hfd.symm.trans hst)
        exact hexd ending
      · rintro r u (⟨rfl, message, rfl⟩ | ⟨stored, ending, hst, -, rfl, -⟩)
        · exact ⟨hw, h.stored, nofun⟩
        · obtain rfl : plan = stored := Option.some.inj (hfd.symm.trans hst)
          exact ⟨hexd ending, h.stored, fun _ _ => ⟨ending, rfl⟩⟩
    · rintro r u ⟨hu, hwave, hr⟩
      have hroll : Rolling u rec index environment := ⟨hwave, h.rolling, h.found⟩
      cases r with
      | error message =>
        refine .bind (leads_persist_back hJ hu (.halted hroll
          (by exact ⟨fun _ => rfl, fun _ => rfl, fun _ => .inl rfl⟩) (.inl rfl))) ?_
        intro _ _ _
        exact .throw _
      | ok outcomes =>
        obtain ⟨ending, rfl⟩ := hr outcomes rfl
        refine .bind (leads_loadPlan hu plan.id) ?_
        rintro loaded u ⟨rfl, hload⟩
        have hid := (t.executed index plan.id plan ending).plans.keyed _ _ hload
        obtain ⟨-, hmkd⟩ : loaded.id = plan.id ∧ isRollback loaded := by
          have heq : loaded = { plan with state := ending.state, statusDetail := ending.detail } := by
            simpa [World.executed, World.setPlanState, World.putPlan] using hload.symm
          rw [heq]
          exact ⟨rfl, hback⟩
        cases hevid : evidenceFromOutcomes loaded outcomes with
        | error message => exact .throw _
        | ok ev =>
          by_cases hsucc : loaded.state = .succeeded
          · simp only [if_pos hsucc]
            refine .bind (leads_persist_back hJ hu (.rolledBack hroll
              (by constructor <;> exact fun _ => rfl) (hplan.trans (by rw [hid]))
              (hid ▸ hload) hmkd hsucc)) ?_
            rintro _ u ⟨rfl, hu⟩
            exact .pure ⟨hu, rfl, h.rolling, rec.sameOff_modify index _, _,
              hroll.found_modify _, rfl, rfl⟩
          · simp only [if_neg hsucc]
            have hmark : ev.status ≠ .rolledBack := by
              rw [(evidenceFromOutcomes_status hevid).2]
              cases loaded.state <;> simp [endedStatus]
            refine .bind (leads_persist_back hJ hu (.halted hroll
              (by exact ⟨fun _ => rfl, fun _ => rfl, fun _ => .inr hmark⟩) (.inl rfl))) ?_
            intro _ _ _
            exact .pure trivial

/-- The loop of a rollback keeps `P` of the targets still to come. -/
structure KeptTargets (J : World → Prop) (P : List Nat → Record → Prop) : Prop where
  gone : ∀ index targets record, P (index :: targets) record →
    record.environments[index]? = none → P targets record
  next : ∀ w index targets record environment next, J w → Rolling w record index environment →
    P (index :: targets) record → Processed w record index environment next → P targets next
  finish : ∀ w record, J w → w.wave = some record → record.status = .rollingBack → P [] record →
    J (w.storeWave { record with status := .rolledBack })

theorem leads_rollbackTargets (hJ : KeptBack J) {P : List Nat → Record → Prop}
    (hkept : KeptTargets J P) (auth : Authorization) (targets : List Nat) (hw : J w)
    (hst : w.wave = some rec) (hroll : rec.status = .rollingBack) (hP : P targets rec) :
    Leads exec J (rollbackTargets auth targets rec) (fun _ _ => True) w := by
  induction targets generalizing rec w with
  | nil =>
    refine .bind (leads_persist hw (hkept.finish w rec hw hst hroll hP)) ?_
    intro _ _ _
    exact .pure trivial
  | cons index targets ih =>
    unfold rollbackTargets
    cases hfd : rec.environments[index]? with
    | none => exact ih hw hst hroll (hkept.gone index targets rec hP hfd)
    | some environment =>
      have h : Rolling w rec index environment := ⟨hst, hroll, hfd⟩
      refine .bind (leads_rollbackPlan hJ hw h) ?_
      intro choice t hchosen
      cases choice with
      | halt halted => exact .pure trivial
      | next next =>
        obtain ⟨ht, hst, hroll, hprocd⟩ := hchosen
        exact ih ht hst hroll (hkept.next w index targets rec environment next hw h hP hprocd)
      | execute next plan =>
        obtain ⟨ht, hback, hplan, hsame, taken, htaken, hrecd, hname⟩ := hchosen
        refine .bind (leads_executeRollback hJ ht htaken hrecd hplan hback auth environment) ?_
        intro result u hres
        cases result with
        | inr halted => exact .pure trivial
        | inl after =>
          obtain ⟨hu, hst, hroll, hsame', done, hdone, hname', hstat⟩ := hres
          exact ih hu hst hroll (hkept.next w index targets rec environment after
            hw h hP ⟨hsame.trans hsame', done, hdone, hname'.trans hname, .inl hstat⟩)

theorem leads_rollbackWave (hJ : KeptBack J) {P : List Nat → Record → Prop}
    (hkept : KeptTargets J P) (auth : Authorization) (hw : J w)
    (hsta : ∀ r, w.wave = some r → r.status ≠ .rolledBack →
      P r.rollbackTargets { r with status := .rollingBack, operatorDecision := some "rollback" }) :
    Leads exec J (rollbackWave auth) (fun _ _ => True) w := by
  refine .bind (leads_loadWave hw) ?_
  rintro loaded t ⟨rfl, hst⟩
  by_cases hdone : loaded.status = .rolledBack
  · simp only [if_pos hdone]
    exact .pure trivial
  · simp only [if_neg hdone]
    refine .bind (leads_persist_back hJ hw (.begun hst)) ?_
    rintro _ u ⟨rfl, hu⟩
    exact leads_rollbackTargets hJ hkept auth _ hu rfl rfl (hsta loaded hst hdone)

end Rollback

end Tenkai.Wave
