import Tenkai.WaveMoves

/-!
# No way forward once a wave rolls back

An advance after a rollback that ended early derives what to do from the statuses alone: it may
execute the next forward plan, or store the wave as succeeded. `standsStill` says when it does
neither.
-/

namespace Tenkai.Wave

open M Prog

/-! ### When an advance stands still -/

/-- What keeps a wave from being stored as succeeded. -/
def EnvironmentRecord.hinders (e : EnvironmentRecord) : Bool :=
  !e.status.isComplete || e.status.isFailure

/-- Whether an advance from this record neither executes a forward plan nor stores the
    wave as succeeded: by the plan of the environment that is next. -/
def standsStill (plans : Plans) (record : Record) : Bool :=
  match record.pending with
  | none => record.environments.any (·.hinders)
  | some (index, environment) =>
    match environment.planId with
    | none => false
    | some id =>
      match plans id with
      | none => true
      | some plan =>
        match plan.state with
        | .running | .failed | .blocked => true
        | .computed => isRollback plan
        | .succeeded => (record.environments.eraseIdx index).any (·.hinders)

variable {record : Record}

theorem refreshWaveStatus_ne_succeeded (hstat : record.status ≠ .succeeded)
    (h : record.environments.any (·.hinders)) : (refreshWaveStatus record).status ≠ .succeeded := by
  unfold refreshWaveStatus
  split
  · exact hstat
  · split
    · simp
    · split
      next hcpl =>
        split
        · simp
        next hfine =>
          -- nothing hinders when all are complete and none failed
          exfalso
          obtain ⟨e, hmem, hhinders⟩ := List.any_eq_true.mp h
          have hdone := List.all_eq_true.mp hcpl e hmem
          have hgood : e.status.isFailure = false := by
            simpa using List.any_eq_false.mp (by simpa using hfine) e hmem
          simp [EnvironmentRecord.hinders, hdone, hgood] at hhinders
      · simp

theorem applyFailPolicy_ne_succeeded (r : Record) (order : Nat) :
    (applyFailPolicy r order).status ≠ .succeeded := by
  unfold applyFailPolicy
  split
  · simp
  · split <;> simp

/-- The others still hinder once the environment at `index` has succeeded. -/
theorem hinders_modify {k : Nat} (h : (record.environments.eraseIdx k).any (·.hinders))
    (f : EnvironmentRecord → EnvironmentRecord) :
    (record.modify k f).environments.any (·.hinders) := by
  obtain ⟨e, hmem, hhinders⟩ := List.any_eq_true.mp h
  obtain ⟨j, hj, hfd⟩ := List.mem_eraseIdx_iff_getElem?.mp hmem
  refine List.any_eq_true.mpr ⟨e, ?_, hhinders⟩
  have hfd' : (record.modify k f).environments[j]? = some e := by
    rw [Record.getElem?_modify, hfd]
    simp [Ne.symm hj]
  exact List.mem_of_getElem? hfd'

/-! ### What is kept -/

/-- A rollback was begun: since the executions `base`, only rollback plans were executed,
    and the wave is not stored as succeeded. -/
structure Withdrawing (base : List Execution) (w : World) : Prop where
  begun : w.rollbackBegun = true
  status : ∀ record, w.wave = some record → record.status ≠ .succeeded
  executions : ∃ more, w.executions = base ++ more ∧ ∀ x ∈ more, x.rollback = true

/-- No rollback was begun. -/
structure Undecided (w : World) : Prop where
  begun : w.rollbackBegun = false
  status : ∀ record, w.wave = some record → record.status ≠ .rollingBack

section Withdrawing

variable {base : List Execution} {w : World} {record : Record}

theorem Withdrawing.store (h : Withdrawing base w) {next : Record}
    (hstat : next.status ≠ .succeeded) : Withdrawing base (w.storeWave next) := by
  refine ⟨?_, ?_, h.executions⟩
  · simp [World.storeWave, h.begun]
  · rintro _ ⟨⟩
    exact hstat

theorem withdrawing_keptBack (base : List Execution) : KeptBack (Withdrawing base) := by
  intro w t h hmove
  have hroll : ∀ {r : Record}, r.status = .rollingBack → r.status ≠ .succeeded := by
    intro r hroll
    rw [hroll]
    simp
  cases hmove with
  | begun hst => exact h.store (by simp)
  | skipped hback hf => exact h.store (hroll hback.rolling)
  | created hback hpl hrollback hadm => exact ⟨h.begun, h.status, h.executions⟩
  | planned hback hfd hpl hrollback => exact h.store (hroll hback.rolling)
  | @executed _ k _ hback plan hplan hfd hrollback ending =>
    obtain ⟨more, hmore, hall⟩ := h.executions
    obtain ⟨last, hlast, hlastRollback⟩ :
        ∃ x, (w.executed k plan.id plan ending).executions = w.executions ++ [x] ∧
          x.rollback = isRollback plan := ⟨_, rfl, rfl⟩
    refine ⟨h.begun, h.status, more ++ [last], ?_, ?_⟩
    · rw [hlast, hmore, List.append_assoc]
    · intro x hx
      rcases List.mem_append.mp hx with hx | hx
      · exact hall x hx
      · rw [List.mem_singleton.mp hx]
        exact hlastRollback.trans hrollback
  | rolledBack hback hf hplan hfd hrollback hsucc => exact h.store (hroll hback.rolling)
  | halted hback hf hstat =>
    refine h.store ?_
    rcases hstat with rfl | rfl <;> simp

theorem leads_persist_withdrawing (h : Withdrawing base w) {next : Record}
    (hstat : next.status ≠ .succeeded) :
    Leads exec (Withdrawing base) (persist next) (fun _ t => t = w.storeWave next) w :=
  leads_persist h (h.store hstat)

theorem leads_resume_still (h : Withdrawing base w) (hst : w.wave = some record)
    (hstill : record.status.isTerminal || standsStill w.plans record) :
    Leads exec (Withdrawing base) (resumeStopped record)
      (fun next t => Withdrawing base t ∧ t.wave = some next ∧
        (next.status.isTerminal || standsStill t.plans next)) w := by
  by_cases hstop : record.status = .stopped
  · simp only [resumeStopped, if_pos hstop]
    refine .bind (leads_persist_withdrawing h (by simp)) ?_
    rintro _ t rfl
    have hstill : standsStill w.plans record := by simpa [hstop, Status.isTerminal] using hstill
    exact .pure ⟨h.store (by simp), rfl, Bool.or_eq_true_iff.mpr (.inr hstill)⟩
  · simp only [resumeStopped, if_neg hstop]
    exact .pure ⟨h, hst, hstill⟩

/-- The recorded plan of the environment taken up is noted, or it is a rollback plan still
    to be executed. -/
theorem leads_resumeExistingPlan_still (h : Withdrawing base w) (hst : w.wave = some record)
    {k : Nat} {env : EnvironmentRecord}
    (hpend : record.pending = some (k, env)) (hstill : standsStill w.plans record) :
    Leads exec (Withdrawing base) (resumeExistingPlan record k env) (fun next t => next = none →
      t = w ∧ ∃ id plan, env.planId = some id ∧ w.plans id = some plan ∧ isRollback plan) w := by
  unfold standsStill at hstill
  simp only [hpend] at hstill
  unfold resumeExistingPlan
  cases hpid : env.planId with
  | none => simp [hpid] at hstill
  | some id =>
    refine .bind (leads_loadPlan h id) ?_
    rintro plan t ⟨rfl, hplan⟩
    simp only [hpid, hplan] at hstill
    have hended : (plan.state = .succeeded → (record.environments.eraseIdx k).any (·.hinders)) →
        Leads exec (Withdrawing base) (do
          persist (settleStatus (record.noteEvidence k (endedEvidence plan))
            env.order (endedEvidence plan).status)
          return some (settleStatus (record.noteEvidence k (endedEvidence plan))
            env.order (endedEvidence plan).status))
          (fun next _ => next ≠ none) t := by
      intro hothers
      refine .bind (leads_persist_withdrawing h ?_) ?_
      · unfold settleStatus
        split
        · exact applyFailPolicy_ne_succeeded _ _
        next hfine =>
          have hsucc : plan.state = .succeeded := by
            rw [endedEvidence_status] at hfine
            cases hsta : plan.state <;>
              simp [hsta, endedStatus, EnvironmentStatus.isFailure] at hfine ⊢
          exact refreshWaveStatus_ne_succeeded (h.status record hst)
            (hinders_modify (hothers hsucc) _)
      · intro _ _ _
        exact .pure (by simp)
    cases hsta : plan.state with
    | succeeded =>
      simp only [hsta] at hstill
      exact Along.mono (hended fun _ => hstill) fun _ _ hnext next hr hnone =>
        absurd hnone (hnext next hr)
    | failed | blocked =>
      exact Along.mono (hended (by simp [hsta])) fun _ _ hnext next hr hnone =>
        absurd hnone (hnext next hr)
    | running =>
      refine .bind (leads_persist_withdrawing h (by simp)) ?_
      intro _ _ _
      exact .pure (by simp)
    | computed =>
      simp only [hsta] at hstill
      exact .pure fun _ => ⟨rfl, id, plan, rfl, hplan, hstill⟩

theorem leads_advancePending_still (h : Withdrawing base w) (hst : w.wave = some record)
    {k : Nat} {env : EnvironmentRecord}
    (hpend : record.pending = some (k, env))
    (hstill : standsStill w.plans record) (auth : Authorization) :
    Leads exec (Withdrawing base) (advancePending auth record k env) (fun _ _ => True) w := by
  refine .bind (leads_resumeExistingPlan_still h hst hpend hstill) ?_
  intro next t hnext
  cases next with
  | some next => exact .pure trivial
  | none =>
    obtain ⟨rfl, id, plan, hpid, hplan, hback⟩ := hnext rfl
    refine .bind (leads_decide h _) ?_
    rintro _ t rfl
    -- the rollback plan is loaded again, and the advance gives up
    have hpendingPlan : Leads exec (Withdrawing base) (pendingPlan record k env)
        (fun _ _ => False) t := by
      unfold pendingPlan loadOrCreatePlan
      simp only [hpid]
      refine .bind (leads_loadPlan h id) ?_
      rintro loaded t ⟨rfl, hload⟩
      obtain rfl : plan = loaded := Option.some.inj (hplan.symm.trans hload)
      refine .bind (.bailIf _) ?_
      rintro _ t ⟨rfl, hfwd⟩
      exact absurd hback hfwd
    exact .bind hpendingPlan fun _ _ hnev => hnev.elim

theorem leads_advance_still (h : Withdrawing base w)
    (hstill : w.wave.all fun record => record.status.isTerminal || standsStill w.plans record)
    (auth : Authorization) : Leads exec (Withdrawing base) (advance auth) (fun _ _ => True) w := by
  refine .bind (leads_loadWave h) ?_
  rintro _ t ⟨rfl, hst⟩
  rw [hst, Option.all_some] at hstill
  refine .bind (leads_resume_still h hst hstill) ?_
  rintro record t ⟨ht, hst, hstill⟩
  by_cases hterm : record.status.isTerminal
  · simp only [if_pos hterm]
    exact .pure trivial
  · simp only [if_neg hterm]
    have hstill : standsStill t.plans record := by simpa [hterm] using hstill
    cases hpend : record.pending with
    | some found =>
      obtain ⟨k, env⟩ := found
      exact leads_advancePending_still ht hst hpend hstill auth
    | none =>
      have hhinders : record.environments.any (·.hinders) := by
        simpa [standsStill, hpend] using hstill
      refine .bind (leads_persist_withdrawing ht
        (refreshWaveStatus_ne_succeeded (ht.status record hst) hhinders)) ?_
      intro _ _ _
      exact .pure trivial

theorem leads_rollbackWave_withdrawing {J : World → Prop} (hJ : KeptBack J) (hw : J w)
    (hfinish : ∀ t r, J t → t.wave = some r → r.status = .rollingBack →
      J (t.storeWave { r with status := .rolledBack })) (auth : Authorization) :
    Leads exec J (rollbackWave auth) (fun _ _ => True) w :=
  leads_rollbackWave hJ ⟨fun _ _ _ _ _ => trivial,
    fun _ _ _ _ _ _ _ _ _ _ => trivial, fun t r ht hst hroll _ =>
      hfinish t r ht hst hroll⟩ auth hw fun _ _ _ => trivial

end Withdrawing

/-! ### Runs -/

/-- The condition on a call, in the state it starts from: once a rollback was begun, an
    advance stands still. -/
def directed (w : World) : Call → Bool
  | .advance _ => !w.rollbackBegun ||
      w.wave.all fun record => record.status.isTerminal || standsStill w.plans record
  | _ => true

theorem along_withdrawing {base : List Execution} {w : World} (h : Withdrawing base w) {call : Call}
    (hdir : directed w call) : Along exec (Withdrawing base) call.program (fun _ _ => True) w := by
  cases call with
  | startOrResume spec =>
    exact along_program (leads_startOrResume h spec fun _ _ _ =>
      h.store (by simp [admittedRecord]))
  | advance auth =>
    refine along_program (leads_advance_still h ?_ auth)
    simpa [directed, h.begun] using hdir
  | stopWave => exact along_program (leads_stopWave h fun _ _ _ => h.store (by simp))
  | rollbackWave auth =>
    exact along_program (leads_rollbackWave_withdrawing (withdrawing_keptBack base) h
      (fun _ _ ht _ _ => ht.store (by simp)) auth)
  | changePlan id state =>
    refine .bind (along_changePlan h id state ?_ ?_) fun _ _ _ => trivial
    · intro plan _ _ _
      exact ⟨h.begun, h.status, h.executions⟩
    · intro plan _ _
      exact ⟨h.begun, h.status, h.executions⟩

def Decided (w : World) : Prop := Undecided w ∨ ∃ base, Withdrawing base w

theorem Undecided.store {w : World} (h : Undecided w) {next : Record}
    (hstat : next.status ≠ .rollingBack) : Undecided (w.storeWave next) := by
  constructor
  · simp [World.storeWave, h.begun, hstat]
  · rintro _ ⟨⟩
    exact hstat

theorem refreshWaveStatus_ne_rollingBack (h : record.status ≠ .rollingBack) :
    (refreshWaveStatus record).status ≠ .rollingBack := by
  unfold refreshWaveStatus
  repeat' split
  · exact h
  all_goals simp

theorem settleStatus_ne_rollingBack (h : record.status ≠ .rollingBack) (order : Nat)
    (mark : EnvironmentStatus) : (settleStatus record order mark).status ≠ .rollingBack := by
  unfold settleStatus applyFailPolicy
  split
  · split
    · simp
    · split <;> simp
  · exact refreshWaveStatus_ne_rollingBack h

/-- A forward call does not begin a rollback. -/
theorem undecided_kept : Kept Undecided := by
  intro w t h hmove
  cases hmove with
  | admitted spec pin hnone hdist => exact h.store (by simp [admittedRecord])
  | resumed | stopped => exact h.store (by simp)
  | refreshed hst hactv hcpl => exact h.store (refreshWaveStatus_ne_rollingBack (h.status _ hst))
  | created hpend hpl hadm => exact ⟨h.begun, h.status⟩
  | @planned r k _ hpend plan =>
    exact h.store (show r.status ≠ .rollingBack from h.status r hpend.stored)
  | marked hpend hf hmark hstat =>
    refine h.store ?_
    rcases hstat with rfl | rfl | rfl <;> simp
  | @ended r k _ hpend f mark hf hmark currentOrder order =>
    exact h.store (settleStatus_ne_rollingBack (by exact h.status r hpend.stored) _ _)
  | executed hpend hplan hfd hfwd ending => exact ⟨h.begun, h.status⟩

theorem decided_keptBack : KeptBack Decided := by
  rintro w t (h | ⟨base, h⟩) hmove
  · have hnev : ∀ {r k env}, Rolling w r k env → False :=
      fun hback => h.status _ hback.stored hback.rolling
    cases hmove with
    | begun hst =>
      refine .inr ⟨w.executions, ?_, ?_, [], ?_, by simp⟩
      · simp [World.storeWave]
      · rintro _ ⟨⟩
        simp
      · simp [World.storeWave]
    | skipped hback => exact (hnev hback).elim
    | created hback => exact (hnev hback).elim
    | planned hback => exact (hnev hback).elim
    | executed hback => exact (hnev hback).elim
    | rolledBack hback => exact (hnev hback).elim
    | halted hback => exact (hnev hback).elim
  · exact .inr ⟨base, withdrawing_keptBack base w t h hmove⟩

theorem along_decided {w : World} {call : Call} (h : Decided w) (hdir : directed w call) :
    Along exec Decided call.program (fun _ _ => True) w := by
  rcases h with hundc | ⟨base, hwithdrawing⟩
  · by_cases hfwd : call.isForward
    · refine (along_forward undecided_kept hfwd hundc ?_).weaken fun _ ht => .inl ht
      intro _ _ t _ hmove
      cases hmove with
      | recorded | unrelated => exact ⟨hundc.begun, hundc.status⟩
    · cases call with
      | rollbackWave auth =>
        refine along_program (leads_rollbackWave_withdrawing decided_keptBack (.inl hundc) ?_ auth)
        rintro t r (ht | ⟨base, ht⟩) hst hroll
        · exact absurd hroll (ht.status r hst)
        · exact .inr ⟨base, ht.store (by simp)⟩
      | startOrResume | advance | stopWave | changePlan => simp [Call.isForward] at hfwd
  · exact (along_withdrawing hwithdrawing hdir).weaken fun _ ht => .inr ⟨base, ht⟩

/-- In a run whose advances stand still once a rollback was begun: after that, every plan
    executed is a rollback, and the wave is never stored as succeeded. -/
theorem rolling_back_never_goes_forward (plans : Plans) (before after : List Turn)
    (hdirected : (World.fresh plans).Admissible directed (before ++ after))
    (hbegun : ((World.fresh plans).run before).rollbackBegun = true) :
    (∃ more, ((World.fresh plans).run (before ++ after)).executions =
        ((World.fresh plans).run before).executions ++ more ∧ ∀ x ∈ more, x.rollback = true) ∧
      ∀ record, ((World.fresh plans).run (before ++ after)).wave = some record →
        record.status ≠ .succeeded := by
  obtain ⟨hbefore, hafter⟩ := World.admissible_append hdirected
  have hdecided : Decided ((World.fresh plans).run before) :=
    World.run_admissible (fun _ _ h hdirected => along_decided h hdirected)
      (.inl ⟨rfl, fun _ hnone => by cases hnone⟩) hbefore
  have hstart : Withdrawing ((World.fresh plans).run before).executions
      ((World.fresh plans).run before) := by
    rcases hdecided with hundecided | ⟨base, hwithdrawing⟩
    · rw [hundecided.begun] at hbegun
      cases hbegun
    · exact ⟨hbegun, hwithdrawing.status, [], by simp, by simp⟩
  have hend := World.run_admissible (fun _ _ h hdirected => along_withdrawing h hdirected)
    hstart hafter
  rw [World.run_append]
  exact ⟨hend.executions, hend.status⟩

/-- A rollback is refused because the environment is not `local`, and left at that. -/
def refusedRollback : List Turn :=
  [Call.ending (.startOrResume (apiSpec ["a", "b"])) .succeeded,
    Call.ending (.advance .signed) .succeeded,
    Call.ending (.rollbackWave .localDevelopment) .succeeded]

/-- The next advance upgrades the second environment, and the wave succeeds. -/
theorem rolling_back_went_forward :
    ((World.fresh noPlans).run refusedRollback).wave.map (·.status) = some .rollingBack ∧
      (((World.fresh noPlans).run refusedRollback).executions.map (·.planId)) = ["upgrade:a"] ∧
      (((World.fresh noPlans).run
        (refusedRollback ++ [Call.ending (.advance .signed) .succeeded])).executions.map fun x =>
          (x.planId, x.rollback)) = [("upgrade:a", false), ("upgrade:b", false)] ∧
      ((World.fresh noPlans).run
        (refusedRollback ++ [Call.ending (.advance .signed) .succeeded])).wave.map (·.status) =
          some .succeeded := by
  decide

/-- A rollback that ran to its end leaves nothing to go forward with. -/
theorem rolling_back_never_goes_forward_done :
    ((World.fresh noPlans).run
        (fullRollback ++ [Call.ending (.advance .signed) .succeeded])).wave.map (·.status) ≠
      some .succeeded := by
  have hnever := (rolling_back_never_goes_forward noPlans fullRollback
    [Call.ending (.advance .signed) .succeeded] (by decide) (by decide)).2
  intro hsucceeded
  obtain ⟨record, hrecord, hstatus⟩ := Option.map_eq_some_iff.mp hsucceeded
  exact hnever record hrecord hstatus

end Tenkai.Wave
