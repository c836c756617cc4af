import Mathlib.Data.List.Nodup
import Tenkai.WaveMoves

/-!
# What a rolled back wave has rolled back

A rollback takes up the environments that are succeeded or wait for approval, and no others. As
long as every rollback finds the environments it has to undo in one of the two statuses, a rolled
back wave has undone all its successes.
-/

namespace Tenkai.Wave

open M

def lastSuccess (successes : List (String × Bool)) (environment : String) : Option Bool :=
  successes.foldl (fun last success => if success.1 = environment then some success.2 else last)
    none

theorem lastSuccess_append (successes : List (String × Bool)) (success : String × Bool)
    (environment : String) :
    lastSuccess (successes ++ [success]) environment =
      if success.1 = environment then some success.2 else lastSuccess successes environment := by
  simp [lastSuccess, List.foldl_append]

/-- What holds of every environment of the stored record. -/
structure Tracks (plans : Plans) (successes : List (String × Bool)) (e : EnvironmentRecord) :
    Prop where
  owned : ∀ id, e.planId = some id →
    ∃ plan, plans id = some plan ∧ plan.environment = e.environment
  rolled : e.status = .rolledBack → lastSuccess successes e.environment = some true ∧
    ∃ id plan, e.planId = some id ∧ plans id = some plan ∧ isRollback plan
  settled : ∀ id plan, e.planId = some id → plans id = some plan → isRollback plan →
    plan.state = .succeeded → lastSuccess successes e.environment = some true

variable {plan : Plan} {w t : World} {record : Record} {environment : EnvironmentRecord}

section Tracks

variable {plans : Plans} {successes : List (String × Bool)} {e : EnvironmentRecord}

theorem Tracks.with_status (h : Tracks plans successes e) {e' : EnvironmentRecord}
    (hname : e'.environment = e.environment) (hplan : e'.planId = e.planId)
    (hstat : e'.status = e.status ∨ e'.status ≠ .rolledBack) : Tracks plans successes e' := by
  refine ⟨?_, ?_, ?_⟩
  · rw [hname, hplan]
    exact h.owned
  · intro hrld
    rw [hname, hplan]
    rcases hstat with hsame | hnev
    · exact h.rolled (hsame ▸ hrld)
    · exact absurd hrld hnev
  · rw [hname, hplan]
    exact h.settled

/-- Storing a plan that is the same plan as before, and no more succeeded than before. -/
theorem Tracks.put (h : Tracks plans successes e) (plan : Plan)
    (hsame : ∀ stored, plans plan.id = some stored → e.planId = some plan.id →
      stored.environment = plan.environment ∧ isRollback stored = isRollback plan ∧
      (plan.state = .succeeded → stored.state = .succeeded)) :
    Tracks (plans.put plan) successes e := by
  -- what is stored now under the recorded id, next to what was
  have hfind : ∀ id found, e.planId = some id → plans.put plan id = some found →
      ∃ stored, plans id = some stored ∧ stored.environment = found.environment ∧
        isRollback stored = isRollback found ∧
        (found.state = .succeeded → stored.state = .succeeded) := by
    intro id found hid hfd
    obtain ⟨stored, hst, -⟩ := h.owned id hid
    rw [Plans.put_apply] at hfd
    by_cases heq : id = plan.id
    · subst heq
      rw [if_pos rfl] at hfd
      cases hfd
      exact ⟨stored, hst, hsame stored hst hid⟩
    · rw [if_neg heq] at hfd
      exact ⟨found, hfd, rfl, rfl, fun hsta => hsta⟩
  have hthere : ∀ id, e.planId = some id → ∃ found, plans.put plan id = some found := by
    intro id hid
    obtain ⟨stored, hst, -⟩ := h.owned id hid
    rw [Plans.put_apply]
    split
    · exact ⟨plan, rfl⟩
    · exact ⟨stored, hst⟩
  refine ⟨?_, ?_, ?_⟩
  · intro id hid
    obtain ⟨found, hfd⟩ := hthere id hid
    obtain ⟨stored, hst, hname, -⟩ := hfind id found hid hfd
    obtain ⟨owner, howner, hown⟩ := h.owned id hid
    obtain rfl : stored = owner := Option.some.inj (hst.symm.trans howner)
    exact ⟨found, hfd, hname ▸ hown⟩
  · intro hrld
    obtain ⟨hlast, id, stored, hid, hst, hback⟩ := h.rolled hrld
    obtain ⟨found, hfd⟩ := hthere id hid
    obtain ⟨stored', hst', -, hsameRollback, -⟩ := hfind id found hid hfd
    obtain rfl : stored = stored' := Option.some.inj (hst.symm.trans hst')
    exact ⟨hlast, id, found, hid, hfd, hsameRollback ▸ hback⟩
  · intro id found hid hfd hback hsucc
    obtain ⟨stored, hst, -, hsameRollback, hsta⟩ := hfind id found hid hfd
    exact h.settled id stored hid hst (hsameRollback ▸ hback) (hsta hsucc)

/-- A plan of the wave comes to a state: its success is the last of its environment. -/
theorem Tracks.setPlanState (h : Tracks w.plans w.successes e)
    (hst : w.plans plan.id = some plan) (state : PlanState) (detail : String)
    (hown : e.environment = plan.environment → e.planId = some plan.id) :
    Tracks (w.setPlanState plan state detail).plans (w.setPlanState plan state detail).successes e
      := by
  have hput : ∀ id, (w.setPlanState plan state detail).plans id =
      if id = plan.id then some { plan with state, statusDetail := detail } else w.plans id :=
    fun id => Plans.put_apply _ _ _
  by_cases hname : e.environment = plan.environment
  · have hid := hown hname
    -- the plan is the recorded one
    have hlast : isRollback plan → state = .succeeded →
        lastSuccess (w.setPlanState plan state detail).successes e.environment = some true := by
      intro hback hsucc
      simp [World.setPlanState, hsucc, lastSuccess_append, hname, hback]
    refine ⟨?_, ?_, ?_⟩
    · intro id hid'
      obtain rfl : plan.id = id := Option.some.inj (hid.symm.trans hid')
      exact ⟨_, (hput plan.id).trans (if_pos rfl), hname.symm⟩
    · intro hrld
      obtain ⟨hbef, id, stored, hid', hst', hback⟩ := h.rolled hrld
      obtain rfl : plan.id = id := Option.some.inj (hid.symm.trans hid')
      obtain rfl : plan = stored := Option.some.inj (hst.symm.trans hst')
      refine ⟨?_, plan.id, _, hid, (hput plan.id).trans (if_pos rfl), hback⟩
      by_cases hsucc : state = .succeeded
      · exact hlast hback hsucc
      · simpa [World.setPlanState, hsucc] using hbef
    · intro id found hid' hfd hback hsucc
      obtain rfl : plan.id = id := Option.some.inj (hid.symm.trans hid')
      rw [hput, if_pos rfl] at hfd
      cases hfd
      exact hlast hback hsucc
  · -- another environment's plan changes nothing here
    have hlast : lastSuccess (w.setPlanState plan state detail).successes e.environment =
        lastSuccess w.successes e.environment := by
      unfold World.setPlanState
      split
      · rw [lastSuccess_append, if_neg (Ne.symm hname)]
      · rfl
    have hplans : ∀ id, e.planId = some id →
        (w.setPlanState plan state detail).plans id = w.plans id := by
      intro id hid
      rw [hput, if_neg]
      rintro rfl
      obtain ⟨owner, howner, hown'⟩ := h.owned plan.id hid
      obtain rfl : plan = owner := Option.some.inj (hst.symm.trans howner)
      exact hname hown'.symm
    refine ⟨?_, ?_, ?_⟩
    · intro id hid
      rw [hplans id hid]
      exact h.owned id hid
    · intro hrld
      obtain ⟨hbef, id, stored, hid, hst', hback⟩ := h.rolled hrld
      exact ⟨hlast.trans hbef, id, stored, hid, (hplans id hid).trans hst', hback⟩
    · intro id found hid hfd hback hsucc
      rw [hplans id hid] at hfd
      exact hlast.trans (h.settled id found hid hfd hback hsucc)

/-- A plan just created is computed, and the same plan as one stored before it. -/
theorem Tracks.created (h : Tracks w.plans w.successes e) {env : String} (hplan : Planned env plan)
    (hadm : w.Admits plan) : Tracks (w.putPlan plan).plans (w.putPlan plan).successes e := by
  refine h.put plan ?_
  intro stored hst _
  have hcont := validatedPlanObject_content (hadm stored hst)
  refine ⟨congrArg (·.environment) hcont, ?_, ?_⟩
  · exact congrArg (fun content : ExecutableContent =>
      content.steps.any fun step => decide (step.action = .rollback)) hcont
  · intro hsucc
    rw [hplan.computed] at hsucc
    cases hsucc

end Tracks

/-! ### Records -/

def Record.names (record : Record) : List String := record.environments.map (·.environment)

theorem Record.names_modify (r : Record) (k : Nat) {f : EnvironmentRecord → EnvironmentRecord}
    (hf : ∀ e, (f e).environment = e.environment) : (r.modify k f).names = r.names := by
  apply List.ext_getElem?
  intro j
  simp only [Record.names, List.getElem?_map, Record.getElem?_modify, Option.map_map]
  congr 1
  funext e
  by_cases hindex : k = j <;> simp [hindex, hf]

theorem admittedRecord_names (spec : Spec) (pin : Pin) :
    (admittedRecord spec pin).names = spec.environments := by
  apply List.ext_getElem?
  intro j
  simp only [Record.names, admittedRecord, List.getElem?_map, List.getElem?_mapIdx]
  cases spec.environments[j]? <;> rfl

/-- Settling may skip environments that were not started, and rename none. -/
theorem settleStatus_environments (r : Record) (order : Nat) (mark : EnvironmentStatus) :
    (settleStatus r order mark).names = r.names ∧ ∀ e ∈ (settleStatus r order mark).environments,
      ∃ old ∈ r.environments, e.environment = old.environment ∧ e.planId = old.planId ∧
      (e.status = old.status ∨ e.status = .skipped) := by
  have hsame : ∀ next : Record, next.environments = r.environments →
      next.names = r.names ∧ ∀ e ∈ next.environments, ∃ old ∈ r.environments,
        e.environment = old.environment ∧ e.planId = old.planId ∧
          (e.status = old.status ∨ e.status = .skipped) := by
    intro next hnext
    refine ⟨by rw [Record.names, hnext, Record.names], ?_⟩
    intro e hmem
    exact ⟨e, hnext ▸ hmem, rfl, rfl, .inl rfl⟩
  unfold settleStatus
  split
  · unfold applyFailPolicy
    split
    · constructor
      · simp only [Record.names, List.map_map]
        apply List.map_congr_left
        intro e _
        simp only [Function.comp_apply]
        split <;> rfl
      · intro e hmem
        obtain ⟨old, hold, rfl⟩ := List.mem_map.mp hmem
        refine ⟨old, hold, ?_⟩
        split
        · exact ⟨rfl, rfl, .inr rfl⟩
        · exact ⟨rfl, rfl, .inl rfl⟩
    · split <;> exact hsame _ rfl
  · unfold refreshWaveStatus
    repeat' split
    all_goals exact hsame _ rfl

theorem refreshWaveStatus_environments (r : Record) :
    (refreshWaveStatus r).environments = r.environments := by
  unfold refreshWaveStatus
  repeat' split
  all_goals rfl

theorem refreshWaveStatus_ne_rolledBack (h : record.status.isTerminal = false) :
    (refreshWaveStatus record).status ≠ .rolledBack := by
  unfold refreshWaveStatus
  repeat' split
  · intro hrld
    simp [hrld, Status.isTerminal] at h
  all_goals simp

theorem settleStatus_ne_rolledBack (h : record.status.isTerminal = false) (order : Nat)
    (mark : EnvironmentStatus) : (settleStatus record order mark).status ≠ .rolledBack := by
  unfold settleStatus
  split
  · unfold applyFailPolicy
    split
    · simp
    · split <;> simp
  · exact refreshWaveStatus_ne_rolledBack h

/-! ### What every move keeps -/

structure Complete (w : World) : Prop where
  distinct : ∀ record, w.wave = some record → record.names.Nodup
  tracked : ∀ record, w.wave = some record → ∀ e ∈ record.environments,
    Tracks w.plans w.successes e
  complete : ∀ record, w.wave = some record → record.status = .rolledBack →
    ∀ e ∈ record.environments, (e.environment, false) ∈ w.successes → e.status = .rolledBack

section Complete

variable {w : World} {record : Record}

theorem Complete.store (h : Complete w) (hst : w.wave = some record) {next : Record}
    (hnames : next.names = record.names)
    (htracked : ∀ e ∈ next.environments, Tracks w.plans w.successes e)
    (hstat : next.status ≠ .rolledBack) : Complete (w.storeWave next) := by
  refine ⟨?_, ?_, ?_⟩
  · rintro _ ⟨⟩
    rw [hnames]
    exact h.distinct record hst
  · rintro _ ⟨⟩
    exact htracked
  · rintro _ ⟨⟩ hrld
    exact absurd hrld hstat

/-- Storing a record with the environment at `index` changed. -/
theorem Complete.modify (h : Complete w) (hst : w.wave = some record) {index : Nat}
    (hfd : record.environments[index]? = some environment)
    {f : EnvironmentRecord → EnvironmentRecord} {next : Record}
    (hnext : next.environments = (record.modify index f).environments)
    (hname : ∀ e, (f e).environment = e.environment)
    (htracked : Tracks w.plans w.successes environment → Tracks w.plans w.successes (f environment))
    (hstat : next.status ≠ .rolledBack) : Complete (w.storeWave next) := by
  refine h.store hst ?_ ?_ hstat
  · rw [Record.names, hnext]
    exact record.names_modify index hname
  · intro e hmem
    rw [hnext] at hmem
    rcases Record.mem_modify hmem with hmem | ⟨old, hold, rfl⟩
    · exact h.tracked record hst e hmem
    · obtain rfl : environment = old := Option.some.inj (hfd.symm.trans hold)
      exact htracked (h.tracked record hst environment (List.mem_of_getElem? hfd))

/-- The plan an environment records is the only one that counts for it. -/
theorem Complete.owns (h : Complete w) (hst : w.wave = some record)
    (hmem : environment ∈ record.environments) (hplan : environment.planId = some plan.id)
    (hfd : w.plans plan.id = some plan) :
    ∀ e ∈ record.environments, e.environment = plan.environment → e.planId = some plan.id := by
  intro e he hname
  obtain ⟨owner, howner, hown⟩ := (h.tracked record hst environment hmem).owned plan.id hplan
  obtain rfl : plan = owner := Option.some.inj (hfd.symm.trans howner)
  have hsame : e = environment :=
    List.inj_on_of_nodup_map (h.distinct record hst) he hmem (hname.trans hown)
  rwa [hsame]

/-- A plan of the wave comes to a state. A wave rolled back must not be undone by it. -/
theorem Complete.setPlanState (h : Complete w) (hst : w.wave = some record)
    (hmem : environment ∈ record.environments) (hplan : environment.planId = some plan.id)
    (hfd : w.plans plan.id = some plan) (state : PlanState) (detail : String)
    (hund : record.status = .rolledBack → state = .succeeded → isRollback plan) :
    Complete (w.setPlanState plan state detail) := by
  refine ⟨h.distinct, ?_, ?_⟩
  · intro found hfd' e he
    obtain rfl : record = found := Option.some.inj (hst.symm.trans hfd')
    exact (h.tracked record hst e he).setPlanState hfd state detail (h.owns hst hmem hplan hfd e he)
  · intro found hfd' hrld e he hsuccess
    obtain rfl : record = found := Option.some.inj (hst.symm.trans hfd')
    refine h.complete record hst hrld e he ?_
    by_cases hsucc : state = .succeeded
    · have hback := hund hrld hsucc
      simpa [World.setPlanState, hsucc, hback] using hsuccess
    · simpa [World.setPlanState, hsucc] using hsuccess

theorem Complete.put (h : Complete w)
    (htracked : ∀ r, w.wave = some r → ∀ e ∈ r.environments, Tracks w.plans w.successes e →
      Tracks (w.putPlan plan).plans w.successes e) : Complete (w.putPlan plan) := by
  refine ⟨h.distinct, ?_, h.complete⟩
  intro r hst e hmem
  exact htracked r hst e hmem (h.tracked r hst e hmem)

end Complete

theorem complete_kept : Kept Complete := by
  intro w t h hmove
  have hactv : ∀ {r : Record}, r.status.isTerminal = false → r.status ≠ .rolledBack := by
    intro r hactv hrld
    simp [hrld, Status.isTerminal] at hactv
  cases hmove with
  | admitted spec pin hnone hdist =>
    refine ⟨?_, ?_, ?_⟩
    · rintro _ ⟨⟩
      rwa [admittedRecord_names]
    · rintro _ ⟨⟩ e hmem
      obtain ⟨i, -, rfl⟩ := List.mem_mapIdx.mp hmem
      exact ⟨fun _ hid => by simp at hid, fun hs => by simp at hs, fun _ _ hid => by simp at hid⟩
    · rintro _ ⟨⟩ hrld
      simp [admittedRecord] at hrld
  | @resumed r hst hstop => exact h.store hst rfl (h.tracked r hst) (by simp)
  | @stopped r hst hactv => exact h.store hst rfl (h.tracked r hst) (by simp)
  | @refreshed r hst hactv hcpl =>
    refine h.store hst ?_ ?_ (refreshWaveStatus_ne_rolledBack hactv)
    · rw [Record.names, refreshWaveStatus_environments, Record.names]
    · rw [refreshWaveStatus_environments]
      exact h.tracked r hst
  | created hpend hpl hadm => exact h.put fun _ _ _ _ he => he.created hpl hadm
  | planned hpend hfd hpl hfwd =>
    refine h.modify hpend.stored hpend.found rfl (fun _ => rfl) ?_ (hactv hpend.active)
    intro _
    refine ⟨?_, fun hs => by simp at hs, ?_⟩
    · rintro id ⟨⟩
      exact ⟨_, hfd, hpl.environment⟩
    · rintro id stored ⟨⟩ hst hback
      cases hfd.symm.trans hst
      rw [hfwd] at hback
      cases hback
  | marked hpend hf hmark hstat =>
    refine h.modify hpend.stored hpend.found rfl hf.environment ?_ ?_
    · intro he
      refine he.with_status (hf.environment _) (hf.planId _) (.inr ?_)
      rw [hf.status]
      rcases hmark with rfl | rfl <;> simp
    · rcases hstat with rfl | rfl | rfl <;> simp
  | @ended r k env hpend f mark hf hmark currentOrder order =>
    obtain ⟨hnames, hold⟩ := settleStatus_environments
      ({ r with currentOrder }.modify k f) order mark
    refine h.store hpend.stored ?_ ?_ (settleStatus_ne_rolledBack (by exact hpend.active) _ _)
    · rw [hnames]
      exact Record.names_modify { r with currentOrder } k hf.environment
    · intro e hmem
      obtain ⟨old, hmem, hname, hplan, hstat⟩ := hold e hmem
      have htracked : Tracks w.plans w.successes old := by
        rcases Record.mem_modify hmem with hmem | ⟨e', he', rfl⟩
        · exact h.tracked r hpend.stored old hmem
        · refine (h.tracked r hpend.stored e' (List.mem_of_getElem? he')).with_status
            (hf.environment e') (hf.planId e') (.inr ?_)
          rw [hf.status]
          cases mark <;> simp_all [EnvironmentStatus.isEnded]
      refine htracked.with_status hname hplan ?_
      rcases hstat with hsame | hskip
      · exact .inl hsame
      · exact .inr (by rw [hskip]; simp)
  | executed hpend hplan hfd hfwd ending =>
    have hset := h.setPlanState hpend.stored (List.mem_of_getElem? hpend.found) hplan hfd
      ending.state ending.detail (fun hrld => absurd hrld (hactv hpend.active))
    exact ⟨hset.distinct, hset.tracked, hset.complete⟩

theorem complete_keptBack : KeptBack Complete := by
  intro w t h hmove
  have hroll : ∀ {r : Record}, r.status = .rollingBack → r.status ≠ .rolledBack := by
    intro r hroll
    rw [hroll]
    simp
  cases hmove with
  | @begun r hst => exact h.store hst rfl (h.tracked r hst) (by simp)
  | skipped hback hf =>
    refine h.modify hback.stored hback.found rfl hf.environment ?_ (hroll hback.rolling)
    intro he
    refine he.with_status (hf.environment _) (hf.planId _) (.inr ?_)
    rw [hf.status]
    simp
  | created hback hpl hrollback hadm => exact h.put fun _ _ _ _ he => he.created hpl hadm
  | planned hback hfd hpl hrollback =>
    refine h.modify hback.stored hback.found rfl (fun _ => rfl) ?_ (hroll hback.rolling)
    intro he
    refine ⟨?_, ?_, ?_⟩
    · rintro id ⟨⟩
      exact ⟨_, hfd, hpl.environment⟩
    · intro hrld
      exact ⟨(he.rolled hrld).1, _, _, rfl, hfd, hrollback⟩
    · rintro id stored ⟨⟩ hst _ hsucc
      cases hfd.symm.trans hst
      rw [hpl.computed] at hsucc
      cases hsucc
  | executed hback hplan hfd hrollback ending =>
    have hset := h.setPlanState hback.stored (List.mem_of_getElem? hback.found) hplan hfd
      ending.state ending.detail (fun _ _ => hrollback)
    exact ⟨hset.distinct, hset.tracked, hset.complete⟩
  | rolledBack hback hf hplan hfd hrollback hsucc =>
    refine h.modify hback.stored hback.found rfl hf.environment ?_ (hroll hback.rolling)
    intro he
    refine ⟨?_, ?_, ?_⟩
    · rw [hf.environment, hf.planId]
      exact he.owned
    · intro _
      rw [hf.environment, hf.planId]
      exact ⟨he.settled _ _ hplan hfd hrollback hsucc, _, _, hplan, hfd, hrollback⟩
    · rw [hf.environment, hf.planId]
      exact he.settled
  | halted hback hf hstat =>
    refine h.modify hback.stored hback.found rfl hf.environment ?_ ?_
    · intro he
      exact he.with_status (hf.environment _) (hf.planId _) (hf.status _)
    · rcases hstat with rfl | rfl <;> simp

/-! ### One rollback -/

/-- The environment has a recorded plan that rolls back. -/
def World.recordsRollback (w : World) (e : EnvironmentRecord) : Bool :=
  (e.planId.bind w.plans.find).any isRollback

theorem World.recordsRollback_iff (w : World) (e : EnvironmentRecord) :
    w.recordsRollback e ↔ ∃ id plan,
      e.planId = some id ∧ w.plans id = some plan ∧ isRollback plan := by
  unfold World.recordsRollback
  cases e.planId with
  | none => simp
  | some id => cases hplan : w.plans id <;> simp [hplan]

/-- A rollback undoes what the environment has: it is rolled back already, or in a status
    that the rollback takes up and does not skip. -/
def World.reaches (w : World) (e : EnvironmentRecord) : Bool :=
  e.status = .rolledBack || e.status = .succeeded ||
    e.status = .awaitingApproval && w.recordsRollback e

/-- What a rollback leaves as it was: which plans roll back, and which environments have
    had a forward plan succeed. -/
structure Onward (w t : World) : Prop where
  plans : ∀ id plan, w.plans id = some plan → isRollback plan →
    ∃ plan', t.plans id = some plan' ∧ isRollback plan'
  successes : ∀ environment, (environment, false) ∈ t.successes →
    (environment, false) ∈ w.successes

theorem Onward.refl (w : World) : Onward w w :=
  ⟨fun _ plan h hback => ⟨plan, h, hback⟩, fun _ h => h⟩

theorem Onward.store (h : Onward w t) (record : Record) : Onward w (t.storeWave record) :=
  ⟨h.plans, h.successes⟩

theorem Onward.put (h : Onward w t)
    (hplan : ∀ stored, t.plans plan.id = some stored → isRollback stored → isRollback plan) :
    ∀ id stored, w.plans id = some stored → isRollback stored →
      ∃ found, t.plans.put plan id = some found ∧ isRollback found := by
  intro id stored hst hback
  obtain ⟨found, hfd, hfoundRollback⟩ := h.plans id stored hst hback
  rw [Plans.put_apply]
  by_cases hid : id = plan.id
  · subst hid
    rw [if_pos rfl]
    exact ⟨plan, rfl, hplan found hfd hfoundRollback⟩
  · rw [if_neg hid]
    exact ⟨found, hfd, hfoundRollback⟩

theorem onward_keptBack (w : World) : KeptBack (Onward w) := by
  intro t u h hmove
  cases hmove with
  | begun | skipped => exact h.store _
  | created hback hpl hrollback hadm => exact ⟨h.put fun _ _ _ => hrollback, h.successes⟩
  | planned hback hfd hpl hrollback => exact h.store _
  | executed hback hplan hfd hrollback ending =>
    refine ⟨h.put fun _ _ _ => hrollback, ?_⟩
    intro env hsuccess
    refine h.successes env ?_
    by_cases hsucc : ending.state = .succeeded
    · simpa [World.executed, World.setPlanState, hsucc, hrollback] using hsuccess
    · simpa [World.executed, World.setPlanState, hsucc] using hsuccess
  | rolledBack | halted => exact h.store _

/-- While a rollback runs: what has to be undone is undone, or still to come. -/
def Ahead (w : World) (targets : List Nat) (record : Record) : Prop :=
  ∀ j e, record.environments[j]? = some e → (e.environment, false) ∈ w.successes →
    e.status = .rolledBack ∨ j ∈ targets ∧ w.reaches e

theorem Ahead.start
    (hreaches : ∀ e ∈ record.environments, (e.environment, false) ∈ w.successes → w.reaches e) :
    Ahead w record.rollbackTargets record := by
  intro j e hfd hsucc
  have hrchd := hreaches e (List.mem_of_getElem? hfd) hsucc
  by_cases hrld : e.status = .rolledBack
  · exact .inl hrld
  · refine .inr ⟨?_, hrchd⟩
    obtain ⟨hlt, -⟩ := List.getElem?_eq_some_iff.mp hfd
    simp only [Record.rollbackTargets, List.mem_reverse, List.mem_filter, List.mem_range, hlt,
      hfd, true_and, Option.any_some]
    cases hs : e.status <;> simp_all [World.reaches, EnvironmentStatus.isRollbackTarget]

theorem Ahead.next (ht : Onward w t) {k : Nat} {targets : List Nat} {next : Record}
    (hfd : record.environments[k]? = some environment) (h : Ahead w (k :: targets) record)
    (hprocd : Processed t record k environment next) : Ahead w targets next := by
  intro j e he hsucc
  by_cases hj : j = k
  · subst hj
    obtain ⟨after, haft, hname, hdone⟩ := hprocd.done
    obtain rfl : e = after := Option.some.inj (he.symm.trans haft)
    rcases hdone with hrld | ⟨hwait, id, plan, hid, hplan, hfwd⟩
    · exact .inl hrld
    · -- it was waiting for a forward plan, but then a rollback is recorded
      exfalso
      rcases h j environment hfd (hname ▸ hsucc) with hrld | ⟨-, hrchd⟩
      · rw [hwait] at hrld
        cases hrld
      · have hback : w.recordsRollback environment := by simpa [World.reaches, hwait] using hrchd
        obtain ⟨id', stored, hid', hst, hback⟩ := (w.recordsRollback_iff _).mp hback
        obtain rfl : id = id' := Option.some.inj (hid.symm.trans hid')
        obtain ⟨plan', hplan', hback'⟩ := ht.plans id stored hst hback
        obtain rfl : plan = plan' := Option.some.inj (hplan.symm.trans hplan')
        rw [hfwd] at hback'
        cases hback'
  · rw [hprocd.same j hj] at he
    rcases h j e he hsucc with hrld | ⟨hmem, hrchd⟩
    · exact .inl hrld
    · rcases List.mem_cons.mp hmem with rfl | hmem
      · exact absurd rfl hj
      · exact .inr ⟨hmem, hrchd⟩

/-! ### Runs -/

theorem World.records_iff (w : World) (id : String) :
    w.records id ↔ ∃ r, w.wave = some r ∧ ∃ e ∈ r.environments, e.planId = some id := by
  simp only [World.records, Option.any_eq_true, List.any_eq_true, decide_eq_true_eq]

/-- The condition on a call, in the state it starts from: a rollback reaches every
    environment that has had a forward plan succeed, and once the wave is rolled back no
    forward plan of it succeeds outside. -/
def covered (w : World) : Call → Bool
  | .rollbackWave _ => w.wave.all fun record => record.status = .rolledBack ||
      record.environments.all fun e => !w.successes.contains (e.environment, false) || w.reaches e
  | .changePlan id state => w.wave.all fun record =>
    record.status ≠ .rolledBack || state ≠ .succeeded || !w.records id ||
      (w.plans id).all isRollback
  | _ => true

theorem complete_outside (h : Complete w) {id : String} {state : PlanState}
    (hcov : covered w (.changePlan id state)) (hmove : OutsideMove w id state t) : Complete t := by
  cases hmove with
  | @recorded plan hfd hrecd hchgd =>
    obtain rfl := w.plans.keyed id plan hfd
    obtain ⟨r, hst, e, hmem, hplan⟩ := (w.records_iff plan.id).mp hrecd
    refine h.setPlanState hst hmem hplan hfd state _ ?_
    intro hrld hsucc
    simpa [covered, hst, hrld, hsucc, hrecd, hfd] using hcov
  | @unrelated plan hfd hunrelated =>
    obtain rfl := w.plans.keyed id plan hfd
    refine h.put fun r hst e hmem he => he.put _ ?_
    intro stored hst' hplan
    obtain rfl : plan = stored := Option.some.inj (hfd.symm.trans hst')
    -- the plan is recorded, so its state stays
    have hrecd : w.records plan.id := (w.records_iff plan.id).mpr ⟨r, hst, e, hmem, hplan⟩
    have hsta : plan.state = state := by
      by_contra hne
      exact hunrelated ⟨hrecd, hne⟩
    exact ⟨rfl, rfl, hsta.trans⟩

theorem complete_rollback (h : Complete w) {auth : Authorization}
    (hcov : covered w (.rollbackWave auth)) :
    Leads exec (fun t => Complete t ∧ Onward w t) (rollbackWave auth) (fun _ _ => True) w := by
  have hkept : KeptBack fun t => Complete t ∧ Onward w t := by
    rintro t u ⟨ht, honw⟩ hmove
    exact ⟨complete_keptBack t u ht hmove, onward_keptBack w t u honw hmove⟩
  refine leads_rollbackWave hkept (P := Ahead w) ⟨?_, ?_, ?_⟩ auth ⟨h, .refl w⟩ ?_
  · intro k targets r hahead hgone j e he hsucc
    rcases hahead j e he hsucc with hrld | ⟨hmem, hrchd⟩
    · exact .inl hrld
    · rcases List.mem_cons.mp hmem with rfl | hmem
      · rw [hgone] at he
        cases he
      · exact .inr ⟨hmem, hrchd⟩
  · rintro t k targets r _ next ⟨-, honw⟩ hroll hahead hprocd
    exact hahead.next honw hroll.found hprocd
  · rintro t r ⟨ht, honw⟩ hst hroll hahead
    refine ⟨⟨?_, ?_, ?_⟩, honw.store _⟩
    · rintro _ ⟨⟩
      exact ht.distinct r hst
    · rintro _ ⟨⟩
      exact ht.tracked r hst
    · rintro _ ⟨⟩ - e hmem hsucc
      obtain ⟨j, he⟩ := List.mem_iff_getElem?.mp hmem
      rcases hahead j e he (honw.successes _ hsucc) with hrld | ⟨hnev, -⟩
      · exact hrld
      · cases hnev
  · intro r hst hstat
    refine @Ahead.start w r ?_
    intro e hmem hsucc
    have hreaches : ∀ e ∈ r.environments,
        !w.successes.contains (e.environment, false) || w.reaches e := by
      simpa [covered, hst, hstat] using hcov
    simpa [hsucc] using hreaches e hmem

theorem along_covered {call : Call} (h : Complete w) (hcov : covered w call) :
    Along exec Complete call.program (fun _ _ => True) w := by
  by_cases hfwd : call.isForward
  · refine along_forward complete_kept hfwd h ?_
    rintro _ _ t rfl hmove
    exact complete_outside h hcov hmove
  · cases call with
    | rollbackWave auth => exact along_program ((complete_rollback h hcov).weaken fun _ ht => ht.1)
    | startOrResume | advance | stopWave | changePlan => simp [Call.isForward] at hfwd

/-- In a run whose rollbacks reach every environment they have to undo, a wave stored as
    rolled back has undone each of its successes: the environment is recorded as rolled
    back, and the last plan that succeeded there was a rollback. -/
theorem rolled_back_wave_is_undone (plans : Plans) (turns : List Turn)
    (hcovered : (World.fresh plans).Admissible covered turns) (record : Record)
    (hrecord : ((World.fresh plans).run turns).wave = some record)
    (hrolled : record.status = .rolledBack) :
    ∀ e ∈ record.environments, (e.environment, false) ∈ ((World.fresh plans).run turns).successes →
      e.status = .rolledBack ∧
        lastSuccess ((World.fresh plans).run turns).successes e.environment = some true := by
  have hfresh : Complete (.fresh plans) := by
    refine ⟨?_, ?_, ?_⟩
    all_goals
      intro record hstored
      cases hstored
  have hcomplete := World.run_admissible (fun _ _ h hcovered => along_covered h hcovered) hfresh
    hcovered
  intro e hmem hsuccess
  have hstatus := hcomplete.complete record hrecord hrolled e hmem hsuccess
  exact ⟨hstatus, ((hcomplete.tracked record hrecord e hmem).rolled hstatus).1⟩

/-- The rollback of the one environment fails, and the next rollback passes over it. -/
def failedRollback : List Turn :=
  [Call.ending (.startOrResume (apiSpec ["prod"])) .succeeded,
    Call.ending (.advance .signed) .succeeded, Call.ending (.rollbackWave .signed) .failed,
    Call.ending (.rollbackWave .signed) .succeeded]

theorem rolled_back_wave_left_upgraded :
    ((World.fresh noPlans).run failedRollback).wave.map (·.status) = some .rolledBack ∧
      ((World.fresh noPlans).run failedRollback).wave.map
        (·.environments.map fun e => (e.environment, e.status)) = some [("prod", .failed)] ∧
      ((World.fresh noPlans).run failedRollback).successes = [("prod", false)] := by
  decide

theorem rolled_back_wave_is_undone_full :
    lastSuccess ((World.fresh noPlans).run fullRollback).successes "a" = some true := by
  have hsome : ((World.fresh noPlans).run fullRollback).wave.isSome := by decide
  have hundone := rolled_back_wave_is_undone noPlans fullRollback (by decide) _
    (Option.some_get hsome).symm (by decide +revert)
  obtain ⟨e, hmem, hname, hsuccess⟩ :
      ∃ e ∈ (((World.fresh noPlans).run fullRollback).wave.get hsome).environments,
        e.environment = "a" ∧
          (e.environment, false) ∈ ((World.fresh noPlans).run fullRollback).successes := by
    decide +revert
  rw [← hname]
  exact (hundone e hmem hsuccess).2

end Tenkai.Wave
