import Tenkai.UpgradeCalls

/-!
# What an upgrade's record may be believed

`apply_plan` takes an execution that returns for one that ran, so the environment of a plan that is
held back is recorded applied; where executions that return have run, the record is true
(`record_true`). `rollback_upgrade` passes over an environment whose rollback failed once; where
none is passed over that could have something applied, a rollback is complete
(`rollback_complete`).
-/

namespace Tenkai.Connectivity

/-- No upgrade has been started, and the account of plans is right. -/
structure Hub.Unstarted (s : Hub) : Prop where
  history : s.history = []
  begun : s.begun = []
  finished : ∀ planId, planId ∈ s.finished ↔ s.Done planId

theorem Hub.Unstarted.sound {s : Hub} (h : s.Unstarted) (steady closing : Prop) :
    s.Sound steady closing where
  recorded hne := absurd h.history hne
  settled version hver := by
    rw [h.history] at hver
    cases hver
  finished := h.finished
  closed _ version hver := by
    rw [h.history] at hver
    cases hver
  begun _ plan hplan := by
    rw [h.begun] at hplan
    cases hplan

theorem Hub.unstarted_empty : Hub.empty.Unstarted :=
  ⟨rfl, rfl, fun planId => by simp [Hub.empty, Hub.Done]⟩

theorem Hub.Sound.stored {steady closing : Prop} {s : Hub} (h : s.Sound steady closing)
    {record : UpgradeRecord} (hrec : s.record? = some record) :
    Recorded steady s.history ∧ ∃ v ∈ s.history, v.record = record := by
  obtain ⟨v, hver, rfl⟩ := Option.map_eq_some_iff.mp hrec
  have hmem := List.mem_of_mem_head? hver
  exact ⟨h.recorded (List.ne_nil_of_mem hmem), v, hmem, rfl⟩

instance (op : interface.Op) (turn : interface.Choice op) (s : Hub) :
    Decidable (PlanEnds op turn s) :=
  match op, turn with
  | .startPlan planId, ⟨_, _, (answer : Start)⟩ =>
    inferInstanceAs (Decidable (answer ≠ .heldBack ∧ (answer = .running →
      ∀ row ∈ s.plans planId, row.progress = .computed ∨ row.progress = .blocked)))
  | .finishPlan _, ⟨_, _, ⟨ending, .ok ()⟩⟩ =>
    decidable_of_iff (ending = .succeeded ∨ ending = .failed) ⟨fun h _ => h, fun h => h rfl⟩
  | .finishPlan _, ⟨_, _, ⟨_, .error _⟩⟩ => isTrue nofun
  | .decide _, _ | .scan _, _ | .connectivityClass _, _ | .resolveReleasePin _, _
  | .leaseGeneration _, _ | .rollbackStep _ _, _ | .createPlan _ _, _ | .getPlan _, _
  | .getUpgrade _, _ | .createUpgrade _, _ | .acquireEnv _ _, _ | .refreshEnv _ _, _
  | .releaseEnv _ _, _ | .acquireWrite _, _ | .releaseWrite _, _ | .guardedUpdate _ _ _, _ =>
    isTrue trivial

instance (op : interface.Op) (turn : interface.Choice op) (s : Hub) :
    Decidable (RollsBackWhole op turn s) :=
  match op with
  | .getUpgrade .rollback => inferInstanceAs (Decidable (∀ record ∈ s.record?,
      ∀ entry ∈ record.environments, entry.status = .applied ∨ entry.status = .rolledBack ∨
        ∀ planId ∈ entry.planId, s.Failed planId))
  | .getUpgrade .look | .getUpgrade .merge | .decide _ | .scan _ | .connectivityClass _
  | .resolveReleasePin _ | .leaseGeneration _ | .rollbackStep _ _ | .createPlan _ _ | .getPlan _
  | .startPlan _ | .finishPlan _ | .createUpgrade _ | .acquireEnv _ _ | .refreshEnv _ _
  | .releaseEnv _ _ | .acquireWrite _ | .releaseWrite _ | .guardedUpdate _ _ _ => isTrue trivial

/-! ### Applied -/

/-- An environment is recorded applied or rolled back only if its plan has succeeded, and the upgrade
    succeeded only if all its environments are applied. -/
structure Hub.RecordTrue (s : Hub) : Prop where
  applied : ∀ record ∈ s.record?, ∀ entry ∈ record.environments,
    entry.status = .applied ∨ entry.status = .rolledBack → ∃ planId ∈ entry.planId, s.Done planId
  succeeded : ∀ record ∈ s.record?, record.status = .succeeded →
    ∀ entry ∈ record.environments, entry.status = .applied

/-- Executions that return have run, and the clock of the store does not run back. -/
def appliedAllowed (op : interface.Op) (turn : interface.Choice op) (s : Hub) : Prop :=
  s.clock ≤ turn.now ∧ PlanEnds op turn s

instance (op : interface.Op) (turn : interface.Choice op) (s : Hub) :
    Decidable (appliedAllowed op turn s) := inferInstanceAs (Decidable (_ ∧ _))

theorem record_true (start : Hub) (hstart : start.Unstarted) (events : List (Event interface Call))
    (hrun : Pool.Admissible exec program appliedAllowed ⟨start, []⟩ events) :
    (Pool.run exec program ⟨start, []⟩ events).shared.RecordTrue := by
  have hsound := sound_run (hstart.sound True False) (hrun.mono fun op turn s h =>
    (⟨fun _ => h.1, h.2, nofun⟩ : allowed True False op turn s))
  constructor
  · intro record hrecord entry hentry hstatus
    obtain ⟨hrecorded, version, hversion, rfl⟩ := hsound.stored hrecord
    obtain ⟨planId, hplan⟩ :=
      Option.isSome_iff_exists.mp (hrecorded.planned hversion entry hentry).1
    exact ⟨planId, hplan, (hsound.settled version hversion entry hentry planId hplan).1 hstatus⟩
  · intro record hrecord
    obtain ⟨hrecorded, version, hversion, rfl⟩ := hsound.stored hrecord
    exact hrecorded.all_applied_of_succeeded version hversion

section Runs

def routine : (op : Op) → op.Answer
  | .decide _ => .ok true
  | .scan _ => .ok none
  | .connectivityClass _ => .ok .connected
  | .resolveReleasePin _ => .ok ⟨"tenkai:release:web:2.0.0", "sha256:1", "sha256:2"⟩
  | .leaseGeneration _ => .ok none
  | .rollbackStep _ _ => .ok ()
  | .createPlan _ none => .ok "tenkai:plan:prod:1"
  | .createPlan _ (some _) => .ok "tenkai:plan:prod:2"
  | .startPlan _ => .running
  | .finishPlan _ => ⟨.succeeded, .ok ()⟩
  | .getPlan _ | .getUpgrade _ | .createUpgrade _ | .acquireEnv _ _ | .refreshEnv _ _
  | .releaseEnv _ _ | .acquireWrite _ | .releaseWrite _ | .guardedUpdate _ _ _ => ()

/-- A gate holds every plan back. -/
def gated : (op : Op) → op.Answer
  | .startPlan _ => .heldBack
  | op => routine op

def operations (answers : (op : Op) → op.Answer) (thread count : Nat) :
    List (Event interface Call) :=
  List.replicate count (.act thread fun op => ⟨0, .none, answers op⟩)

def webSpec : UpgradeSpec := ⟨"web-2", "web", "2.0.0", "stable", ["prod"]⟩

def advanced (answers : (op : Op) → op.Answer) : List (Event interface Call) :=
  .call (.startOrResume webSpec) :: operations routine 0 10 ++
  .call (.advance "web-2") :: operations answers 1 30

theorem record_true_web :
    Hub.empty.Unstarted ∧
      Pool.Admissible exec program appliedAllowed ⟨.empty, []⟩ (advanced routine) ∧
      (Pool.run exec program ⟨.empty, []⟩ (advanced routine)).shared.RecordTrue := by
  have hrun : Pool.Admissible exec program appliedAllowed ⟨.empty, []⟩ (advanced routine) := by
    decide +kernel
  exact ⟨Hub.unstarted_empty, hrun, record_true .empty Hub.unstarted_empty (advanced routine) hrun⟩

/-- The plan is held back, and the environment is recorded applied. -/
theorem blocked_plan_recorded_applied :
    ¬ (Pool.run exec program ⟨.empty, []⟩ (advanced gated)).shared.RecordTrue := by
  intro htrue
  have hrecord : ((Pool.run exec program ⟨.empty, []⟩ (advanced gated)).shared.record?.map
      (·.environments)) = some [⟨"prod", .connected, .applied, some "tenkai:plan:prod:1",
        "connected apply completed", none, none⟩] := by
    decide +kernel
  have hplan : (Pool.run exec program ⟨.empty, []⟩ (advanced gated)).shared.plans
      "tenkai:plan:prod:1" = some ⟨"prod", none, .blocked⟩ := by
    decide +kernel
  obtain ⟨record, hstored, hentries⟩ := Option.map_eq_some_iff.mp hrecord
  obtain ⟨planId, hplanId, row, hrow, hdone⟩ := htrue.applied record hstored _
    (by rw [hentries]; exact List.mem_cons_self) (.inl rfl)
  cases hplanId
  cases hplan.symm.trans hrow
  cases hdone

end Runs

/-! ### Rolled back -/

/-- While the upgrade is called rolled back, every plan of it that succeeded has been undone since;
    and since it first was, no plan of it began to execute. -/
structure Hub.RollbackComplete (s : Hub) : Prop where
  undone : ∀ record ∈ s.record?, record.status = .rolledBack → ∀ entry ∈ record.environments,
    ∀ planId ∈ entry.planId, planId ∈ s.finished → s.Undone planId entry.name record.product
  final : ∀ plan ∈ s.begun, plan.afterRollback = true → ∀ record ∈ s.record?,
    ∀ entry ∈ record.environments, entry.planId ≠ some plan.planId

/-- Executions that return have run, and a rollback finds every environment applied or rolled back,
    or its plan failed. -/
def rollbackAllowed (op : interface.Op) (turn : interface.Choice op) (s : Hub) : Prop :=
  PlanEnds op turn s ∧ RollsBackWhole op turn s

instance (op : interface.Op) (turn : interface.Choice op) (s : Hub) :
    Decidable (rollbackAllowed op turn s) := inferInstanceAs (Decidable (_ ∧ _))

theorem rollback_complete (start : Hub) (hstart : start.Unstarted)
    (events : List (Event interface Call))
    (hrun : Pool.Admissible exec program rollbackAllowed ⟨start, []⟩ events) :
    (Pool.run exec program ⟨start, []⟩ events).shared.RollbackComplete := by
  have hsound := sound_run (hstart.sound False True) (hrun.mono fun op turn s h =>
    (⟨nofun, h.1, fun _ => h.2⟩ : allowed False True op turn s))
  constructor
  · intro record hrecord hstatus _ hentry planId hplan hfinished
    obtain ⟨-, version, hversion, rfl⟩ := hsound.stored hrecord
    have hdone := (hsound.finished planId).mp hfinished
    rcases hsound.closed trivial version hversion hstatus _ (key_mem hentry) planId hplan with
      ⟨-, hundone⟩ | ⟨row, hrow, hfailed⟩
    · exact hundone
    · obtain ⟨found, hfound, hsucceeded⟩ := hdone
      obtain rfl := Option.mem_unique hrow hfound
      exact absurd (hfailed.symm.trans hsucceeded) nofun
  · intro plan hplan hafter record hrecord
    obtain ⟨-, version, hversion, rfl⟩ := hsound.stored hrecord
    exact (hsound.begun trivial plan hplan hafter).2 version hversion

section Runs

/-- Every plan that rolls back fails. -/
def unlucky : (op : Op) → op.Answer
  | .finishPlan _ => ⟨.failed, .ok ()⟩
  | op => routine op

/-- After the upgrade is applied, it is rolled back, and rolled back again. -/
def rolledBackTwice (answers : (op : Op) → op.Answer) : List (Event interface Call) :=
  advanced routine ++
  .call (.rollbackUpgrade "web-2") :: operations answers 2 30 ++
  .call (.rollbackUpgrade "web-2") :: operations routine 3 30

theorem rollback_complete_web :
    Hub.empty.Unstarted ∧
      Pool.Admissible exec program rollbackAllowed ⟨.empty, []⟩ (rolledBackTwice routine) ∧
      (Pool.run exec program ⟨.empty, []⟩ (rolledBackTwice routine)).shared.RollbackComplete := by
  have hrun : Pool.Admissible exec program rollbackAllowed ⟨.empty, []⟩
      (rolledBackTwice routine) := by
    decide +kernel
  exact ⟨Hub.unstarted_empty, hrun,
    rollback_complete .empty Hub.unstarted_empty (rolledBackTwice routine) hrun⟩

/-- The first rollback fails, the second passes the environment over and calls the upgrade rolled
    back, while what was applied is still there. -/
theorem failed_rollback_passed_over :
    ¬ (Pool.run exec program ⟨.empty, []⟩ (rolledBackTwice unlucky)).shared.RollbackComplete := by
  intro hcomplete
  have hrecord : ((Pool.run exec program ⟨.empty, []⟩ (rolledBackTwice unlucky)).shared.record?.map
      fun record => (record.status, record.environments.map fun entry =>
        (entry.status, entry.planId))) =
      some (.rolledBack, [(.recoveryRequired, some "tenkai:plan:prod:1")]) := by
    decide +kernel
  have hfinished : (Pool.run exec program ⟨.empty, []⟩ (rolledBackTwice unlucky)).shared.finished =
      ["tenkai:plan:prod:1"] := by
    decide +kernel
  obtain ⟨record, hstored, heq⟩ := Option.map_eq_some_iff.mp hrecord
  obtain ⟨hstatus, hentries⟩ := Prod.mk.inj heq
  obtain ⟨entry, hentry, hpair⟩ : ∃ entry ∈ record.environments,
      (entry.status, entry.planId) = (.recoveryRequired, some "tenkai:plan:prod:1") :=
    List.mem_map.mp (by rw [hentries]; exact List.mem_cons_self)
  obtain ⟨later, earlier, rollback, hsplit, hearlier, -⟩ :=
    hcomplete.undone record hstored hstatus entry hentry "tenkai:plan:prod:1"
      (Prod.mk.inj hpair).2 (by rw [hfinished]; exact List.mem_cons_self)
  -- one plan has succeeded, and none after it
  have hlength := congrArg List.length hsplit
  rw [hfinished] at hlength
  have hpos := List.length_pos_of_mem hearlier
  simp at hlength
  omega

end Runs

end Tenkai.Connectivity
