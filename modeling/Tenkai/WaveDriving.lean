import Tenkai.Pool
import Tenkai.Wave

/-!
# Driving a wave until it is blocked

`run_until_blocked` advances a wave until it is over, waits for an approval or has no environment
left to take up. Others may finish plans between any two operations, and do not change the wave.
-/

namespace Tenkai.Wave

open M Prog

/-- Whether the loop goes on after an advance that returned `record`. -/
def Record.goesOn (record : Record) : Bool :=
  !(record.status.isTerminal || record.status = .awaitingApproval ||
    record.environments.all fun environment => environment.status.isComplete)

/-- The loop of `run_until_blocked`; it returns nothing if `turns` are not enough. -/
def advanceUntilBlocked (authorization : Authorization) : Nat → M (Option Record)
  | 0 => return none
  | turns + 1 => do
    let record ← advance authorization
    if record.goesOn then advanceUntilBlocked authorization turns else return some record

/-- `run_until_blocked`, with one turn more than the cohort has environments. -/
def runUntilBlocked (spec : Spec) (authorization : Authorization) : M (Option Record) := do
  let record ← startOrResume spec
  advanceUntilBlocked authorization (record.environments.length + 1)

/-- The others may do anything but change the wave. -/
def driving : Conduct interface World where
  exec _ := exec
  allowed _ _ _ := True
  inv _ := True
  rely _ s t := t.wave = s.wave
  guar _ _ _ := True

/-! ### The environments that are not complete -/

def Record.incomplete (record : Record) : Nat :=
  record.environments.countP fun environment => !environment.status.isComplete

/-- The loop ends with `record`, or it has fewer than `count` environments left. -/
def Progresses (count : Nat) (record : Record) : Prop :=
  record.goesOn = true → record.incomplete < count

/-- As many as `count` environments of the record are not complete, the one at `index` is one. -/
structure Waits (count : Nat) (record : Record) (index : Nat) : Prop where
  count : record.incomplete = count
  found : ∃ environment, record.environments[index]? = some environment ∧
    environment.status.isComplete = false

section Progress

variable {count index order : Nat} {record : Record} {mark : EnvironmentStatus}
  {f : EnvironmentRecord → EnvironmentRecord}

/-- The environment at `index` is marked: it is counted once less if that completes it. -/
theorem Waits.incomplete_modify (h : Waits count record index) (hf : ∀ env, (f env).status = mark) :
    (record.modify index f).incomplete + (if mark.isComplete then 1 else 0) = count := by
  obtain ⟨hcount, env, hfd, hinc⟩ := h
  obtain ⟨hlt, hget⟩ := List.getElem?_eq_some_iff.mp hfd
  have hset : (record.modify index f).environments = record.environments.set index (f env) := by
    refine List.ext_getElem? fun j => ?_
    rw [Record.getElem?_modify, List.getElem?_set]
    by_cases hj : index = j
    · subst hj
      simp [hlt, hget]
    · simp [hj]
  have hpos : 0 < record.incomplete :=
    List.countP_pos_iff.mpr ⟨env, List.mem_of_getElem? hfd, by simp [hinc]⟩
  unfold Record.incomplete at hcount hpos ⊢
  rw [hset, List.countP_set hlt, hget, hinc, hf]
  cases mark.isComplete <;> simp <;> omega

theorem Waits.modify (h : Waits count record index) (mark : EnvironmentStatus)
    (hf : ∀ env, (f env).status = mark) (hmark : mark.isComplete = false) :
    Waits count (record.modify index f) index := by
  have hcount := h.incomplete_modify hf
  obtain ⟨env, hfd, -⟩ := h.found
  refine ⟨by simpa [hmark] using hcount, f env, ?_, by rw [hf, hmark]⟩
  rw [Record.getElem?_modify, hfd]
  simp

theorem incomplete_applyFailPolicy :
    (applyFailPolicy record order).incomplete ≤ record.incomplete := by
  unfold applyFailPolicy
  split
  · unfold Record.incomplete
    rw [List.countP_map]
    refine List.countP_mono_left fun _ _ => ?_
    dsimp only [Function.comp_apply]
    split <;> simp [EnvironmentStatus.isComplete]
  · split <;> exact Nat.le_refl _

/-- An environment that is complete, and whatever becomes of the wave by it. -/
theorem Waits.progresses (h : Waits count record index) {next : Record}
    (hnext : next.incomplete ≤ (record.modify index f).incomplete)
    (hf : ∀ env, (f env).status = mark) (hmark : mark.isComplete) : Progresses count next := by
  have hcount := h.incomplete_modify hf
  rw [if_pos hmark] at hcount
  intro _
  omega

theorem Waits.progresses_settleStatus (h : Waits count record index) {ev : Evidence}
    (hmark : ev.status.isComplete) (currentOrder : Nat) :
    Progresses count (settleStatus { record.noteEvidence index ev with currentOrder } order
      ev.status) := by
  have hle : (settleStatus { record.noteEvidence index ev with currentOrder } order
      ev.status).incomplete ≤ (record.noteEvidence index ev).incomplete := by
    unfold settleStatus
    split
    · exact incomplete_applyFailPolicy
    · unfold refreshWaveStatus
      split_ifs <;> exact Nat.le_refl _
  exact h.progresses hle (fun _ => rfl) hmark

theorem progresses_of_status (h : record.status.isTerminal ∨ record.status = .awaitingApproval) :
    Progresses count record := by
  intro hgoesOn
  rcases h with h | h <;> simp [Record.goesOn, h] at hgoesOn

theorem evidence_isComplete {plan : Plan} {outcomes : List Outcome} {ev : Evidence}
    (h : evidenceFromOutcomes plan outcomes = .ok ev) : ev.status.isComplete := by
  obtain ⟨hsta, hstat⟩ := evidenceFromOutcomes_status h
  rcases hsta with hsta | hsta | hsta <;> rw [hstat, hsta] <;> rfl

end Progress

/-! ### One advance -/

section Advance

variable {i count index : Nat} {s : World} {α : Type} {record : Record}
  {env : EnvironmentRecord}

/-- Nothing needs to be known of what is only looked at. -/
theorem yields_true (x : M α) (s : World) : driving.Yields i x (fun _ _ => True) s := by
  have hsat : ∀ (p : Prog interface (Except String α)) (s : World),
      driving.Sat i p (fun _ _ => True) s := by
    intro p
    induction p with
    | done res => exact fun _ => trivial
    | ask op k ih => exact fun s t _ _ _ _ => ⟨⟨trivial, trivial⟩, ih _ _⟩
  exact (hsat x.run s).mono fun _ _ _ _ _ => trivial

theorem yields_after {β : Type} {x : M α} {f : α → M β} {Q : β → World → Prop}
    (hf : ∀ a t, driving.Yields i (f a) Q t) : driving.Yields i (x >>= f) Q s :=
  (yields_true x s).bind fun a t _ => hf a t

theorem yields_persist (r : Record) (s : World) :
    driving.Yields i (persist r) (fun _ t => t.wave = some r) s := by
  intro t _ _ fault _
  refine ⟨⟨trivial, trivial⟩, ?_⟩
  cases fault with
  | none => exact fun _ _ => rfl
  | refused | ambiguous => nofun

theorem yields_findWave (s : World) :
    driving.Yields i findWave (fun found t => t.wave = found ∧ s.wave = found) s := by
  intro t hst _ fault _
  refine ⟨⟨trivial, trivial⟩, ?_⟩
  cases fault with
  | none =>
    rintro found ⟨⟩
    exact ⟨rfl, hst.symm⟩
  | refused | ambiguous => nofun

theorem yields_loadWave (s : World) :
    driving.Yields i loadWave (fun r t => t.wave = some r ∧ s.wave = some r) s := by
  refine (yields_findWave s).bind fun found t hfd => ?_
  cases found with
  | none => exact .throw _
  | some r => exact .pure hfd

/-- The program returns a record that is stored, and progresses. -/
def Advances (i count : Nat) (x : M Record) (s : World) : Prop :=
  driving.Yields i x (fun next t => t.wave = some next ∧ Progresses count next) s

theorem advances_persist (h : Progresses count record) :
    Advances i count (do persist record; return record) s :=
  (yields_persist record s).bind fun _ _ ht => .pure ⟨ht, h⟩

section Waits

variable (h : Waits count record index)

include h

theorem yields_resumeExistingPlan : driving.Yields i (resumeExistingPlan record index env)
      (fun found t => ∀ next ∈ found, t.wave = some next ∧ Progresses count next) s := by
  have hret : ∀ {next : Record} {t : World}, Progresses count next →
      driving.Yields i (do persist next; return some next)
        (fun found t => ∀ next ∈ found, t.wave = some next ∧ Progresses count next) t :=
    fun {next t} hnext =>
      (yields_persist next t).bind fun _ u hu => .pure (by simpa using ⟨hu, hnext⟩)
  have hended : ∀ plan : Plan, plan.state = .succeeded ∨ plan.state = .failed ∨
      plan.state = .blocked → (endedEvidence plan).status.isComplete := by
    intro plan hsta
    unfold endedEvidence
    split
    next hevid => exact evidence_isComplete hevid
    · rcases hsta with hsta | hsta | hsta <;> rw [hsta] <;> rfl
  unfold resumeExistingPlan
  split
  · exact .pure nofun
  · refine yields_after fun plan t => ?_
    split
    next hsta => exact hret (h.progresses_settleStatus (hended plan (by simp [hsta])) _)
    next hsta => exact hret (h.progresses_settleStatus (hended plan (by simp [hsta])) _)
    next hsta => exact hret (h.progresses_settleStatus (hended plan (by simp [hsta])) _)
    · exact hret (progresses_of_status (.inl rfl))
    · exact .pure nofun

theorem yields_settleExecution (id : String) (executed : Except String (List Outcome)) :
    driving.Yields i (settleExecution record index env id executed)
      (fun next _ => Progresses count next) s := by
  cases executed with
  | ok outcomes =>
    refine yields_after fun _ t => ?_
    split
    · exact .throw _
    next ev hevid =>
      refine yields_after fun _ u => ?_
      exact .pure (h.progresses_settleStatus (evidence_isComplete hevid) _)
  | error message =>
    refine yields_after fun _ t => .pure ?_
    split
    · exact progresses_of_status (.inl rfl)
    · exact progresses_of_status (.inl rfl)
    · exact h.progresses incomplete_applyFailPolicy (fun _ => rfl) rfl
    · exact h.progresses incomplete_applyFailPolicy (fun _ => rfl) rfl
    · exact progresses_of_status (.inr rfl)
    · exact progresses_of_status (.inr rfl)

theorem advances_executePending (auth : Authorization) (plan : Plan) :
    Advances i count (executePending auth record index env plan) s := by
  refine yields_after fun _ s => ?_
  refine yields_after fun authorized s => ?_
  cases authorized with
  | true =>
    refine yields_after fun _ s => ?_
    refine yields_after fun _ s => ?_
    refine yields_after fun executed s => ?_
    have hrun : Waits count (record.modify index fun env =>
      { env with status := .running }) index := h.modify .running (fun _ => rfl) rfl
    have hstd : Waits count { record.modify index fun env =>
      { env with status := .running } with status := .running } index :=
      ⟨hrun.count, hrun.found⟩
    refine (yields_settleExecution hstd plan.id executed).bind fun _ t hnext => ?_
    exact advances_persist hnext
  | false => exact advances_persist (progresses_of_status (.inr rfl))

theorem advances_advancePending (auth : Authorization) :
    Advances i count (advancePending auth record index env) s := by
  refine (yields_resumeExistingPlan h).bind fun found t hfd => ?_
  cases found with
  | some next => exact .pure (hfd next rfl)
  | none =>
    refine yields_after fun _ t => ?_
    have hplan : driving.Yields i (pendingPlan record index env)
        (fun found _ => Waits count found.1 index) t := by
      refine yields_after fun _ t => ?_
      refine yields_after fun _ t => ?_
      refine yields_after fun _ t => ?_
      split
      · exact .pure h
      · refine yields_after fun _ t => ?_
        exact .pure (h.modify .awaitingApproval (fun _ => rfl) rfl)
    exact hplan.bind fun found u hwaits => advances_executePending hwaits auth found.2

end Waits

theorem advances_advance (auth : Authorization) (hst : s.wave = some record) :
    Advances i record.incomplete (advance auth) s := by
  refine (yields_loadWave s).bind ?_
  rintro _ t ⟨ht, hload⟩
  cases hst.symm.trans hload
  have hresumed : driving.Yields i (resumeStopped record) (fun resumed u =>
      u.wave = some resumed ∧ resumed.environments = record.environments) t := by
    unfold resumeStopped
    split
    · exact (yields_persist _ t).bind fun _ u hu => .pure ⟨hu, rfl⟩
    · exact .pure ⟨ht, rfl⟩
  refine hresumed.bind ?_
  rintro resumed u ⟨hu, hsame⟩
  split
  next hterm => exact .pure ⟨hu, progresses_of_status (.inl hterm)⟩
  · split
    next k env hpend =>
      obtain ⟨hfd, hinc, -⟩ := Record.pending_spec hpend
      exact advances_advancePending ⟨by simp only [Record.incomplete, hsame], _, hfd, hinc⟩ auth
    next hnone =>
      refine advances_persist fun hgoesOn => ?_
      have hall : (refreshWaveStatus resumed).environments.all fun env =>
          env.status.isComplete := by
        unfold refreshWaveStatus
        split_ifs <;> exact List.all_eq_true.mpr (Record.pending_none hnone)
      simp [Record.goesOn, hall] at hgoesOn

end Advance

/-! ### The loop -/

section Drive

variable {i : Nat} {s : World} {record : Record}

/-- By induction on the turns: there are more of them left than incomplete environments. -/
theorem yields_advanceUntilBlocked (auth : Authorization) {turns : Nat}
    (hst : s.wave = some record) (hturns : record.incomplete < turns) :
    driving.Yields i (advanceUntilBlocked auth turns) (fun result _ => result ≠ none) s := by
  induction turns generalizing s record with
  | zero => cases hturns
  | succ turns ih =>
    refine (advances_advance auth hst).bind ?_
    rintro next t ⟨ht, hprogresses⟩
    split
    next hgoesOn =>
      have hlt := hprogresses hgoesOn
      exact ih ht (by omega)
    · exact .pure nofun

theorem yields_createWave :
    driving.Yields i (createWave record) (fun created t => created = true → t.wave = some record)
      s := by
  intro t _ _ fault _
  refine ⟨⟨trivial, trivial⟩, ?_⟩
  change ∀ created, (exec (.createWave record) fault t).1 = .ok created → _ →
    (exec (.createWave record) fault t).2.wave = some record
  cases fault <;> cases hwave : t.wave <;> simp [exec, Fault.run, hwave, World.storeWave]
  intro h
  cases h

/-- What is returned is the stored wave. -/
theorem yields_startOrResume (spec : Spec) (s : World) :
    driving.Yields i (startOrResume spec) (fun r t => t.wave = some r) s := by
  have hsame : ∀ {loaded pin} {t : World}, t.wave = some loaded →
      driving.Yields i (requireIdentity loaded spec pin) (fun r t => t.wave = some r) t := by
    intro loaded pin t ht
    refine Conduct.Yields.bailIf.bind ?_
    rintro _ _ ⟨rfl, -⟩
    exact .pure ht
  refine yields_after fun _ t => ?_
  refine yields_after fun _ t => ?_
  refine yields_after fun pin t => ?_
  refine (yields_findWave t).bind fun found u hu => ?_
  cases found with
  | some loaded => exact hsame hu.1
  | none =>
    refine yields_after fun _ v => ?_
    refine yields_createWave.bind fun created w hw => ?_
    cases created with
    | true => exact .pure (hw rfl)
    | false => exact (yields_loadWave w).bind fun loaded x hx => hsame hx.1

/-- Every advance after which `run_until_blocked` goes on leaves fewer environments that are not
    complete, and the loop ends within one turn more than the cohort has environments. -/
theorem run_until_blocked_ends (spec : Spec) (authorization : Authorization) (i : Nat) (w : World) :
    (∀ record ∈ w.wave, driving.Yields i (advance authorization) (fun next t => t.wave = some next ∧
        (next.goesOn = true → next.incomplete < record.incomplete)) w) ∧
    driving.Yields i (runUntilBlocked spec authorization) (fun result _ => result ≠ none) w := by
  refine ⟨fun record hst => advances_advance authorization hst, ?_⟩
  refine (yields_startOrResume spec w).bind fun record t hst => ?_
  have hle : record.incomplete ≤ record.environments.length := List.countP_le_length
  exact yields_advanceUntilBlocked authorization hst (by omega)

end Drive

end Tenkai.Wave
