import Tenkai.UpgradeLog

/-!
# What the operations of an upgrade do

A call knows which version of the record it read, that nobody wrote under an environment's lease it
holds since (`Reading`), and, while it has the record's own lease, that nobody wrote at all. The
environments are renewed for longer than the lease of the record lasts; where this is used,
`steady` says that the clock does not run back. `closing` is about the record a rollback reads.
-/

namespace Tenkai.Connectivity

/-! ### Plans that ended -/

namespace Hub

def Done (s : Hub) (planId : String) : Prop := ∃ row ∈ s.plans planId, row.progress = .succeeded

def Failed (s : Hub) (planId : String) : Prop := ∃ row ∈ s.plans planId, row.progress = .failed

instance (s : Hub) (planId : String) : Decidable (s.Done planId) :=
  inferInstanceAs (Decidable (∃ row ∈ s.plans planId, _))

instance (s : Hub) (planId : String) : Decidable (s.Failed planId) :=
  inferInstanceAs (Decidable (∃ row ∈ s.plans planId, _))

/-- Since the plan succeeded, one that rolls back the product in the environment has. -/
def Undone (s : Hub) (planId environment product : String) : Prop :=
  ∃ later earlier rollback, s.finished = later ++ rollback :: earlier ∧ planId ∈ earlier ∧
    ∃ row ∈ s.plans rollback, row.environment = environment ∧ row.rollbackOf = some product

end Hub

/-- Plans stay what they are for, and those that ended stay as they ended. -/
structure PlansOnward (s t : Hub) : Prop where
  rows : ∀ planId, ∀ row ∈ s.plans planId, ∃ row' ∈ t.plans planId,
    row'.environment = row.environment ∧ row'.rollbackOf = row.rollbackOf ∧
      (row.progress = .succeeded → row'.progress = .succeeded) ∧
      (row.progress = .failed → row'.progress = .failed)
  finished : s.finished <:+ t.finished

section Plans

variable {s t u : Hub} {planId env product : String}

theorem PlansOnward.of_eq (hplans : t.plans = s.plans) (hfin : t.finished = s.finished) :
    PlansOnward s t := by
  refine ⟨fun _ row hrow => ⟨row, hplans ▸ hrow, rfl, rfl, id, id⟩, ?_⟩
  exact hfin ▸ List.suffix_refl _

theorem PlansOnward.trans (h : PlansOnward s t) (h' : PlansOnward t u) : PlansOnward s u := by
  refine ⟨fun id row hrow => ?_, h.finished.trans h'.finished⟩
  obtain ⟨row', hrow', henv, hof, hdone, hfail⟩ := h.rows id row hrow
  obtain ⟨row'', hrow'', henv', hof', hdone', hfail'⟩ := h'.rows id row' hrow'
  exact ⟨row'', hrow'', henv'.trans henv, hof'.trans hof, hdone' ∘ hdone, hfail' ∘ hfail⟩

theorem Hub.Done.onward (h : s.Done planId) (hst : PlansOnward s t) : t.Done planId := by
  obtain ⟨row, hrow, hdone⟩ := h
  obtain ⟨row', hrow', -, -, hdone', -⟩ := hst.rows planId row hrow
  exact ⟨row', hrow', hdone' hdone⟩

theorem Hub.Failed.onward (h : s.Failed planId) (hst : PlansOnward s t) : t.Failed planId := by
  obtain ⟨row, hrow, hfail⟩ := h
  obtain ⟨row', hrow', -, -, -, hfail'⟩ := hst.rows planId row hrow
  exact ⟨row', hrow', hfail' hfail⟩

theorem Hub.Undone.onward (h : s.Undone planId env product) (hst : PlansOnward s t) :
    t.Undone planId env product := by
  obtain ⟨later, earlier, rollback, hfin, hearl, row, hrow, henv, hof⟩ := h
  obtain ⟨more, hmore⟩ := hst.finished
  obtain ⟨row', hrow', henv', hof', -, -⟩ := hst.rows rollback row hrow
  refine ⟨more ++ later, earlier, rollback, ?_, hearl, row', hrow', henv'.trans henv,
    hof'.trans hof⟩
  rw [← hmore, hfin, List.append_assoc]

end Plans

/-! ### Records and the plans they name -/

def Settled (record : UpgradeRecord) (s : Hub) : Prop :=
  ∀ entry ∈ record.environments, ∀ planId ∈ entry.planId,
    (entry.status = .applied ∨ entry.status = .rolledBack → s.Done planId) ∧
    (entry.status = .rolledBack → s.Undone planId entry.name record.product)

/-- Every plan of the upgrade has failed, or has succeeded and was undone. -/
def Closed (record : UpgradeRecord) (s : Hub) : Prop :=
  ∀ key ∈ record.keys, ∀ planId ∈ key.2,
    (s.Done planId ∧ s.Undone planId key.1 record.product) ∨ s.Failed planId

section Records

variable {s t : Hub} {r other : UpgradeRecord}

theorem Settled.onward (h : Settled r s) (hst : PlansOnward s t) : Settled r t := by
  intro e hent id hplan
  obtain ⟨hdone, hund⟩ := h e hent id hplan
  exact ⟨fun hstat => (hdone hstat).onward hst, fun hstat => (hund hstat).onward hst⟩

theorem Closed.onward (h : Closed r s) (hst : PlansOnward s t) : Closed r t := by
  intro key hkey id hplan
  rcases h key hkey id hplan with ⟨hdone, hund⟩ | hfail
  · exact .inl ⟨hdone.onward hst, hund.onward hst⟩
  · exact .inr (hfail.onward hst)

theorem Closed.congr (h : Closed r s) (hscope : other.scope = r.scope) : Closed other s := by
  obtain ⟨hprod, hkeys⟩ := Prod.mk.inj hscope
  unfold Closed
  rwa [hkeys, hprod]

theorem key_mem {entry : UpgradeEnvironmentRecord} (h : entry ∈ r.environments) :
    (entry.name, entry.planId) ∈ r.keys := List.mem_map_of_mem h

theorem Settled.closed (h : Settled r s) (hall : ∀ entry ∈ r.environments, ∀ planId ∈ entry.planId,
      entry.status = .rolledBack ∨ s.Failed planId) : Closed r s := by
  intro _ hkey planId hplan
  obtain ⟨entry, hent, rfl⟩ := List.mem_map.mp hkey
  rcases hall entry hent planId hplan with hstat | hfail
  · obtain ⟨hdone, hund⟩ := h entry hent planId hplan
    exact .inl ⟨hdone (.inr hstat), hund hstat⟩
  · exact .inr hfail

theorem entry_of_edit {j k : Nat} {f : UpgradeEnvironmentRecord → UpgradeEnvironmentRecord}
    {new : UpgradeEnvironmentRecord} (h : (r.edit k f).environments[j]? = some new) :
    ∃ old, r.environments[j]? = some old ∧ (j = k ∧ new = f old ∨ j ≠ k ∧ new = old) := by
  simp only [UpgradeRecord.edit, List.getElem?_modify] at h
  obtain ⟨old, hold, hmap⟩ := Option.map_eq_some_iff.mp h
  refine ⟨old, hold, ?_⟩
  split at hmap
  next heq => exact .inl ⟨heq.symm, hmap.symm⟩
  next hne => exact .inr ⟨fun heq => hne heq.symm, hmap.symm⟩

theorem Settled.edit (h : Settled r s) {k : Nat} {e : UpgradeEnvironmentRecord}
    {f : UpgradeEnvironmentRecord → UpgradeEnvironmentRecord} (hent : r.environments[k]? = some e)
    (hf : ∀ id ∈ (f e).planId, ((f e).status = .applied ∨ (f e).status = .rolledBack → s.Done id) ∧
      ((f e).status = .rolledBack → s.Undone id (f e).name r.product)) :
    Settled (r.edit k f) s := by
  intro _ hnew
  obtain ⟨j, hj⟩ := List.mem_iff_getElem?.mp hnew
  obtain ⟨old, hold, ⟨rfl, rfl⟩ | ⟨-, rfl⟩⟩ := entry_of_edit hj
  · cases hold.symm.trans hent
    exact hf
  · exact h _ (List.mem_of_getElem? hold)

end Records

/-! ### The rules -/

section Rules

variable (steady closing : Prop)

/-- What holds of the store between any two operations. -/
structure Hub.Sound (s : Hub) : Prop where
  recorded : s.history ≠ [] → Recorded steady s.history
  settled : ∀ version ∈ s.history, Settled version.record s
  finished : ∀ planId, planId ∈ s.finished ↔ s.Done planId
  closed : closing → ∀ version ∈ s.history, version.record.status = .rolledBack →
    Closed version.record s
  begun : closing → ∀ plan ∈ s.begun, plan.afterRollback = true → s.rolledBack = true ∧
    ∀ version ∈ s.history, ∀ entry ∈ version.record.environments, entry.planId ≠ some plan.planId

/-- What thread `i` may count on while others work, but for the lease of the record. -/
structure Onward (i : Nat) (s t : Hub) : Prop extends PlansOnward s t where
  clock : steady → s.clock ≤ t.clock
  /-- Nobody else writes under an environment's lease that `i` holds. -/
  history : ∃ new, t.history = new ++ s.history ∧
    (steady → ∀ version ∈ new, ∀ name ∈ version.locked, ∀ token, token.thread = i →
      ¬ (t.envLease name).Held token)
  held : ∀ name token, token.thread = i → (t.envLease name).Held token →
    (s.envLease name).Held token
  /-- Leases last as long as a lease of the record that is held now. -/
  lasts : steady → ∀ name token deadline, token.thread = i → t.clock < deadline →
    deadline ≤ saturatingAdd s.clock upgradeWriteTtlMs →
      (s.envLease name).LastsUntil token deadline → (t.envLease name).LastsUntil token deadline

/-- What thread `i` may count on while others work. -/
structure Rely (i : Nat) (s t : Hub) : Prop extends Onward steady i s t where
  write : ∀ lease ∈ t.writeLease.current, lease.status = .active → lease.fencingToken.thread = i →
    lease ∈ s.writeLease.current
  unwritten : s.history ≠ [] → ∀ lease ∈ t.writeLease.current, lease.status = .active →
    lease.fencingToken.thread = i → t.history = s.history

/-- A plan starts while it is still computed or blocked, no gate or maintenance window holds it
    back, and a call that returns leaves it succeeded or failed. -/
def PlanEnds : (op : interface.Op) → interface.Choice op → Hub → Prop
  | .startPlan planId, turn, s => turn.answer ≠ .heldBack ∧ (turn.answer = .running →
      ∀ row ∈ s.plans planId, row.progress = .computed ∨ row.progress = .blocked)
  | .finishPlan _, turn, _ => turn.answer.result = .ok () →
      turn.answer.ending = .succeeded ∨ turn.answer.ending = .failed
  | _, _, _ => True

/-- Whoever reads the record to roll back finds every environment applied or rolled back, or its
    plan failed. -/
def RollsBackWhole : (op : interface.Op) → interface.Choice op → Hub → Prop
  | .getUpgrade .rollback, _, s => ∀ record ∈ s.record?, ∀ entry ∈ record.environments,
      entry.status = .applied ∨ entry.status = .rolledBack ∨
        ∀ planId ∈ entry.planId, s.Failed planId
  | _, _, _ => True

def allowed (op : interface.Op) (turn : interface.Choice op) (s : Hub) : Prop :=
  (steady → s.clock ≤ turn.now) ∧ PlanEnds op turn s ∧ (closing → RollsBackWhole op turn s)

def conduct : Conduct interface Hub where
  exec := exec
  allowed := allowed steady closing
  inv := Hub.Sound steady closing
  rely := Rely steady
  guar i s t := ∀ j, j ≠ i → Rely steady j s t

end Rules

variable {base cur merged mod : UpgradeRecord} {name : String} {row : LeaseRow}
  {token : FencingToken}

section Steps

variable {steady closing : Prop} {s t u : Hub} {i j : Nat}

theorem Onward.trans (h : Onward steady i s t) (h' : Onward steady i t u) :
    Onward steady i s u where
  toPlansOnward := h.toPlansOnward.trans h'.toPlansOnward
  clock hstdy := Int.le_trans (h.clock hstdy) (h'.clock hstdy)
  history := by
    obtain ⟨new, hnew, hfree⟩ := h.history
    obtain ⟨new', hnew', hfree'⟩ := h'.history
    refine ⟨new' ++ new, by rw [hnew', hnew, List.append_assoc], ?_⟩
    intro hstdy v hver name hname tok htok hheld
    rcases List.mem_append.mp hver with hver | hver
    · exact hfree' hstdy v hver name hname tok htok hheld
    · exact hfree hstdy v hver name hname tok htok (h'.held _ _ htok hheld)
  held name tok htok hheld := h.held name tok htok (h'.held name tok htok hheld)
  lasts hstdy name tok deadline htok hbef hdead hlasts := by
    have hclock := h'.clock hstdy
    refine h'.lasts hstdy name tok deadline htok hbef ?_
      (h.lasts hstdy name tok deadline htok (by omega) hdead hlasts)
    exact Int.le_trans hdead (saturatingAdd_le_saturatingAdd (h.clock hstdy) (Int.le_refl _))

theorem Rely.trans (h : Rely steady i s t) (h' : Rely steady i t u) : Rely steady i s u where
  toOnward := h.toOnward.trans h'.toOnward
  write lease hlea hactv hthr := h.write lease (h'.write lease hlea hactv hthr) hactv hthr
  unwritten hne lease hlea hactv hthr := by
    have hkept := h.unwritten hne lease (h'.write lease hlea hactv hthr) hactv hthr
    rw [← hkept] at hne
    rw [h'.unwritten hne lease hlea hactv hthr, hkept]

/-- Only plans change. -/
theorem Rely.of_plans (h : PlansOnward s t) (hhist : t.history = s.history)
    (henv : t.envLease = s.envLease) (hwrite : t.writeLease = s.writeLease)
    (hclock : t.clock = s.clock) : Rely steady i s t where
  toPlansOnward := h
  clock _ := Int.le_of_eq hclock.symm
  history := ⟨[], hhist, fun _ v hver => by cases hver⟩
  held name token _ hheld := by rwa [henv] at hheld
  lasts _ name token deadline _ _ _ hlasts := by rwa [henv]
  write lease hlea _ _ := by rwa [hwrite] at hlea
  unwritten _ _ _ _ _ := hhist

theorem Rely.refl (i : Nat) (s : Hub) : Rely steady i s s :=
  .of_plans (.of_eq rfl rfl) rfl rfl rfl rfl

theorem Rely.tick {now : Int} (hnow : steady → s.clock ≤ now) :
    Rely steady i s { s with clock := now } where
  toPlansOnward := .of_eq rfl rfl
  clock := hnow
  history := ⟨[], rfl, fun _ v hver => by cases hver⟩
  held _ _ _ hheld := hheld
  lasts _ _ _ _ _ _ _ hlasts := hlasts
  write _ hlea _ _ := hlea
  unwritten _ _ _ _ _ := rfl

/-- Soundness is not a matter of leases or the clock. -/
theorem Hub.Sound.congr (h : s.Sound steady closing) (hhist : t.history = s.history)
    (hplans : t.plans = s.plans) (hfin : t.finished = s.finished)
    (hbegun : t.begun = s.begun) : t.Sound steady closing := by
  have honw : PlansOnward s t := .of_eq hplans hfin
  have hback : PlansOnward t s := .of_eq hplans.symm hfin.symm
  refine ⟨?_, ?_, ?_, ?_, ?_⟩
  · rw [hhist]
    exact h.recorded
  · rw [hhist]
    exact fun v hver => (h.settled v hver).onward honw
  · intro _
    rw [hfin, h.finished]
    exact ⟨fun hdone => hdone.onward honw, fun hdone => hdone.onward hback⟩
  · rw [hhist]
    exact fun hclos v hver hstat => (h.closed hclos v hver hstat).onward honw
  · unfold Hub.rolledBack
    rw [hhist, hbegun]
    exact h.begun

/-- What an operation is checked for: the store stays sound, and the others may count on it. -/
structure Fair (steady closing : Prop) (i : Nat) (s t : Hub) : Prop where
  sound : t.Sound steady closing
  others : ∀ j, j ≠ i → Rely steady j s t

/-- An operation that its own thread may count on as well. -/
structure Quiet (steady closing : Prop) (s t : Hub) : Prop where
  sound : t.Sound steady closing
  all : ∀ j, Rely steady j s t

theorem Quiet.fair (h : Quiet steady closing s t) : Fair steady closing i s t :=
  ⟨h.sound, fun j _ => h.all j⟩

theorem Quiet.refl (h : s.Sound steady closing) : Quiet steady closing s s :=
  ⟨h, fun j => .refl j s⟩

/-! #### Plans -/

/-- A plan is written anew, from a state in which it had not ended. -/
theorem Quiet.plan (h : s.Sound steady closing) {planId : String} {row row' : PlanRow}
    (hrow : s.plans planId = some row)
    (hplans : t.plans = Function.update s.plans planId (some row'))
    (henv : row'.environment = row.environment) (hof : row'.rollbackOf = row.rollbackOf)
    (hdone : row.progress ≠ .succeeded) (hfail : row.progress ≠ .failed)
    (hfin : t.finished = if row'.progress = .succeeded then planId :: s.finished else s.finished)
    (hhist : t.history = s.history) (hlea : t.envLease = s.envLease)
    (hwrite : t.writeLease = s.writeLease) (hclock : t.clock = s.clock)
    (hbegun : ∀ plan ∈ t.begun, plan ∈ s.begun ∨ plan = ⟨planId, s.rolledBack⟩) :
    Quiet steady closing s t := by
  have honw : PlansOnward s t := by
    refine ⟨fun other found hfd => ?_, ?_⟩
    · rw [hplans]
      by_cases hoth : other = planId
      · subst hoth
        cases hrow.symm.trans hfd
        exact ⟨_, by simp, henv, hof, fun h => absurd h hdone, fun h => absurd h hfail⟩
      · exact ⟨found, by simpa [hoth] using hfd, rfl, rfl, id, id⟩
    rw [hfin]
    split
    · exact List.suffix_cons _ _
    · exact List.suffix_refl _
  have hrbk : t.rolledBack = s.rolledBack := by
    unfold Hub.rolledBack
    rw [hhist]
  have hnotDone : ¬ s.Done planId := by
    rintro ⟨found, hfd, hsucc⟩
    cases hrow.symm.trans hfd
    exact hdone hsucc
  refine ⟨⟨?_, ?_, ?_, ?_, ?_⟩, fun j => .of_plans honw hhist hlea hwrite hclock⟩
  · rw [hhist]
    exact h.recorded
  · rw [hhist]
    exact fun v hver => (h.settled v hver).onward honw
  · intro other
    have hsame : other ≠ planId → (t.Done other ↔ s.Done other) := by
      intro hoth
      simp [Hub.Done, hplans, hoth]
    have hself : t.Done planId ↔ row'.progress = .succeeded := by simp [Hub.Done, hplans]
    by_cases hoth : other = planId
    · subst hoth
      rw [hself, hfin]
      have hnot : other ∉ s.finished := fun hmem => hnotDone ((h.finished other).mp hmem)
      split
      next hsucc => simp [hsucc]
      next hunfinished => simp [hunfinished, hnot]
    · rw [hsame hoth, ← h.finished, hfin]
      split
      · simp [hoth]
      · rfl
  · rw [hhist]
    exact fun hclos v hver hstat => (h.closed hclos v hver hstat).onward honw
  · intro hclos plan hplan haft
    rw [hrbk, hhist]
    rcases hbegun plan hplan with hold | rfl
    · exact h.begun hclos plan hold haft
    · refine ⟨haft, ?_⟩
      -- every plan of an upgrade that was rolled back has ended
      obtain ⟨closedVersion, hclosedVersion, hstat⟩ := List.any_eq_true.mp haft
      have hclsd := h.closed hclos closedVersion hclosedVersion (by simpa using hstat)
      intro v hver e hent hpid
      have hrecd := h.recorded (List.ne_nil_of_mem hver)
      have hkeys := (Prod.mk.inj (hrecd.scope_eq hver hclosedVersion)).2
      have hkey := key_mem hent
      rw [hkeys] at hkey
      rcases hclsd _ hkey planId hpid with ⟨hsucc, -⟩ | ⟨found, hfd, hfail'⟩
      · exact hnotDone hsucc
      · cases hrow.symm.trans hfd
        exact hfail hfail'

theorem Quiet.newPlan (h : s.Sound steady closing) {planId env : String}
    {rollbackOf : Option String} (hfree : s.plans planId = none) :
    Quiet steady closing s (s.setPlan planId ⟨env, rollbackOf, .computed⟩) := by
  have hrows : ∀ other, ∀ row ∈ s.plans other,
      row ∈ (s.setPlan planId ⟨env, rollbackOf, .computed⟩).plans other := by
    intro other row hrow
    have hoth : other ≠ planId := by
      rintro rfl
      rw [hfree] at hrow
      cases hrow
    simpa [Hub.setPlan, hoth] using hrow
  have honw : PlansOnward s (s.setPlan planId ⟨env, rollbackOf, .computed⟩) :=
    ⟨fun other row hrow => ⟨row, hrows other row hrow, rfl, rfl, id, id⟩, List.suffix_refl _⟩
  refine ⟨⟨h.recorded, ?_, ?_, ?_, h.begun⟩, fun j => .of_plans honw rfl rfl rfl rfl⟩
  · exact fun v hver => (h.settled v hver).onward honw
  · intro other
    rw [show (s.setPlan planId ⟨env, rollbackOf, .computed⟩).finished = s.finished from rfl,
      h.finished]
    refine ⟨fun hdone => hdone.onward honw, ?_⟩
    rintro ⟨row, hrow, hdone⟩
    by_cases hoth : other = planId
    · subst hoth
      obtain rfl : (⟨env, rollbackOf, .computed⟩ : PlanRow) = row := by
        simpa [Hub.setPlan] using hrow
      cases hdone
    · exact ⟨row, by simpa [Hub.setPlan, hoth] using hrow, hdone⟩
  · exact fun hclos v hver hstat => (h.closed hclos v hver hstat).onward honw

/-! #### Leases -/

theorem Hub.Sound.setEnv (h : s.Sound steady closing) (name : String) (row : LeaseRow) :
    (s.setEnv name row).Sound steady closing := h.congr rfl rfl rfl rfl

theorem Rely.of_setEnv (hheld : ∀ tok, tok.thread = i → row.Held tok → (s.envLease name).Held tok)
    (hlasts : steady → ∀ tok deadline, tok.thread = i → s.clock < deadline →
      deadline ≤ saturatingAdd s.clock upgradeWriteTtlMs →
      (s.envLease name).LastsUntil tok deadline → row.LastsUntil tok deadline) :
    Rely steady i s (s.setEnv name row) where
  toPlansOnward := .of_eq rfl rfl
  clock _ := Int.le_refl _
  history := ⟨[], rfl, fun _ v hver => by cases hver⟩
  held other tok htok hoth := by
    by_cases hname : other = name
    · subst hname
      exact hheld tok htok (by simpa [Hub.setEnv] using hoth)
    · simpa [Hub.setEnv, hname] using hoth
  lasts hstdy other tok deadline htok hbef hdead hoth := by
    by_cases hname : other = name
    · subst hname
      simpa [Hub.setEnv] using hlasts hstdy tok deadline htok hbef hdead hoth
    · simpa [Hub.setEnv, hname] using hoth
  write _ hlea _ _ := hlea
  unwritten _ _ _ _ _ := rfl

theorem Fair.acquireEnv (h : s.Sound steady closing) {owner : String} {ttlMs : Int}
    {granted : Lease × LeaseRow}
    (hacq : (s.envLease name).acquire i owner ttlMs s.clock = some granted) :
    Fair steady closing i s (s.setEnv name granted.2) := by
  obtain ⟨-, rfl⟩ := LeaseRow.grant_of_acquire hacq
  refine ⟨h.setEnv _ _, fun j hj => .of_setEnv ?_ ?_⟩
  · intro tok htok hheld
    obtain rfl := LeaseRow.held_grant.mp hheld
    exact absurd htok.symm hj
  · intro _ tok _ _ hbef _ hlasts
    rw [hlasts.acquire hbef] at hacq
    cases hacq

/-- A lease is renewed, by whoever knows its token. -/
theorem Quiet.refreshEnv (h : s.Sound steady closing) {refreshed : Lease × LeaseRow}
    (hrefr : (s.envLease name).refresh token upgradeEnvironmentTtlMs s.clock = some refreshed) :
    Quiet steady closing s (s.setEnv name refreshed.2) := by
  refine ⟨h.setEnv _ _, fun j => .of_setEnv ?_ ?_⟩
  · intro token' _ hheld
    exact ((LeaseRow.refresh_spec hrefr).2.2 token').mp hheld
  · intro _ _' _ _ _ hdead hlasts
    refine hlasts.refresh hrefr (Int.le_trans hdead ?_)
    exact saturatingAdd_le_saturatingAdd (Int.le_refl _) (by decide)

/-- A thread gives up a lease of its own. -/
theorem Fair.releaseEnv (h : s.Sound steady closing) (hthr : token.thread = i)
    (hrel : (s.envLease name).release token s.clock = some row) :
    Fair steady closing i s (s.setEnv name row) := by
  obtain ⟨hheld, -, hidle⟩ := LeaseRow.release_spec hrel
  refine ⟨h.setEnv _ _, fun j hj => .of_setEnv ?_ ?_⟩
  · intro token' _ hheld'
    exact absurd hheld' (hidle.not_held token')
  · intro _ token' _ htok' _ _ hlasts
    obtain rfl := hheld.unique hlasts.held
    exact absurd (htok'.symm.trans hthr) hj

/-- The lease of the record is written, and nothing else. -/
theorem Onward.of_writeLease (row : LeaseRow) : Onward steady i s { s with writeLease := row } where
  toPlansOnward := .of_eq rfl rfl
  clock _ := Int.le_refl _
  history := ⟨[], rfl, fun _ v hver => by cases hver⟩
  held _ _ _ hheld := hheld
  lasts _ _ _ _ _ _ _ hlasts := hlasts

theorem Fair.of_writeLease (h : s.Sound steady closing)
    (hrow : ∀ l ∈ row.current, l.status = .active → l.fencingToken.thread = i) :
    Fair steady closing i s { s with writeLease := row } := by
  refine ⟨h.congr rfl rfl rfl rfl, fun j hj => ⟨.of_writeLease row, ?_, fun _ _ _ _ _ => rfl⟩⟩
  intro l hlea hactv hthr
  exact absurd (hthr.symm.trans (hrow l hlea hactv)) hj

theorem Fair.acquireWrite (h : s.Sound steady closing) {owner : String} {ttlMs now : Int}
    {granted : Lease × LeaseRow} (hacq : s.writeLease.acquire i owner ttlMs now = some granted) :
    Fair steady closing i s { s with writeLease := granted.2 } := by
  obtain ⟨-, rfl⟩ := LeaseRow.grant_of_acquire hacq
  refine .of_writeLease h ?_
  intro l hlea _
  cases hlea
  rfl

theorem Fair.releaseWrite (h : s.Sound steady closing) {now : Int}
    (hrel : s.writeLease.release token now = some row) :
    Fair steady closing i s { s with writeLease := row } := by
  obtain ⟨-, -, hidle⟩ := LeaseRow.release_spec hrel
  exact .of_writeLease h fun l hlea hactv => absurd hactv (hidle l hlea)

/-! #### Versions -/

theorem Quiet.create (h : s.Sound steady closing) {r : UpgradeRecord} (hnil : s.history = [])
    (hcohort : r.environments ≠ [])
    (hents : ∀ e ∈ r.environments, e.status = .pending ∧ e.planId.isSome ∧ e.name ≠ "")
    (hstat : r.status = .admitted) : Quiet steady closing s (s.store r []) := by
  have honw : PlansOnward s (s.store r []) := .of_eq rfl rfl
  refine ⟨⟨?_, ?_, h.finished, ?_, ?_⟩, fun j => ⟨⟨honw, fun _ => Int.le_refl _, ?_,
    fun _ _ _ hheld => hheld, fun _ _ _ _ _ _ _ hlasts => hlasts⟩, fun _ hlea _ _ => hlea,
    (absurd hnil)⟩⟩
  · intro _
    simp only [Hub.store, hnil]
    exact .opened hcohort hents hstat
  · intro v hver e hent _ _
    simp only [Hub.store, hnil, List.mem_singleton] at hver
    subst hver
    rw [(hents e hent).1]
    exact ⟨nofun, nofun⟩
  · intro _ v hver hrbk
    simp only [Hub.store, hnil, List.mem_singleton] at hver
    subst hver
    exact absurd (hstat.symm.trans hrbk) nofun
  · intro hclos plan hplan haft
    have hrbk := (h.begun hclos plan hplan haft).1
    simp [Hub.rolledBack, hnil] at hrbk
  · refine ⟨[⟨r, []⟩], rfl, ?_⟩
    intro _ v hver name hname
    obtain rfl := List.mem_singleton.mp hver
    cases hname

/-- The call of thread `i` read `base`, and nobody wrote since under a lease it holds. -/
structure Reading (steady : Prop) (i : Nat) (held : HeldEnvironments) (base : UpgradeRecord)
    (s : Hub) : Prop where
  owned : ∀ lease ∈ held, lease.2.thread = i
  since : ∃ newer version older, s.history = newer ++ version :: older ∧ version.record = base ∧
    (steady → ∀ written ∈ newer, ∀ lease ∈ held, (s.envLease lease.1).Held lease.2 →
      lease.1 ∉ written.locked)

theorem Reading.onward {held : HeldEnvironments} (h : Reading steady i held base s)
    (hst : Onward steady i s t) : Reading steady i held base t := by
  obtain ⟨newer, v, older, hhist, hbase, hfree⟩ := h.since
  obtain ⟨new, hnew, hnewFree⟩ := hst.history
  refine ⟨h.owned, new ++ newer, v, older, ?_, hbase, ?_⟩
  · rw [hnew, hhist, List.append_assoc]
  · intro hstdy written hwr l hlea hheld hlock
    rcases List.mem_append.mp hwr with hwr | hwr
    · exact hnewFree hstdy written hwr _ hlock _ (h.owned l hlea) hheld
    · exact hfree hstdy written hwr l hlea (hst.held _ _ (h.owned l hlea) hheld) hlock

/-- What a merge says of its environments is true if what went into it is. -/
theorem Merges.settled (h : Merges base mod cur merged) (hprod : mod.product = cur.product)
    (hmodf : Settled mod s) (hcur : Settled cur s) : Settled merged s := by
  intro e hent
  obtain ⟨k, hk⟩ := List.mem_iff_getElem?.mp hent
  rw [h.product]
  rcases h.entry hk with hst | ⟨old, -, hnew, -⟩
  · exact hcur e (List.mem_of_getElem? hst)
  · rw [← hprod]
    exact hmodf e (List.mem_of_getElem? hnew)

/-- A merge that ends rolled back has all its plans closed. -/
theorem Merges.closed (h : Merges base mod cur merged) (hsett : Settled merged s)
    (hscope : merged.scope = cur.scope) (hmodf : mod.scope = cur.scope)
    (hwr : mod.status = .rolledBack → mod.status ≠ base.status → Closed mod s)
    (hcur : cur.status = .rolledBack → Closed cur s)
    (hstat : merged.status = .rolledBack) : Closed merged s := by
  cases h.origin with
  | derived hderived =>
    refine hsett.closed fun e hent _ _ => .inl ?_
    exact all_rolledBack_of_summarize (hderived.symm.trans hstat) e hent
  | written _ hchgd hgiv =>
    exact (hwr (hgiv.symm.trans hstat) hchgd).congr (hscope.trans hmodf.symm)
  | stored _ hkept _ => exact (hcur (hkept.symm.trans hstat)).congr hscope

/-- A merge is written by a thread that holds the lease of the record and its environments. -/
theorem Fair.put (h : s.Sound steady closing) {held : HeldEnvironments} {l : Lease}
    (hactv : s.writeLease.requireActive token s.clock = some l) (htok : token.thread = i)
    (hreading : Reading steady i held base s)
    (hheld : steady → ∀ l ∈ held, (s.envLease l.1).Held l.2) (hmove : Move held.names base mod)
    (hsett : Settled mod s)
    (hclsd : closing → mod.status = .rolledBack → mod.status ≠ base.status → Closed mod s)
    (hcur : s.record? = some cur) (hmerge : mergeUpgrade base mod cur = .ok merged) :
    Fair steady closing i s (s.store merged held.names) := by
  have hmerges := merges_of_mergeUpgrade hmerge
  obtain ⟨newer, v, older, hhist, rfl, hfree⟩ := hreading.since
  obtain ⟨stored, hst, rfl⟩ := Option.map_eq_some_iff.mp hcur
  have hne : s.history ≠ [] := by simp [hhist]
  have hrecd := h.recorded hne
  have hbaseMem : v ∈ s.history := by simp [hhist]
  have hstoredMem : stored ∈ s.history := List.mem_of_mem_head? hst
  have hbaseScope := hrecd.scope_eq hbaseMem hstoredMem
  have hmodifiedScope : mod.scope = stored.record.scope :=
    (Prod.ext hmove.revises.product hmove.revises.keys).trans hbaseScope
  have hscope := hmerges.scope hmove.revises.keys hbaseScope
  have honw : PlansOnward s (s.store merged held.names) := .of_eq rfl rfl
  have hmergedSettled := hmerges.settled (Prod.mk.inj hmodifiedScope).1 hsett
    (h.settled stored hstoredMem)
  have holder : s.writeLease.Held token := LeaseRow.held_of_requireActive hactv
  refine ⟨⟨?_, ?_, h.finished, ?_, ?_⟩, ?_⟩
  · intro _
    refine hrecd.wrote hhist hst ?_ hmove hmerges
    intro hstdy written hwr name hname
    obtain ⟨l, hlea, rfl⟩ := List.mem_map.mp hname
    exact hfree hstdy written hwr l hlea (hheld hstdy l hlea)
  · intro written hwr
    rcases List.mem_cons.mp hwr with rfl | hwr
    · exact hmergedSettled.onward honw
    · exact (h.settled written hwr).onward honw
  · intro hclos written hwr hstat
    rcases List.mem_cons.mp hwr with rfl | hwr
    · exact (hmerges.closed hmergedSettled hscope hmodifiedScope (hclsd hclos)
        (h.closed hclos stored hstoredMem) hstat).onward honw
    · exact (h.closed hclos written hwr hstat).onward honw
  · intro hclos plan hplan haft
    obtain ⟨hrbk, hothers⟩ := h.begun hclos plan hplan haft
    refine ⟨by simp [Hub.store, Hub.rolledBack] at hrbk ⊢; exact .inr hrbk, ?_⟩
    intro written hwr e hent hpid
    rcases List.mem_cons.mp hwr with rfl | hwr
    · have hkey := key_mem hent
      rw [(Prod.mk.inj hscope).2] at hkey
      obtain ⟨entry', hent', heq⟩ := List.mem_map.mp hkey
      exact hothers stored hstoredMem entry' hent' ((Prod.mk.inj heq).2.trans hpid)
    · exact hothers written hwr e hent hpid
  · intro j hj
    refine ⟨⟨honw, fun _ => Int.le_refl _, ⟨[⟨merged, held.names⟩], rfl, ?_⟩,
      fun _ _ _ hheld => hheld, fun _ _ _ _ _ _ _ hlasts => hlasts⟩, fun _ hlea _ _ => hlea, ?_⟩
    · intro hstdy written hwr name hname other hoth hheldOther
      obtain rfl := List.mem_singleton.mp hwr
      obtain ⟨l, hlea, rfl⟩ := List.mem_map.mp hname
      obtain rfl := (hheld hstdy l hlea).unique hheldOther
      exact hj (hoth.symm.trans (hreading.owned l hlea))
    · intro _ other hoth hactiveOther hthr
      obtain rfl := holder.unique ⟨other, hoth, hactiveOther, rfl⟩
      exact absurd (hthr.symm.trans htok) hj

end Steps

end Tenkai.Connectivity
