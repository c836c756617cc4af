import Tenkai.MigrationLock

/-!
# Whether the progress of a migration is lost

A call that read the record before another one's receipts were written goes on from its own copy:
it runs effects again and writes the receipts away (`stale_execute_loses_receipt`). `progress_kept`
is what holds when no call works on a stale copy.
-/

namespace Tenkai.Migration

def Current (s : Hub) (key : RecordKey) (known : List MigrationRecord) : Prop :=
  ∃ stored ∈ s.records key, stored ∈ known

instance (s : Hub) (key : RecordKey) (known : List MigrationRecord) :
    Decidable (Current s key known) :=
  inferInstanceAs (Decidable (∃ stored ∈ s.records key, _))

/-- A call takes the lease, begins an effect and writes only while its copy is current. -/
def ProgressAllowed (s : Hub) : Op → Prop
  | .putRecord key _ known => Current s key known
  | .acquireExec key _ known => Current s key known
  | .beginEffect key _ known => Current s key known
  | _ => True

instance (s : Hub) : (op : Op) → Decidable (ProgressAllowed s op)
  | .putRecord key _ known => inferInstanceAs (Decidable (Current s key known))
  | .acquireExec key _ known => inferInstanceAs (Decidable (Current s key known))
  | .beginEffect key _ known => inferInstanceAs (Decidable (Current s key known))
  | .decide _ | .nowMillis | .approvalDigest _ _ | .getPlan _ | .createPinPlan _ _ | .getRecord _
  | .createRecord _ _ | .refreshExec _ _ | .releaseExec _ _ | .getLock _ | .createLock _ _ _
  | .putLock _ _ | .deleteLock _ | .getEnv _ | .acquireEnv _ _ _ _ | .takeoverEnv _ _ _ _ _ _
  | .refreshEnv _ _ | .releaseEnv _ => isTrue trivial

def progressAllowed (op : interface.Op) (_ : interface.Choice op) (s : Hub) : Prop :=
  ProgressAllowed s op

instance (op : interface.Op) (turn : interface.Choice op) (s : Hub) :
    Decidable (progressAllowed op turn s) :=
  inferInstanceAs (Decidable (ProgressAllowed s op))

/-- Nothing of a migration's progress was lost or reversed. Versions of the record stand in the
    history with the last one first. -/
structure Hub.Progressed (s : Hub) (key : RecordKey) : Prop where
  /-- An accepted receipt is in every later version, as it was or as rolled back. -/
  kept : (s.history key).Pairwise fun later earlier =>
    ∀ receipt ∈ earlier.receipts, receipt.result = .accepted →
      ∃ kept ∈ later.receipts, Carried receipt kept
  /-- The effect of an accepted checkpoint is not begun again. -/
  once : ∀ begun ∈ s.effects, begun.key = key → ∀ earlier ∈ begun.before,
    ∀ receipt ∈ earlier.receipts, receipt.result = .accepted →
      receipt.checkpointId ≠ begun.checkpointId
  generations : (s.history key).Pairwise fun later earlier =>
    earlier.fenceGeneration ≤ later.fenceGeneration
  /-- A call that expects a generation below the stored one does not get the lease. -/
  fenced : ∀ grant ∈ s.grants, grant.key = key → ∀ stored ∈ grant.stored,
    ∀ expected ∈ grant.expected, ¬ expected < stored.fenceGeneration
  /-- What is irreversible is not reported as rolled back. -/
  irreversible : (s.history key).Pairwise fun later earlier =>
    (∃ receipt ∈ earlier.receipts, receipt.class_ = .irreversible ∧ receipt.result = .accepted) →
      later.status ≠ .rolledBack

/-! ### One operation -/

/-- The account is right, and every version goes on from those before it. -/
structure Hub.Tracked (s : Hub) : Prop where
  stored : ∀ key, (s.history key).head? = s.records key
  chain : ∀ key, (s.history key).Pairwise fun later earlier => Evolves earlier later
  sound : ∀ key, ∀ record ∈ s.history key, record.Sound
  once : ∀ begun ∈ s.effects, ∀ earlier ∈ begun.before, ∀ receipt ∈ earlier.receipts,
    receipt.checkpointId ≠ begun.checkpointId
  fenced : ∀ grant ∈ s.grants, ∀ stored ∈ grant.stored, ∀ expected ∈ grant.expected,
    expected = stored.fenceGeneration

section Operations

variable {s : Hub} {key : RecordKey} {record stored : MigrationRecord}

theorem Hub.tracked_idle {records : RecordKey → Option MigrationRecord}
    (hsnd : ∀ key, ∀ r ∈ records key, r.Sound) : (Hub.idle records).Tracked := by
  constructor
  · intro key
    cases hrec : records key <;> simp [Hub.idle, hrec]
  · intro key
    cases hrec : records key <;> simp [Hub.idle, hrec]
  · intro key r hrec
    exact hsnd key r (Option.mem_toList.mp hrec)
  · simp [Hub.idle]
  · simp [Hub.idle]

theorem Hub.Tracked.evolves_stored (h : s.Tracked) (hst : s.records key = some stored) :
    ∀ earlier ∈ s.history key, Evolves earlier stored := by
  have hhead := (h.stored key).trans hst
  have hchain := h.chain key
  intro earlier hearl
  cases hhist : s.history key with
  | nil =>
    rw [hhist] at hearl
    cases hearl
  | cons last before =>
    rw [hhist] at hhead hchain hearl
    cases hhead
    rcases List.mem_cons.mp hearl with rfl | hbef
    · exact .refl _
    · exact (List.pairwise_cons.mp hchain).1 earlier hbef

theorem Hub.Tracked.sound_stored (h : s.Tracked) (hst : s.records key = some stored) :
    stored.Sound := by
  have hhead := (h.stored key).trans hst
  exact h.sound key stored (List.mem_of_head? hhead)

theorem Hub.Tracked.store (h : s.Tracked) (hsnd : record.Sound)
    (hevol : ∀ earlier ∈ s.history key, Evolves earlier record) : (s.store key record).Tracked := by
  constructor
  · intro other
    by_cases hsame : other = key
    · subst hsame
      simp [Hub.store]
    · simp only [Hub.store, Function.update_of_ne hsame]
      exact h.stored other
  · intro other
    by_cases hsame : other = key
    · subst hsame
      simp only [Hub.store, Function.update_self]
      exact List.pairwise_cons.mpr ⟨hevol, h.chain other⟩
    · simp only [Hub.store, Function.update_of_ne hsame]
      exact h.chain other
  · intro other v hver
    by_cases hsame : other = key
    · subst hsame
      simp only [Hub.store, Function.update_self] at hver
      rcases List.mem_cons.mp hver with rfl | hold
      · exact hsnd
      · exact h.sound other v hold
    · simp only [Hub.store, Function.update_of_ne hsame] at hver
      exact h.sound other v hver
  · exact h.once
  · exact h.fenced

/-- A lawful operation on a current copy loses nothing. -/
theorem Hub.Tracked.effect (thread : Nat) (now : Int) {op : Op} (h : s.Tracked) (hlaw : Lawful op)
    (halw : ProgressAllowed s op) (ans : op.Answer) : (effect thread now s op ans).2.Tracked := by
  cases op with
  | decide | nowMillis | approvalDigest | getPlan | createPinPlan | getRecord | getLock | getEnv =>
    exact h
  | putLock | deleteLock => exact { h with }
  | createRecord key record =>
    simp only [Migration.effect]
    split
    · exact h
    next hnone =>
      apply h.store hlaw
      have hempty := (h.stored key).trans hnone
      rw [List.head?_eq_none_iff] at hempty
      simp [hempty]
  | putRecord key record known =>
    obtain ⟨stored, hst, hknown⟩ := halw
    have hevol : Evolves stored record := hlaw stored hknown
    apply h.store (hevol.sound (h.sound_stored hst))
    intro earlier hearl
    exact (h.evolves_stored hst earlier hearl).trans hevol
  | acquireExec key expected known =>
    obtain ⟨stored, hst, hknown⟩ := halw
    simp only [Migration.effect]
    split
    · refine { h with fenced := ?_ }
      intro grant hgrant
      rcases List.mem_cons.mp hgrant with rfl | hold
      · intro v hver gen hgen
        obtain rfl := Option.mem_unique hst hver
        exact hlaw _ hknown gen hgen
      · exact h.fenced grant hold
    · exact h
  | beginEffect key checkpointId known =>
    obtain ⟨stored, hst, hknown⟩ := halw
    refine { h with once := ?_ }
    intro begun hbegun
    rcases List.mem_cons.mp hbegun with rfl | hold
    · intro earlier hearl receipt hrcpt hid
      obtain ⟨kept, hkept, hcarr⟩ := (h.evolves_stored hst earlier hearl).receipts receipt hrcpt
      exact hlaw stored hknown kept hkept (hcarr.checkpointId.trans hid)
    · exact h.once begun hold
  | refreshExec | releaseExec | createLock | acquireEnv | takeoverEnv | refreshEnv | releaseEnv =>
    simp only [Migration.effect]
    split
    · exact { h with }
    · exact { h with }

theorem Hub.Tracked.progressed (h : s.Tracked) (key : RecordKey) : s.Progressed key where
  kept := (h.chain key).imp fun hevol receipt hrcpt _ => hevol.receipts receipt hrcpt
  once begun hbegun _ earlier hearl receipt hrcpt _ :=
    h.once begun hbegun earlier hearl receipt hrcpt
  generations := (h.chain key).imp fun hevol => hevol.generation
  fenced grant hgrant _ stored hst expected hexp :=
    Nat.not_lt_of_le (Nat.le_of_eq (h.fenced grant hgrant stored hst expected hexp).symm)
  irreversible := by
    apply (h.chain key).imp_of_mem
    rintro later earlier hlat - hevol ⟨receipt, hrcpt, hblocks⟩ hstat
    obtain ⟨kept, hkept, hcarr⟩ := hevol.receipts receipt hrcpt
    have hstill := hcarr.blocksRollback (blocksRollback_iff.mpr hblocks)
    rw [(h.sound key later hlat).rolledBack hstat kept hkept] at hstill
    cases hstill

end Operations

/-- In every interleaving of calls in which the stored record is one that the call read or wrote
    itself whenever it takes the execution lease, begins an effect or writes the record: no accepted
    receipt is lost and no accepted effect is begun again, generations do not decrease, no call with
    a stale generation gets the lease, and what is irreversible is not reported as rolled back. -/
theorem progress_kept (records : RecordKey → Option MigrationRecord)
    (hsound : ∀ key, ∀ record ∈ records key, record.Sound) (events : List (Event interface Call))
    (hrun : Pool.Admissible exec program progressAllowed ⟨.idle records, []⟩ events)
    (key : RecordKey) : (Pool.run exec program ⟨.idle records, []⟩ events).shared.Progressed key := by
  have hend : (Pool.run exec program ⟨.idle records, []⟩ events).shared.Tracked :=
    inv_run (fun thread now s _ turn hs hlawful hallowed =>
      hs.effect thread now hlawful hallowed turn.answer) (Hub.tracked_idle hsound) hrun
  exact hend.progressed key

/-! ### A stale execution -/

section Runs

/-- The migration of `web` is executed and resumed, one call after the other. -/
def sequentialRun : List (Event interface Call) :=
  .call (.execute none "web" (.localDevelopment "drill") (some 0) 0) :: operations 0 38 ++
  .call (.resume none "web" (.localDevelopment "drill") (some 1) 0) :: operations 1 40

/-- A first execution has read the record when the same two calls begin, and goes on after them. -/
def staleRun : List (Event interface Call) :=
  .call (.execute none "web" (.localDevelopment "drill") none 0) :: operations 0 5 ++
  .call (.execute none "web" (.localDevelopment "drill") none 0) :: operations 1 38 ++
  .call (.resume none "web" (.localDevelopment "drill") none 0) :: operations 2 40 ++
  operations 0 33

theorem sound_webMigration (key : RecordKey) :
    ∀ record ∈ (webHub none).records key, record.Sound := by
  intro record hrec
  have hcases : (if key = ⟨none, "web"⟩ then some (webMigration none) else none) = some record :=
    hrec
  split at hcases
  · cases hcases
    exact ⟨fun _ => rfl, nofun⟩
  · cases hcases

theorem progress_kept_web :
    Pool.Admissible exec program progressAllowed ⟨webHub none, []⟩ sequentialRun ∧
      ((Pool.run exec program ⟨webHub none, []⟩ sequentialRun).shared.records ⟨none, "web"⟩).map
        (·.status) = some .succeeded ∧
      (Pool.run exec program ⟨webHub none, []⟩ sequentialRun).shared.Progressed ⟨none, "web"⟩ := by
  have hrun : Pool.Admissible exec program progressAllowed ⟨webHub none, []⟩ sequentialRun := by
    decide +kernel
  exact ⟨hrun, by decide +kernel,
    progress_kept _ sound_webMigration sequentialRun hrun ⟨none, "web"⟩⟩

/-- The stale call runs the first checkpoint again, and its version of the record, without the
    receipt of the second, is the one that is stored. -/
theorem stale_execute_loses_receipt :
    ¬ (Pool.run exec program ⟨webHub none, []⟩ staleRun).shared.Progressed ⟨none, "web"⟩ := by
  intro hprogressed
  have hkept : ((Pool.run exec program ⟨webHub none, []⟩ staleRun).shared.history
      ⟨none, "web"⟩).Pairwise fun later earlier =>
        ∀ receipt ∈ earlier.receipts, receipt.result = .accepted →
          ∃ kept ∈ later.receipts, kept.checkpointId = receipt.checkpointId := by
    apply hprogressed.kept.imp
    intro later earlier hcarried receipt hreceipt haccepted
    obtain ⟨kept, hmem, hkept⟩ := hcarried receipt hreceipt haccepted
    exact ⟨kept, hmem, hkept.checkpointId⟩
  exact absurd hkept (by decide +kernel)

end Runs

end Tenkai.Migration
