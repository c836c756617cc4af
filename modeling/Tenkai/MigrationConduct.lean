import Tenkai.Migration
import Tenkai.Monitor

/-!
# What the operations of a migration call are

What is known of every operation that a call asks for, whatever the store answers (`Lawful`,
`asks_code`): a record that is written goes on from every version the call knows of, an effect has
no receipt in those versions, and leases and locks are asked for as the lock allowed when it was
last looked at.
-/

namespace Tenkai.Migration

open Prog (bailIf)
open M

/-! ### How records go on -/

/-- A receipt is carried on as it is, or as rolled back. What is irreversible is not rolled back. -/
structure Carried (receipt later : CheckpointReceipt) : Prop where
  checkpointId : later.checkpointId = receipt.checkpointId
  class_ : later.class_ = receipt.class_
  effect : later.effect = receipt.effect
  planId : later.planId = receipt.planId
  result : later.result = receipt.result ∨
    receipt.result = .accepted ∧ later.result = .rolledBack ∧ receipt.class_ ≠ .irreversible

/-- What every version of a record keeps to. -/
structure MigrationRecord.Sound (record : MigrationRecord) : Prop where
  admitted : record.status = .admitted → record.receipts = []
  rolledBack : record.status = .rolledBack →
    ∀ receipt ∈ record.receipts, blocksRollback receipt = false

/-- A later version of a record. -/
structure Evolves (record later : MigrationRecord) : Prop where
  receipts : ∀ receipt ∈ record.receipts, ∃ kept ∈ later.receipts, Carried receipt kept
  generation : record.fenceGeneration ≤ later.fenceGeneration
  sound : record.Sound → later.Sound

variable {receipt : CheckpointReceipt} {draft : Draft} {record : MigrationRecord}
  {ckpt : CheckpointDecl}

theorem blocksRollback_iff :
    blocksRollback receipt = true ↔ receipt.class_ = .irreversible ∧ receipt.result = .accepted := by
  cases hclass : receipt.class_ <;> cases hres : receipt.result <;>
    simp [blocksRollback, hclass, hres]

theorem Carried.refl (receipt : CheckpointReceipt) : Carried receipt receipt :=
  ⟨rfl, rfl, rfl, rfl, .inl rfl⟩

theorem Carried.trans {a b c : CheckpointReceipt} (hab : Carried a b) (hbc : Carried b c) :
    Carried a c where
  checkpointId := hbc.checkpointId.trans hab.checkpointId
  class_ := hbc.class_.trans hab.class_
  effect := hbc.effect.trans hab.effect
  planId := hbc.planId.trans hab.planId
  result := by
    rcases hab.result with hsame | ⟨hacc, hrld, hclass⟩
    · rcases hbc.result with hsame' | ⟨hacc, hrld, hclass⟩
      · exact .inl (hsame'.trans hsame)
      · exact .inr ⟨hsame ▸ hacc, hrld, hab.class_ ▸ hclass⟩
    · rcases hbc.result with hsame' | ⟨hacc', -, -⟩
      · exact .inr ⟨hacc, hsame'.trans hrld, hclass⟩
      · rw [hrld] at hacc'
        cases hacc'

theorem Carried.blocksRollback {later : CheckpointReceipt} (h : Carried receipt later)
    (hblocks : blocksRollback receipt = true) : blocksRollback later = true := by
  obtain ⟨hclass, hres⟩ := blocksRollback_iff.mp hblocks
  rcases h.result with hsame | ⟨-, -, hreversible⟩
  · exact blocksRollback_iff.mpr ⟨h.class_.trans hclass, hsame.trans hres⟩
  · exact absurd hclass hreversible

section Evolves

variable {record later latest : MigrationRecord}

theorem Evolves.refl (record : MigrationRecord) : Evolves record record :=
  ⟨fun receipt hrcpt => ⟨receipt, hrcpt, .refl receipt⟩, Nat.le_refl _, id⟩

theorem Evolves.trans (h : Evolves record later) (h' : Evolves later latest) :
    Evolves record latest where
  receipts receipt hrcpt := by
    obtain ⟨kept, hkept, hcarr⟩ := h.receipts receipt hrcpt
    obtain ⟨kept', hkept', hcarr'⟩ := h'.receipts kept hkept
    exact ⟨kept', hkept', hcarr.trans hcarr'⟩
  generation := Nat.le_trans h.generation h'.generation
  sound := h'.sound ∘ h.sound

/-- A change that leaves the receipts alone, and whose status asks nothing of them. -/
theorem Evolves.of_receipts (hrcpts : later.receipts = record.receipts)
    (hgen : record.fenceGeneration ≤ later.fenceGeneration)
    (hadmd : later.status ≠ .admitted) (hrbk : later.status ≠ .rolledBack) :
    Evolves record later where
  receipts receipt hrcpt := ⟨receipt, hrcpts ▸ hrcpt, .refl receipt⟩
  generation := hgen
  sound _ := ⟨fun h => absurd h hadmd, fun h => absurd h hrbk⟩

/-- A change of fields that neither the receipts nor the status depend on. -/
theorem Evolves.of_fields (hrcpts : later.receipts = record.receipts)
    (hgen : later.fenceGeneration = record.fenceGeneration)
    (hstat : later.status = record.status) : Evolves record later where
  receipts receipt hrcpt := ⟨receipt, hrcpts ▸ hrcpt, .refl receipt⟩
  generation := Nat.le_of_eq hgen.symm
  sound hsnd := by
    constructor
    · rw [hstat, hrcpts]
      exact hsnd.admitted
    · rw [hstat, hrcpts]
      exact hsnd.rolledBack

theorem evolves_pushReceipt (r : MigrationRecord) (ckpt : CheckpointDecl)
    (id : Option String) : Evolves r (pushReceipt r ckpt id) where
  receipts receipt hrcpt := ⟨receipt, List.mem_append_left _ hrcpt, .refl receipt⟩
  generation := Nat.le_refl _
  sound _ := by
    constructor <;>
    · simp only [pushReceipt]
      split <;> simp

/-- Nothing has happened yet, or everything was rolled back before. -/
theorem evolves_rolledBack (hstat : record.status = .admitted ∨ record.status = .rolledBack) :
    Evolves record { record with status := .rolledBack } where
  receipts receipt hrcpt := ⟨receipt, hrcpt, .refl receipt⟩
  generation := Nat.le_refl _
  sound hsnd := by
    constructor
    · intro h
      cases h
    · intro _ receipt hrcpt
      rcases hstat with hadmd | hrbk
      · rw [show record.receipts = [] from hsnd.admitted hadmd] at hrcpt
        cases hrcpt
      · exact hsnd.rolledBack hrbk receipt hrcpt

theorem carried_rollBackReceipt (gen : Nat) (h : blocksRollback receipt = false) :
    Carried receipt (rollBackReceipt gen receipt) := by
  unfold rollBackReceipt
  split
  next hacc =>
    refine ⟨rfl, rfl, rfl, rfl, .inr ⟨hacc, rfl, fun hclass => ?_⟩⟩
    rw [blocksRollback_iff.mpr ⟨hclass, hacc⟩] at h
    cases h
  · exact .refl receipt

theorem blocksRollback_rollBackReceipt (gen : Nat) (receipt : CheckpointReceipt) :
    blocksRollback (rollBackReceipt gen receipt) = false := by
  rw [Bool.eq_false_iff]
  intro hblocks
  obtain ⟨-, hres⟩ := blocksRollback_iff.mp hblocks
  unfold rollBackReceipt at hres
  split at hres
  · cases hres
  next hnot => exact hnot hres

theorem evolves_rolledBackRecord (h : ∀ receipt ∈ record.receipts, blocksRollback receipt = false) :
    Evolves record (rolledBackRecord record) where
  receipts receipt hrcpt := ⟨rollBackReceipt record.fenceGeneration receipt,
    List.mem_map_of_mem hrcpt, carried_rollBackReceipt _ (h receipt hrcpt)⟩
  generation := Nat.le_refl _
  sound _ := by
    constructor
    · intro hstat
      cases hstat
    · intro _ receipt hrcpt
      obtain ⟨before, -, rfl⟩ := List.mem_map.mp hrcpt
      exact blocksRollback_rollBackReceipt _ before

end Evolves

/-- The record in memory goes on from every version the call knows of. -/
def Draft.Forward (draft : Draft) : Prop := ∀ known ∈ draft.known, Evolves known draft.record

theorem Draft.forward_read (r : MigrationRecord) : (Draft.read r).Forward := by
  intro known hknown
  obtain rfl := List.mem_singleton.mp hknown
  exact .refl known

theorem Draft.Forward.set (h : draft.Forward) (hevol : Evolves draft.record record) :
    (draft.set record).Forward :=
  fun known hknown => (h known hknown).trans hevol

theorem Draft.Forward.written (h : draft.Forward) : draft.written.Forward := by
  intro known hknown
  rcases List.mem_cons.mp hknown with rfl | hold
  · exact .refl _
  · exact h known hold

/-! ### What the operations of a call are -/

def MigrationLock.Allows (lock : MigrationLock) (owner : String) : Prop :=
  owner = migrationOwner lock.owner ∨ lock.allowedPlanId = some owner

def Lawful : Op → Prop
  | .createRecord _ record => record.Sound
  | .putRecord _ record known => ∀ version ∈ known, Evolves version record
  | .acquireExec _ expected known =>
    ∀ version ∈ known, ∀ generation ∈ expected, generation = version.fenceGeneration
  | .beginEffect _ checkpointId known =>
    ∀ version ∈ known, ∀ receipt ∈ version.receipts, receipt.checkpointId ≠ checkpointId
  | .createLock key lock lease =>
    lease.environment = key.environment ∧ lease.owner = migrationOwner lock.owner
  | .acquireEnv _ owner _ seen => ∀ lock ∈ seen, lock.Allows owner
  | .takeoverEnv _ owner _ _ _ seen => ∀ lock ∈ seen, lock.Allows owner
  | _ => True

def lawful : Monitor interface where
  Stage := Unit
  legal _ := Lawful
  after _ _ _ := ()

/-- Every operation of a program is lawful, and `Q` holds of what it returns. -/
def Asks {α : Type} (x : M α) (Q : α → Prop) : Prop :=
  Heeds lawful x (fun a _ => Q a) (fun _ _ => True) ()

section Asks

variable {α β : Type} {x : M α} {f : α → M β} {Q : β → Prop} {R : α → Prop}

theorem Asks.mono {R' : α → Prop} (h : Asks x R) (hR : ∀ a, R a → R' a) : Asks x R' :=
  Heeds.mono h (fun a _ => hR a) fun _ _ h => h

@[simp] theorem asks_bind : Asks (x >>= f) Q ↔ Asks x fun a => Asks (f a) Q := Heeds.bind_iff

@[simp] theorem asks_pure {a : α} : Asks (pure a : M α) R ↔ R a := .rfl

@[simp] theorem asks_throw (error : String) : Asks (throw error : M α) R := trivial

@[simp] theorem asks_ask {op : Op} {R : op.Value → Prop} :
    Asks (ask op) R ↔ Lawful op ∧ ∀ a, R a := by
  constructor
  · intro h
    exact ⟨h.1, fun a => h.2 (.ok a)⟩
  · intro h
    refine ⟨h.1, fun reply => ?_⟩
    cases reply with
    | ok a => exact h.2 a
    | error e => trivial

@[simp] theorem asks_caught {R : Except String α → Prop} (he : ∀ e, R (.error e)) :
    Asks (caught x) R ↔ Asks x fun a => R (.ok a) := by
  constructor
  · intro h
    refine (Obeys.of_bind h).mono ?_
    rintro (error | a) _ hr
    · trivial
    · exact hr
  · intro h
    refine Heeds.mono (Heeds.caught h) ?_ fun _ _ h => h
    rintro (error | a) _ hr
    · exact he error
    · exact hr

@[simp] theorem asks_returned {result : Except String α} :
    Asks (returned result) R ↔ ∀ a, result = .ok a → R a := by
  cases result <;> simp [Asks, Heeds, Obeys, returned]

@[simp] theorem asks_ite {c : Prop} [Decidable c] {y : M α} :
    Asks (if c then x else y) R ↔ (c → Asks x R) ∧ (¬ c → Asks y R) := by
  split <;> simp [*]

@[simp] theorem asks_bailIf {c : Prop} [Decidable c] {error : String} {R : Unit → Prop} :
    Asks (bailIf c error : M Unit) R ↔ (¬ c → R ()) := by
  simp [bailIf]

@[simp] theorem asks_decide {question : Question} {R : Bool → Prop} :
    Asks (decide question) R ↔ ∀ answer, R answer :=
  asks_ask.trans (and_iff_right trivial)

@[simp] theorem asks_require {question : Question} {refusal : String} {R : Unit → Prop} :
    Asks (require question refusal) R ↔ R () := by
  simp [require]

end Asks

/-! #### The lease of an environment -/

section Environment

variable {environment owner planId : String} {key : LockKey} {lease : EnvironmentLease} {now : Int}
  {automaticTakeover : Bool} {renewals : Nat}

@[simp] theorem asks_nowMillis {Q : Int → Prop} : Asks nowMillis Q ↔ ∀ now, Q now :=
  asks_ask.trans (and_iff_right trivial)

@[simp] theorem asks_getLock {Q : Option MigrationLock → Prop} :
    Asks (getLock key) Q ↔ ∀ found, Q found :=
  asks_ask.trans (and_iff_right trivial)

@[simp] theorem asks_getEnv {Q : Option Lease → Prop} :
    Asks (getEnv environment) Q ↔ ∀ found, Q found :=
  asks_ask.trans (and_iff_right trivial)

@[simp] theorem asks_releaseEnv {Q : Unit → Prop} : Asks (releaseEnv lease) Q ↔ ∀ a, Q a :=
  asks_ask.trans (and_iff_right trivial)

@[simp] theorem asks_loadPlan {Q : PlanView → Prop} :
    Asks (loadPlan planId) Q ↔ (planId ≠ "" → ∀ plan, Q plan) := by
  apply asks_bind.trans
  apply asks_bailIf.trans
  exact imp_congr_right fun _ => asks_ask.trans (and_iff_right trivial)

@[simp] theorem asks_releaseEnvironment {Q : Unit → Prop} :
    Asks (releaseEnvironment lease) Q ↔ ∀ a, Q a := by
  simp [releaseEnvironment]

/-- A lock that lets an owner pass allows it: no owner is the empty id. -/
theorem MigrationLock.allows_of_admits {lock : MigrationLock} {owner : String} (hnam : owner ≠ "")
    (h : ¬ lock.admits owner = false) : lock.Allows owner := by
  simp only [MigrationLock.admits, Bool.not_eq_false, Bool.or_eq_true, decide_eq_true_eq] at h
  rcases h with hplan | howner
  · cases halw : lock.allowedPlanId with
    | none =>
      rw [halw] at hplan
      exact absurd hplan hnam
    | some id =>
      rw [halw] at hplan
      right
      rw [halw, hplan, Option.getD_some]
  · exact .inl howner

theorem migrationOwner_ne_empty (name : String) : migrationOwner name ≠ "" := by
  intro h
  have happend : "package-migration:" ++ name = "" := h
  exact absurd (String.append_eq_empty_iff.mp happend).1 (by decide)

theorem asks_rejectForeignMigrationLock (hnam : owner ≠ "") {Q : Option MigrationLock → Prop}
    (hQ : ∀ seen, (∀ lock ∈ seen, lock.Allows owner) → Q seen) :
    Asks (rejectForeignMigrationLock environment owner) Q := by
  simp only [rejectForeignMigrationLock, asks_bind, asks_getLock]
  intro found
  cases found with
  | none => exact hQ none (by simp)
  | some lock =>
    simp only [asks_bind, asks_bailIf, asks_pure]
    intro hadm
    apply hQ
    intro seen hseen
    cases hseen
    exact MigrationLock.allows_of_admits hnam hadm

theorem asks_rejectOlderClaims {Q : Unit → Prop} (hQ : Q ()) :
    Asks (rejectOlderClaims environment now) Q := by
  simp [rejectOlderClaims, Option.forall, hQ]

theorem asks_rejectExpiredHolder {Q : Unit → Prop} (hQ : Q ()) :
    Asks (rejectExpiredHolder environment automaticTakeover now) Q := by
  simp [rejectExpiredHolder, Option.forall, hQ]

theorem asks_acquireOrTakeover {ttlMs : Int} {seen : Option MigrationLock}
    (hseen : ∀ lock ∈ seen, lock.Allows owner) {Q : Lease → Prop} (hQ : ∀ granted, Q granted) :
    Asks (acquireOrTakeover environment owner ttlMs automaticTakeover now seen) Q := by
  have hacq : Asks (acquireEnv environment owner ttlMs seen) fun _ => True :=
    asks_ask.mpr ⟨hseen, fun _ => trivial⟩
  have htake : ∀ tok expiresAt, Asks (takeoverEnv environment owner tok expiresAt ttlMs seen) Q :=
    fun _ _ => asks_ask.mpr ⟨hseen, hQ⟩
  simp only [acquireOrTakeover, asks_bind]
  apply hacq.mono
  intro granted _
  cases granted <;> simp [Option.forall, hQ, htake]

theorem asks_claimEnvironmentWithOptions (hnam : owner ≠ "") {ttlMs : Int}
    {Q : EnvironmentLease → Prop} (hQ : ∀ l, l.environment = environment → l.owner = owner → Q l) :
    Asks (claimEnvironmentWithOptions environment owner ttlMs automaticTakeover) Q := by
  simp only [claimEnvironmentWithOptions, asks_bind, asks_require, asks_nowMillis, asks_decide,
    asks_ite, asks_throw, implies_true, true_and]
  intro _ _ _
  apply asks_rejectForeignMigrationLock hnam
  intro _ hseen
  apply asks_rejectOlderClaims
  apply asks_rejectExpiredHolder
  apply asks_acquireOrTakeover hseen
  intro _
  have hagain : Asks (rejectForeignMigrationLock environment owner) fun _ => True :=
    asks_rejectForeignMigrationLock hnam fun _ _ => trivial
  simp [hQ, hagain]

theorem asks_claimEnvironment (hnam : owner ≠ "") {Q : EnvironmentLease → Prop}
    (hQ : ∀ l, l.environment = environment → l.owner = owner → Q l) :
    Asks (claimEnvironment environment owner) Q :=
  asks_claimEnvironmentWithOptions hnam hQ

theorem asks_claimExecutionEnvironment (hnam : owner ≠ "") {Q : EnvironmentLease → Prop}
    (hQ : ∀ l, Q l) : Asks (claimExecutionEnvironment environment owner) Q := by
  rw [claimExecutionEnvironment, asks_bind]
  apply asks_claimEnvironmentWithOptions hnam
  intro l _ _
  simp [hQ]

@[simp] theorem asks_executeLocked {Q : Unit → Prop} (hQ : Q ()) :
    Asks (executeLocked lease planId renewals) Q := by
  induction renewals with
  | zero => simp [executeLocked, hQ]
  | succ renewals ih =>
    rw [executeLocked, asks_bind]
    exact asks_ask.mpr ⟨trivial, fun _ => ih⟩

@[simp] theorem asks_executeWithOptions {Q : Unit → Prop} (hQ : Q ()) :
    Asks (executeWithOptions planId renewals) Q := by
  simp only [executeWithOptions, asks_bind, asks_loadPlan, asks_require]
  intro hnam plan
  apply asks_claimExecutionEnvironment hnam
  intro lease
  simp [hQ]

end Environment

/-! #### The lock -/

section Lock

variable {record : MigrationRecord} {key : LockKey} {lock : MigrationLock} {planId : String}
  {Q : Unit → Prop}

@[simp] theorem asks_putLock : Asks (putLock key lock) Q ↔ ∀ a, Q a :=
  asks_ask.trans (and_iff_right trivial)

theorem asks_authorizePlanOnLock (hQ : Q ()) : Asks (authorizePlanOnLock record planId) Q := by
  simp [authorizePlanOnLock, Option.forall, hQ]

theorem asks_clearAuthorizedPlan (hQ : Q ()) : Asks (clearAuthorizedPlan record) Q := by
  simp [clearAuthorizedPlan, Option.forall, hQ]

theorem asks_acquireEnvironmentLock (hQ : Q ()) : Asks (acquireEnvironmentLock record) Q := by
  rw [acquireEnvironmentLock, asks_bind]
  apply asks_claimEnvironment (migrationOwner_ne_empty record.name)
  intro l henv howner
  -- a lock that is made is made under the l of its own environment
  have hcreate : Asks (createLock (recordLockId record) ⟨record.name, none⟩ l) fun _ => True :=
    asks_ask.mpr ⟨⟨henv, howner⟩, fun _ => trivial⟩
  simp [holdLock, Option.forall, hQ, hcreate]

theorem asks_releaseEnvironmentLock (hQ : Q ()) : Asks (releaseEnvironmentLock record) Q := by
  have hdelete : Asks (deleteLock (recordLockId record)) Q := asks_ask.mpr ⟨trivial, fun _ => hQ⟩
  simp [releaseEnvironmentLock, Option.forall, hQ, hdelete]

end Lock

/-! #### A checkpoint -/

section Checkpoint

variable {draft : Draft} {ckpt : CheckpointDecl} {auth : Authorization}
  {token : FencingToken} {renewals : Nat} {planId : String}

@[simp] theorem asks_refreshExec {key : RecordKey} {Q : Unit → Prop} :
    Asks (refreshExec key token) Q ↔ ∀ a, Q a :=
  asks_ask.trans (and_iff_right trivial)

theorem asks_persist (h : draft.Forward) {Q : Unit → Prop} (hQ : Q ()) : Asks (persist draft) Q := by
  rw [persist, asks_bind, asks_require]
  exact asks_ask.mpr ⟨h, fun _ => hQ⟩

/-- No version the call knows of has a receipt of the checkpoint. -/
def Draft.Lacks (draft : Draft) (checkpointId : String) : Prop :=
  ∀ version ∈ draft.known, ∀ receipt ∈ version.receipts, receipt.checkpointId ≠ checkpointId

/-- What the record in memory has no receipt of, no version it comes from has. -/
theorem Draft.Forward.lacks (h : draft.Forward) {checkpointId : String}
    (hrec : ∀ receipt ∈ draft.record.receipts, receipt.checkpointId ≠ checkpointId) :
    draft.Lacks checkpointId := by
  intro v hver receipt hrcpt hid
  obtain ⟨kept, hkept, hcarr⟩ := (h v hver).receipts receipt hrcpt
  exact hrec kept hkept (hcarr.checkpointId.trans hid)

theorem asks_beginEffect (hlacks : draft.Lacks ckpt.id) {Q : Unit → Prop} (hQ : Q ()) :
    Asks (beginEffect (recordCatalogId draft.record) ckpt.id draft.known) Q :=
  asks_ask.mpr ⟨hlacks, fun _ => hQ⟩

theorem asks_planApproved {Q : Bool → Prop} (hQ : ∀ approved, Q approved) :
    Asks (planApproved planId auth) Q := by
  cases auth <;> simp [planApproved, hQ]

theorem asks_revalidate (hlacks : draft.Lacks ckpt.id) :
    Asks (revalidate draft ckpt) fun _ => True := by
  rw [revalidate, asks_bind]
  apply asks_claimEnvironment (migrationOwner_ne_empty _)
  intro l _ _
  rw [asks_bind]
  apply asks_beginEffect hlacks
  simp

theorem asks_applyPinned (hlacks : draft.Lacks ckpt.id) :
    Asks (applyPinned draft ckpt planId auth token renewals) fun _ => True := by
  rw [applyPinned, asks_bind, asks_refreshExec]
  intro _
  rw [asks_bind]
  apply asks_planApproved
  intro _
  simp only [asks_ite, asks_bind, asks_require, asks_pure, implies_true, and_true]
  intro _
  apply asks_authorizePlanOnLock
  apply asks_beginEffect hlacks
  simp [asks_clearAuthorizedPlan]

/-- A draft whose receipts are those of an earlier one, and that still goes forward. -/
def Draft.From (draft later : Draft) : Prop :=
  later.Forward ∧ later.record.receipts = draft.record.receipts

theorem Draft.Forward.from_self (h : draft.Forward) : draft.From draft := ⟨h, rfl⟩

/-- The plan of a pin is made and written into the record, and the record is written. -/
theorem asks_pinned {pin : PackagePin} (h : draft.Forward)
    {next : String → MigrationRecord} (hnext : ∀ id, Evolves draft.record (next id))
    (hrcpts : ∀ id, (next id).receipts = draft.record.receipts) :
    Asks (do
      match ← caught (createPinPlan draft.record pin) with
      | .error error => return (draft, .error error)
      | .ok id =>
        let draft := draft.set (next id)
        match ← caught (persist draft) with
        | .error error => return (draft.written, .error error)
        | .ok _ => return (draft.written, .ok id) : M (Draft × Except String String))
      fun out => draft.From out.1 := by
  have hfrom : ∀ id, draft.From (draft.set (next id)).written :=
    fun id => ⟨(h.set (hnext id)).written, hrcpts id⟩
  have hmade : Asks (createPinPlan draft.record pin) fun id =>
      Asks (persist (draft.set (next id))) fun _ => True :=
    asks_ask.mpr ⟨trivial, fun id => asks_persist (h.set (hnext id)) trivial⟩
  simp [h.from_self, hfrom, hmade]

theorem asks_pinPlan (h : draft.Forward) : Asks (pinPlan draft) fun out => draft.From out.1 := by
  unfold pinPlan
  split
  · exact h.from_self
  · exact asks_pinned h (fun _ => .of_fields rfl rfl rfl) fun _ => rfl

theorem asks_applyPin (h : draft.Forward)
    (hrec : ∀ receipt ∈ draft.record.receipts, receipt.checkpointId ≠ ckpt.id) :
    Asks (applyPin draft ckpt auth token renewals) fun out => draft.From out.1 := by
  rw [applyPin, asks_bind, asks_caught (by simp [h.from_self]), asks_require]
  apply asks_bind.mpr
  apply (asks_pinPlan h).mono
  rintro ⟨later, _ | _⟩ hlat
  · exact hlat
  · have hlacks : later.Lacks ckpt.id := by
      apply hlat.1.lacks
      rwa [hlat.2]
    simp [hlat, asks_applyPinned hlacks]

theorem asks_executeCheckpoint (h : draft.Forward)
    (hrec : ∀ receipt ∈ draft.record.receipts, receipt.checkpointId ≠ ckpt.id) :
    Asks (executeCheckpoint draft ckpt auth token renewals) fun out => draft.From out.1 := by
  rw [executeCheckpoint, asks_bind, asks_caught (by simp [h.from_self]), asks_refreshExec]
  intro _
  dsimp only
  split
  · simp [h.from_self, asks_revalidate (h.lacks hrec)]
  · exact asks_applyPin h hrec

end Checkpoint

/-! #### Executing and resuming -/

section Calls

variable {draft : Draft} {record : MigrationRecord} {auth : Authorization}
  {token : FencingToken} {renewals : Nat} {partition : Option String} {name : String}
  {expected : Option Nat}

theorem asks_accept (h : draft.Forward) : Asks (accept draft) fun _ => True := by
  rw [accept, asks_bind]
  apply asks_persist h
  simp [asks_releaseEnvironmentLock]

theorem asks_settle (h : draft.Forward) : Asks (settle draft) fun _ => True := by
  rw [settle, asks_bind]
  apply asks_persist h
  simp [asks_releaseEnvironmentLock]

/-- A migration that is given up is neither admitted nor rolled back. -/
theorem asks_giveUp (h : draft.Forward) {status : MigrationStatus} (hadmd : status ≠ .admitted)
    (hrbk : status ≠ .rolledBack) (error : String) :
    Asks (giveUp draft status error) fun _ => True := by
  rw [giveUp, asks_bind]
  apply asks_persist
  · exact h.set (.of_receipts rfl (Nat.le_refl _) hadmd hrbk)
  · simp [asks_releaseEnvironmentLock]

/-- A receipt that is added after fields that receipts do not depend on were changed. -/
theorem Draft.Forward.push (h : draft.Forward) (hrec : Evolves draft.record record)
    (ckpt : CheckpointDecl) (id : Option String) :
    (draft.set (pushReceipt record ckpt id)).Forward :=
  h.set (hrec.trans (evolves_pushReceipt record ckpt id))

theorem asks_recover (h : draft.Forward) (ckpt : CheckpointDecl) (error : String) :
    Asks (recover draft ckpt error) fun _ => True := by
  have hfail : Asks (giveUp draft .failed error) fun _ => True :=
    asks_giveUp h (by decide) (by decide) error
  unfold recover
  split
  · exact hfail
  next id _ =>
    have hclr : Evolves draft.record { draft.record with pendingPlanId := none } :=
      .of_fields rfl rfl rfl
    have hacc := asks_accept (h.push hclr ckpt (some id))
    have hstat : (draft.set { draft.record with status := .recoveryRequired }).Forward :=
      h.set (.of_receipts rfl (Nat.le_refl _) nofun nofun)
    simp [hfail, hacc, asks_persist hstat]

theorem asks_runCheckpoint (h : draft.Forward) {ckpt : CheckpointDecl}
    (hrec : ∀ receipt ∈ draft.record.receipts, receipt.checkpointId ≠ ckpt.id) :
    Asks (runCheckpoint draft ckpt auth token renewals) fun _ => True := by
  apply asks_bind.mpr
  apply (asks_executeCheckpoint h hrec).mono
  rintro ⟨later, error | pid | pid⟩ hlat
  · exact asks_recover hlat.1 ckpt error
  · have hclr : Evolves later.record
        { later.record with pendingPlanId := none, pendingRollbackPlanId := none } :=
      .of_fields rfl rfl rfl
    exact asks_accept (hlat.1.push hclr ckpt pid)
  · apply asks_bind.mpr
    apply asks_persist
    · exact hlat.1.set (.of_fields rfl rfl rfl)
    · trivial

theorem asks_nextCheckpoint (h : draft.Forward) :
    Asks (nextCheckpoint draft auth token renewals) fun _ => True := by
  rw [nextCheckpoint, asks_bind]
  apply asks_acquireEnvironmentLock
  split
  · rw [asks_bind]
    apply asks_persist
    · exact h.set (.of_receipts rfl (Nat.le_refl _) nofun nofun)
    · simp [asks_releaseEnvironmentLock]
  next ckpt _ =>
    rw [asks_ite, asks_ite, asks_bind]
    refine ⟨fun _ => asks_giveUp h (by decide) (by decide) _, fun _ =>
      ⟨fun _ => asks_persist h trivial, fun hnone => ?_⟩⟩
    apply asks_runCheckpoint h
    intro receipt hrcpt hid
    exact hnone (List.any_eq_true.mpr ⟨receipt, hrcpt, decide_eq_true hid⟩)

theorem asks_stepLocked (resume : Bool) :
    Asks (stepLocked record auth resume token renewals) fun _ => True := by
  have hread := Draft.forward_read record
  unfold stepLocked
  split
  · exact asks_nextCheckpoint (hread.set (.of_receipts rfl (Nat.le_succ _) nofun nofun))
  · simp [asks_nextCheckpoint hread]
  · simp
  · simp

theorem asks_loadIn {Q : MigrationRecord → Prop} (hQ : ∀ r, Q r) :
    Asks (loadIn partition name) Q := by
  have hget : Asks (getRecord (catalogId partition name)) fun _ => True :=
    asks_ask.mpr ⟨trivial, fun _ => trivial⟩
  simp only [loadIn, asks_bind, asks_require]
  apply hget.mono
  intro found _
  cases found <;> simp [hQ]

theorem asks_requireApproval {Q : Unit → Prop} (hQ : Q ()) :
    Asks (requireApproval record auth) Q := by
  simp only [requireApproval, asks_bind, asks_bailIf]
  exact fun _ => asks_ask.mpr ⟨trivial, fun _ _ => hQ⟩

theorem asks_requireGeneration {Q : Unit → Prop}
    (hQ : (∀ gen ∈ expected, gen = record.fenceGeneration) → Q ()) :
    Asks (requireGeneration record expected) Q := by
  cases expected <;> simpa [requireGeneration] using hQ

theorem asks_acquireExecutionLease {Q : FencingToken → Prop} (hQ : ∀ tok, Q tok)
    (hexp : ∀ gen ∈ expected, gen = record.fenceGeneration) :
    Asks (acquireExecutionLease partition name expected record) Q := by
  have hacq : Asks (acquireExec (catalogId partition name) expected [record]) fun _ => True :=
    asks_ask.mpr ⟨by simpa [Lawful] using hexp, fun _ => trivial⟩
  rw [acquireExecutionLease, asks_bind]
  apply hacq.mono
  intro granted _
  cases granted <;> simp [hQ]

/-- What executing, resuming and rolling back have in common: the record is read, then the lease is
    taken. -/
theorem asks_underLease {locked : MigrationRecord → FencingToken → M MigrationRecord}
    (hlock : ∀ r tok, Asks (locked r tok) fun _ => True) :
    Asks (do
      require .schemaReady "the package migration schema is missing"
      let r ← loadIn partition name
      requireApproval r auth
      requireGeneration r expected
      let tok ← acquireExecutionLease partition name expected r
      let res ← caught (locked r tok)
      let _ ← caught (releaseExec (catalogId partition name) tok)
      returned res) fun _ => True := by
  simp only [asks_bind, asks_require]
  apply asks_loadIn
  intro r
  apply asks_requireApproval
  apply asks_requireGeneration
  apply asks_acquireExecutionLease
  intro tok
  have hrel : Asks (releaseExec (catalogId partition name) tok) fun _ => True :=
    asks_ask.mpr ⟨trivial, fun _ => trivial⟩
  simp [hlock, hrel]

theorem asks_migrationStep (resume : Bool) :
    Asks (migrationStep partition name auth expected resume renewals) fun _ => True :=
  asks_underLease fun _ _ => asks_stepLocked resume

/-! #### Rolling back -/

theorem asks_pendingPlanStarted {Q : Bool → Prop} (hQ : ∀ started, Q started) :
    Asks (pendingPlanStarted record) Q := by
  unfold pendingPlanStarted
  split <;> simp [hQ]

theorem asks_requireRollbackTarget : Asks (requireRollbackTarget record) fun _ => True := by
  simp [requireRollbackTarget, requireAtTarget, asks_pendingPlanStarted]

theorem asks_applyPinPlan {id : String} :
    Asks (applyPinPlan record id auth token renewals) fun _ => True := by
  rw [applyPinPlan, asks_bind]
  apply asks_planApproved
  simp [asks_authorizePlanOnLock, asks_clearAuthorizedPlan]

theorem asks_rollbackPlan (h : draft.Forward) :
    Asks (rollbackPlan draft) fun out => draft.From out.1 := by
  unfold rollbackPlan
  split
  · exact h.from_self
  · exact asks_pinned h (fun _ => .of_fields rfl rfl rfl) fun _ => rfl

theorem asks_restoreSource (h : draft.Forward) :
    Asks (restoreSource draft auth token renewals) fun out => draft.From out.1 := by
  rw [restoreSource, asks_bind, asks_caught (by simp [h.from_self]), asks_refreshExec]
  intro _
  apply asks_bind.mpr
  apply (asks_rollbackPlan h).mono
  rintro ⟨_, _ | _⟩ hlat
  · exact hlat
  · simp [hlat, asks_applyPinPlan]

theorem asks_compensateAccepted (h : draft.Forward) :
    Asks (compensateAccepted draft auth token renewals) fun out => draft.From out.1 := by
  rw [compensateAccepted, asks_bind, asks_caught (by simp [h.from_self])]
  apply asks_pendingPlanStarted
  simp [h.from_self, asks_restoreSource h]

theorem asks_undo (h : draft.Forward) : Asks (undo draft auth token renewals) fun _ => True := by
  unfold undo
  split
  · exact asks_giveUp h (by decide) (by decide) _
  next hfind =>
    have hnone : ∀ receipt ∈ draft.record.receipts, blocksRollback receipt = false := by
      intro receipt hrcpt
      have hnot := List.find?_eq_none.mp hfind receipt (List.mem_reverse.mpr hrcpt)
      exact Bool.eq_false_iff.mpr hnot
    apply asks_bind.mpr
    apply (asks_compensateAccepted h).mono
    rintro ⟨_, error | _⟩ hlat
    · exact asks_giveUp hlat.1 (by decide) (by decide) error
    · apply asks_settle
      apply hlat.1.set
      apply evolves_rolledBackRecord
      rwa [hlat.2]

theorem asks_rollbackLocked : Asks (rollbackLocked record auth token renewals) fun _ => True := by
  have hread := Draft.forward_read record
  rw [rollbackLocked, asks_ite]
  refine ⟨fun hstat => asks_settle (hread.set (evolves_rolledBack hstat)), fun hstat => ?_⟩
  have hstat := not_or.mp hstat
  rw [asks_bind]
  apply asks_acquireEnvironmentLock
  have hfail : ∀ error, Asks (giveUp (.read record) .recoveryRequired error) fun _ => True :=
    asks_giveUp hread (by decide) (by decide)
  have hnext : ((Draft.read record).set
      { record with fenceGeneration := record.fenceGeneration + 1 }).Forward :=
    hread.set (.of_receipts rfl (Nat.le_succ _) hstat.1 hstat.2)
  simp [hfail, asks_undo hnext, asks_requireRollbackTarget]

theorem asks_rollbackIn : Asks (rollbackIn partition name auth expected renewals) fun _ => True :=
  asks_underLease fun _ _ => asks_rollbackLocked

/-! #### Creating and approving -/

theorem asks_approveIn : Asks (approveIn partition name auth) fun _ => True := by
  rw [approveIn, asks_bind]
  apply asks_loadIn
  intro r
  rw [asks_bind, asks_bailIf]
  intro _
  rw [asks_bind]
  refine asks_ask.mpr ⟨trivial, fun _ => ?_⟩
  rw [asks_bind]
  apply asks_persist
  · exact (Draft.forward_read r).set (.of_fields rfl rfl rfl)
  · trivial

theorem asks_persistNew (hsnd : record.Sound) : Asks (persistNew record) fun _ => True := by
  have hget : Asks (getRecord (recordCatalogId record)) fun _ => True :=
    asks_ask.mpr ⟨trivial, fun _ => trivial⟩
  have hcreate : Asks (createRecord (recordCatalogId record) record) fun _ => True :=
    asks_ask.mpr ⟨hsnd, fun _ => trivial⟩
  rw [persistNew, asks_bind, asks_require, asks_bind]
  apply hget.mono
  intro found _
  cases found <;> simp [hcreate]

theorem asks_createIn {env identityDigest : String} {declaration : MigrationDeclaration}
    {backup : Option String} :
    Asks (createIn partition name env identityDigest declaration backup) fun _ => True := by
  have hsnd : (admittedRecord partition name env identityDigest declaration backup).Sound :=
    ⟨fun _ => rfl, nofun⟩
  simp [createIn, asks_persistNew hsnd]

end Calls

theorem asks_code (call : Call) : Asks call.code fun _ => True := by
  cases call <;>
    simp [Call.code, discard, asks_createIn, asks_approveIn, asks_migrationStep, asks_rollbackIn]

theorem obeys_program (call : Call) : Obeys lawful (program call) (fun _ _ => True) () :=
  Obeys.bind (asks_code call) fun _ _ _ => trivial

/-! ### What lawful operations keep -/

/-- The rules of a store in which lawful operations, where `allowed` admits them, keep `inv`. -/
def conduct (allowed : (op : interface.Op) → interface.Choice op → Hub → Prop)
    (inv : Hub → Prop) : Conduct interface Hub where
  exec := exec
  allowed := allowed
  inv := inv
  rely _ _ _ := True
  guar _ _ _ := True

/-- What every lawful operation keeps, whether it fails or not, holds in every interleaving of
    calls. -/
theorem inv_run {allowed : (op : interface.Op) → interface.Choice op → Hub → Prop}
    {inv : Hub → Prop}
    (hkeeps : ∀ (thread : Nat) (now : Int) (s : Hub) (op : Op) (turn : Turn op), inv s → Lawful op →
      allowed op turn s → inv (effect thread now s op turn.answer).2)
    {start : Hub} (hsta : inv start) {events : List (Event interface Call)}
    (hrun : Pool.Admissible exec program allowed ⟨start, []⟩ events) :
    inv (Pool.run exec program ⟨start, []⟩ events).shared := by
  have hexec : ∀ thread s op (turn : Turn op), inv s → Lawful op → allowed op turn s →
      inv (exec thread op turn s).2 := by
    intro thread s op turn hs hop halw
    have heff := hkeeps thread turn.now s op turn hs hop halw
    unfold exec
    cases faultOf op turn.fault with
    | none | ambiguous => exact heff
    | refused => exact hs
  have hcomposes : Pool.Composes (conduct allowed inv) program := by
    refine ⟨fun _ _ => trivial, fun _ _ _ _ _ _ => trivial, fun _ _ _ _ _ _ _ => trivial, ?_⟩
    intro i call s hs
    have hfits : lawful.Keeps (exec i) allowed fun _ _ => True := fun _ _ _ _ _ _ _ => trivial
    have hsat := Obeys.sat (C := conduct allowed inv) (s := s) (fun _ _ _ _ _ => trivial)
      hfits (fun _ t op turn _ ht hop halw => ⟨hexec i t op turn ht hop halw, trivial⟩)
      (obeys_program call) trivial
    exact hsat.mono fun _ _ _ => trivial
  have hgood := Pool.Good.of_no_threads (C := conduct allowed inv) hsta
  exact (hgood.run_chain hcomposes hrun).1.1

end Tenkai.Migration
