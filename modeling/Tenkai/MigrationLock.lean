import Tenkai.MigrationConduct

/-!
# Whether the migration lock excludes applies

Every claim of an environment's lease looks for the migration lock before and after it acquires,
under the id without a partition; the lock of a tenant's partition is never looked at
(`partition_lock_unseen`). `lock_excludes` says what else has to hold: the lock is not changed
between a claim's first look and its acquiring, is made only while its maker's lease is in force,
and the plan it names is changed only while nobody holds the lease.
-/

namespace Tenkai.Migration

def InForce (row : LeaseRow) (lease : EnvironmentLease) : Prop :=
  ∃ held ∈ row.current, held.status = .active ∧ held.fencingToken = lease.fencingToken ∧
    held.owner = lease.owner

instance (row : LeaseRow) (lease : EnvironmentLease) : Decidable (InForce row lease) :=
  inferInstanceAs (Decidable (∃ held ∈ row.current, _))

/-- A claim acquires while the lock is as it looked at it; locks are those of migrations without a
    partition, made under a lease in force and changed while nobody holds it. -/
def LockAllowed (s : Hub) : Op → Prop
  | .acquireEnv environment _ _ seen => s.locks (packageMigrationLockId environment) = seen
  | .takeoverEnv environment _ _ _ _ seen => s.locks (packageMigrationLockId environment) = seen
  | .createLock key _ lease => key.partition = none ∧ InForce (s.envLease lease.environment) lease
  | .putLock key _ => key.partition = none ∧ (s.envLease key.environment).Idle
  | _ => True

instance (s : Hub) : (op : Op) → Decidable (LockAllowed s op)
  | .acquireEnv environment _ _ seen =>
    inferInstanceAs (Decidable (s.locks (packageMigrationLockId environment) = seen))
  | .takeoverEnv environment _ _ _ _ seen =>
    inferInstanceAs (Decidable (s.locks (packageMigrationLockId environment) = seen))
  | .createLock key _ lease => inferInstanceAs (Decidable (key.partition = none ∧ InForce _ lease))
  | .putLock key _ => inferInstanceAs (Decidable (key.partition = none ∧ LeaseRow.Idle _))
  | .decide _ | .nowMillis | .approvalDigest _ _ | .getPlan _ | .createPinPlan _ _ | .getRecord _
  | .createRecord _ _ | .putRecord _ _ _ | .acquireExec _ _ _ | .refreshExec _ _
  | .releaseExec _ _ | .beginEffect _ _ _ | .getLock _ | .deleteLock _ | .getEnv _
  | .refreshEnv _ _ | .releaseEnv _ => isTrue trivial

def lockAllowed (op : interface.Op) (_ : interface.Choice op) (s : Hub) : Prop := LockAllowed s op

instance (op : interface.Op) (turn : interface.Choice op) (s : Hub) :
    Decidable (lockAllowed op turn s) :=
  inferInstanceAs (Decidable (LockAllowed s op))

/-- Where an environment has a lock, its lease is held by the migration or for the plan that the
    lock names, and it has no other lock. -/
structure Hub.Excludes (s : Hub) (environment : String) : Prop where
  held : ∀ key lock, key.environment = environment → s.locks key = some lock →
    ∀ lease ∈ (s.envLease environment).current, lease.status = .active → lock.Allows lease.owner
  single : ∀ key key', key.environment = environment → key'.environment = environment →
    (s.locks key).isSome → (s.locks key').isSome → key = key'

/-! ### One operation -/

/-- Every active lease of the row is one that the lock allows. -/
def MigrationLock.Fits (lock : MigrationLock) (row : LeaseRow) : Prop :=
  ∀ lease ∈ row.current, lease.status = .active → lock.Allows lease.owner

/-- Every lock is one that claims look for, and fits its environment's lease. -/
def Hub.Guarded (s : Hub) : Prop :=
  ∀ key lock, s.locks key = some lock → key.partition = none ∧ lock.Fits (s.envLease key.environment)

section Operations

variable {s : Hub} {key : LockKey} {lock : MigrationLock} {row row' : LeaseRow}

theorem Hub.Guarded.excludes (h : s.Guarded) (environment : String) : s.Excludes environment := by
  constructor
  · rintro key lock rfl hlock
    exact (h key lock hlock).2
  · intro key key' _ _' hlock hlock'
    obtain ⟨lock, hlock⟩ := Option.isSome_iff_exists.mp hlock
    obtain ⟨lock', hlock'⟩ := Option.isSome_iff_exists.mp hlock'
    have hpart := (h key lock hlock).1
    have hpart' := (h key' lock' hlock').1
    cases key
    cases key'
    simp_all

/-- A lock that is found without a partition is the one that claims look for. -/
theorem Hub.Guarded.key_eq (h : s.Guarded) (hlock : s.locks key = some lock) :
    key = packageMigrationLockId key.environment := by
  have hpart := (h key lock hlock).1
  cases key
  simp_all [packageMigrationLockId, packageMigrationLockIdIn, partitionOf]

theorem Hub.Guarded.setEnv (h : s.Guarded) {env : String}
    (hrow : ∀ lock, s.locks (packageMigrationLockId env) = some lock →
      lock.Fits (s.envLease env) → lock.Fits row) : (s.setEnv env row).Guarded := by
  intro key lock hlock
  obtain ⟨hpart, hfits⟩ := h key lock hlock
  refine ⟨hpart, ?_⟩
  by_cases hsame : key.environment = env
  · subst hsame
    simp only [Hub.setEnv, Function.update_self]
    apply hrow lock _ hfits
    rwa [← h.key_eq hlock]
  · simp only [Hub.setEnv, Function.update_of_ne hsame]
    exact hfits

theorem Hub.Guarded.setLock (h : s.Guarded) {value : Option MigrationLock}
    (hval : ∀ lock ∈ value, key.partition = none ∧ lock.Fits (s.envLease key.environment)) :
    (s.setLock key value).Guarded := by
  intro other lock hlock
  by_cases hsame : other = key
  · subst hsame
    simp only [Hub.setLock, Function.update_self] at hlock
    exact hval lock hlock
  · simp only [Hub.setLock, Function.update_of_ne hsame] at hlock
    exact h other lock hlock

theorem MigrationLock.fits_grant {thread : Nat} {owner : String} {ttlMs now : Int}
    (h : lock.Allows owner) : lock.Fits (row.grant thread owner ttlMs now).2 := by
  rintro l ⟨⟩ _
  exact h

theorem MigrationLock.Fits.refresh (h : lock.Fits row) {tok : FencingToken} {ttlMs now : Int}
    {l : Lease} (hrefr : row.refresh tok ttlMs now = some (l, row')) : lock.Fits row' := by
  obtain ⟨held, hcur, hactv, -, -, rfl, hcur', -⟩ := LeaseRow.refresh_cases hrefr
  intro _ hoth _
  cases hcur'.symm.trans hoth
  exact h held hcur hactv

theorem MigrationLock.fits_of_idle (h : row.Idle) : lock.Fits row :=
  fun lease hlea hactv => absurd hactv (h lease hlea)

theorem MigrationLock.fits_of_inForce {l : EnvironmentLease} (h : InForce row l)
    (howner : l.owner = migrationOwner lock.owner) : lock.Fits row := by
  obtain ⟨held, hcur, -, -, hheld⟩ := h
  intro _ hoth _
  obtain rfl := Option.mem_unique hcur hoth
  exact .inl (hheld.trans howner)

theorem Hub.Guarded.effect (thread : Nat) (now : Int) {op : Op} (h : s.Guarded) (hlaw : Lawful op)
    (halw : LockAllowed s op) (ans : op.Answer) : (effect thread now s op ans).2.Guarded := by
  cases op with
  | decide | nowMillis | approvalDigest | getPlan | createPinPlan | getRecord | getLock | getEnv
  | putRecord | beginEffect => exact h
  | createRecord key r =>
    simp only [Migration.effect]
    split
    · exact h
    · exact h
  | acquireExec key expected known =>
    simp only [Migration.effect]
    split
    · exact h
    · exact h
  | refreshExec key tok =>
    simp only [Migration.effect]
    split
    · exact h
    · exact h
  | releaseExec key tok =>
    simp only [Migration.effect]
    split
    · exact h
    · exact h
  | createLock key lock l =>
    simp only [Migration.effect]
    split
    · exact h
    · apply h.setLock
      rintro _ ⟨⟩
      obtain ⟨hpart, hforce⟩ := halw
      rw [hlaw.1] at hforce
      exact ⟨hpart, MigrationLock.fits_of_inForce hforce hlaw.2⟩
  | putLock key lock =>
    apply h.setLock
    rintro _ ⟨⟩
    exact ⟨halw.1, MigrationLock.fits_of_idle halw.2⟩
  | deleteLock key => exact h.setLock (by simp)
  | acquireEnv env owner ttlMs seen =>
    simp only [Migration.effect]
    split
    next hacq =>
      obtain ⟨-, rfl⟩ := LeaseRow.grant_of_acquire hacq
      apply h.setEnv
      intro lock hlock _
      exact MigrationLock.fits_grant (hlaw lock (halw.symm.trans hlock))
    · exact h
  | takeoverEnv env owner tok expiresAt ttlMs seen =>
    simp only [Migration.effect]
    split
    next htake =>
      obtain ⟨-, rfl⟩ := LeaseRow.grant_of_takeover htake
      apply h.setEnv
      intro lock hlock _
      exact MigrationLock.fits_grant (hlaw lock (halw.symm.trans hlock))
    · exact h
  | refreshEnv l ttlMs =>
    simp only [Migration.effect]
    split
    next hrefr => exact h.setEnv fun _ _ hfits => hfits.refresh hrefr
    · exact h
  | releaseEnv l =>
    simp only [Migration.effect]
    split
    next hrel =>
      apply h.setEnv
      intro lock _ _
      exact MigrationLock.fits_of_idle (LeaseRow.release_spec hrel).2.2
    · exact h

end Operations

/-- In every interleaving of migration calls and applies, from a store without locks, in which
    locks are those of migrations without a partition, the lock is as a claim saw it when it
    acquires, a lock is made under a lease in force, and the plan it names is changed while the
    lease is free: where an environment has a lock, its lease is held by that migration or for the
    plan that the lock names, and there is no other lock. -/
theorem lock_excludes (start : Hub) (hstart : ∀ key, start.locks key = none)
    (events : List (Event interface Call))
    (hrun : Pool.Admissible exec program lockAllowed ⟨start, []⟩ events) (environment : String) :
    (Pool.run exec program ⟨start, []⟩ events).shared.Excludes environment := by
  have hguarded : start.Guarded := by
    intro key _ hlock
    rw [hstart key] at hlock
    cases hlock
  have hend : (Pool.run exec program ⟨start, []⟩ events).shared.Guarded :=
    inv_run (fun thread now s _ turn hs hlawful hallowed =>
      hs.effect thread now hlawful hallowed turn.answer) hguarded hrun
  exact hend.excludes environment

/-! ### A tenant's migration -/

section Runs

def routine : (op : Op) → op.Answer
  | .decide .retired | .decide .legacyClaim | .decide .objectClaimLinked
  | .decide .runtimeManaged => .ok false
  | .decide _ => .ok true
  | .approvalDigest _ _ => .ok "approved"
  | .getPlan _ => .ok ⟨"prod", .computed⟩
  | .createPinPlan _ _ => .ok "tenkai:plan:prod:2:pin"
  | .nowMillis | .getRecord _ | .createRecord _ _ | .putRecord _ _ _ | .acquireExec _ _ _
  | .refreshExec _ _ | .releaseExec _ _ | .beginEffect _ _ _ | .getLock _ | .createLock _ _ _
  | .putLock _ _ | .deleteLock _ | .getEnv _ | .acquireEnv _ _ _ _ | .takeoverEnv _ _ _ _ _ _
  | .refreshEnv _ _ | .releaseEnv _ => ()

def operations (thread count : Nat) : List (Event interface Call) :=
  List.replicate count (.act thread fun op => ⟨0, .none, routine op⟩)

/-- A migration of `web` in `prod`, approved, that checks its pins twice. -/
def webMigration (partition : Option String) : MigrationRecord where
  name := "web"
  environment := "prod"
  partition := partition
  identityDigest := "sha256:0"
  declaration := ⟨⟨"web", "1.0.0", "sha256:1"⟩, ⟨"web", "2.0.0", "sha256:2"⟩,
    [⟨"before", .reversible⟩, ⟨"after", .reversible⟩]⟩
  approvalDigest := "approved"
  fenceGeneration := 0
  status := .admitted
  receipts := []
  backupReceiptDigest := none
  pendingPlanId := none
  pendingRollbackPlanId := none

def webHub (partition : Option String) : Hub :=
  .idle fun key => if key = ⟨partition, "web"⟩ then some (webMigration partition) else none

/-- The migration is executed until it has its lock; then a plan is applied. -/
def applyBeside (partition : Option String) : List (Event interface Call) :=
  .call (.execute partition "web" (.localDevelopment "drill") none 0) :: operations 0 20 ++
  .call (.apply "tenkai:plan:prod:1:other" 0) :: operations 1 13

theorem lock_excludes_web :
    (webHub none).locks (packageMigrationLockId "prod") = none ∧
      Pool.Admissible exec program lockAllowed ⟨webHub none, []⟩ (applyBeside none) ∧
      (Pool.run exec program ⟨webHub none, []⟩ (applyBeside none)).shared.Excludes "prod" := by
  have hrun : Pool.Admissible exec program lockAllowed ⟨webHub none, []⟩ (applyBeside none) := by
    decide +kernel
  exact ⟨rfl, hrun, lock_excludes (webHub none) (fun _ => rfl) (applyBeside none) hrun "prod"⟩

/-- The migration of a tenant has its lock, and the other plan is being applied beside it. -/
theorem partition_lock_unseen :
    ¬ (Pool.run exec program ⟨webHub (some "acme"), []⟩
        (applyBeside (some "acme"))).shared.Excludes "prod" := by
  intro hexcludes
  have hlock : (Pool.run exec program ⟨webHub (some "acme"), []⟩
      (applyBeside (some "acme"))).shared.locks ⟨some "acme", "prod"⟩ = some ⟨"web", none⟩ := by
    decide +kernel
  have hlease : ((Pool.run exec program ⟨webHub (some "acme"), []⟩
      (applyBeside (some "acme"))).shared.envLease "prod").current =
        some ⟨2, ⟨1, 1⟩, "tenkai:plan:prod:1:other", .active, 30000⟩ := by
    decide +kernel
  rcases hexcludes.held _ _ rfl hlock _ hlease rfl with howner | hplan
  · exact absurd howner (by decide)
  · cases hplan

end Runs

end Tenkai.Migration
