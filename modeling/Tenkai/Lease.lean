import Mathlib.Algebra.Order.Ring.Int
import Mathlib.Data.Option.Basic
import Mathlib.Tactic.Cases

/-!
# Fenced leases

One row of the namespaced lease table (`namespaced_leases.rs`). Tokens are UUIDs in the source;
here a token names the thread it was made for and a serial number the row has not used before. The
clock is read by every operation and nothing is assumed of its readings.
-/

namespace Tenkai

/-- A fencing token: the thread it was made for and a serial number. -/
structure FencingToken where
  thread : Nat
  serial : Nat
  deriving DecidableEq

inductive LeaseStatus
  | active
  | released
  deriving DecidableEq

structure Lease where
  generation : Nat
  fencingToken : FencingToken
  owner : String
  status : LeaseStatus
  expiresAtMs : Int
  deriving DecidableEq

def saturatingAdd (a b : Int) : Int := max (-(2 ^ 63)) (min (a + b) (2 ^ 63 - 1))

def saturatingSub (a b : Int) : Int := max (-(2 ^ 63)) (min (a - b) (2 ^ 63 - 1))

/-- The row of one lease key, and the serial number the next token gets. -/
structure LeaseRow where
  current : Option Lease
  nextSerial : Nat
  fresh : ∀ lease ∈ current, lease.fencingToken.serial < nextSerial

variable {l : Lease} {now ttlMs : Int} {owner : String} {row row' : LeaseRow} {thread : Nat}
  {token : FencingToken}

namespace LeaseRow

def vacant : LeaseRow := ⟨none, 0, by simp⟩

def requireActive (row : LeaseRow) (token : FencingToken) (now : Int) : Option Lease :=
  row.current.filter fun lease =>
    lease.status = .active && lease.fencingToken = token && now < lease.expiresAtMs

/-- The write both grants end in: a new generation with a fresh token. -/
def grant (row : LeaseRow) (thread : Nat) (owner : String) (ttlMs now : Int) :
    Lease × LeaseRow :=
  let lease : Lease := {
    generation := match row.current with
      | some current => min (current.generation + 1) (2 ^ 64 - 1)
      | none => 1
    fencingToken := ⟨thread, row.nextSerial⟩
    owner
    status := .active
    expiresAtMs := saturatingAdd now ttlMs }
  (lease, ⟨some lease, row.nextSerial + 1, by simp [lease]⟩)

def taken (row : LeaseRow) (now : Int) : Bool :=
  row.current.any fun lease => lease.status = .active && now < lease.expiresAtMs

/-- `acquire_namespaced_lease`; refused while the lease is taken. -/
def acquire (row : LeaseRow) (thread : Nat) (owner : String) (ttlMs now : Int) :
    Option (Lease × LeaseRow) :=
  if row.taken now then
    none
  else
    some (row.grant thread owner ttlMs now)

/-- The lease is still the one a caller saw, and has expired. -/
def expiredAs (row : LeaseRow) (expectedToken : FencingToken) (expectedExpiresAt now : Int) :
    Bool :=
  row.current.any fun lease => lease.fencingToken = expectedToken &&
    lease.expiresAtMs = expectedExpiresAt && lease.expiresAtMs ≤ now

/-- `takeover_namespaced_lease`; refused unless the expired lease is the one expected. -/
def takeover (row : LeaseRow) (thread : Nat) (owner : String) (expectedToken : FencingToken)
    (expectedExpiresAt ttlMs now : Int) : Option (Lease × LeaseRow) :=
  if row.expiredAs expectedToken expectedExpiresAt now then
    some (row.grant thread owner ttlMs now)
  else
    none

def refresh (row : LeaseRow) (token : FencingToken) (ttlMs now : Int) :
    Option (Lease × LeaseRow) :=
  match h : row.requireActive token now with
  | some lease =>
    let refreshed := { lease with expiresAtMs := saturatingAdd now ttlMs }
    some (refreshed, ⟨some refreshed, row.nextSerial, by
      have hmem := (Option.filter_eq_some_iff.mp h).1
      simpa [refreshed] using row.fresh lease hmem⟩)
  | none => none

def release (row : LeaseRow) (token : FencingToken) (now : Int) : Option LeaseRow :=
  match h : row.requireActive token now with
  | some lease => some ⟨some { lease with status := .released }, row.nextSerial, by
      have hmem := (Option.filter_eq_some_iff.mp h).1
      simpa using row.fresh lease hmem⟩
  | none => none

/-! ### The active holder

Whether a lease has expired depends on the clock; who the active holder is does not. -/

def Held (row : LeaseRow) (token : FencingToken) : Prop :=
  ∃ lease ∈ row.current, lease.status = .active ∧ lease.fencingToken = token

instance (row : LeaseRow) (token : FencingToken) : Decidable (row.Held token) :=
  inferInstanceAs (Decidable (∃ lease ∈ row.current, _))

def Idle (row : LeaseRow) : Prop := ∀ lease ∈ row.current, lease.status ≠ .active

instance (row : LeaseRow) : Decidable row.Idle :=
  inferInstanceAs (Decidable (∀ lease ∈ row.current, _))

theorem Idle.not_held (h : row.Idle) (token : FencingToken) : ¬ row.Held token := by
  rintro ⟨l, hcur, hactv, -⟩
  exact h l hcur hactv

theorem Held.unique {token' : FencingToken} (h : row.Held token) (h' : row.Held token') :
    token = token' := by
  obtain ⟨l, hcur, -, rfl⟩ := h
  obtain ⟨lease', hcur', -, rfl⟩ := h'
  rw [Option.mem_unique hcur hcur']

theorem held_of_requireActive (h : row.requireActive token now = some l) : row.Held token := by
  obtain ⟨hcur, hactv⟩ := Option.filter_eq_some_iff.mp h
  simp only [Bool.and_eq_true, decide_eq_true_eq] at hactv
  exact ⟨l, hcur, hactv.1.1, hactv.1.2⟩

theorem held_grant :
    (row.grant thread owner ttlMs now).2.Held token ↔ token = ⟨thread, row.nextSerial⟩ := by
  constructor
  · rintro ⟨l, hcur, -, rfl⟩
    cases hcur
    rfl
  · rintro rfl
    exact ⟨_, rfl, rfl, rfl⟩

theorem grant_of_acquire {out : Lease × LeaseRow}
    (h : row.acquire thread owner ttlMs now = some out) :
    row.taken now = false ∧ out = row.grant thread owner ttlMs now := by
  unfold acquire at h
  split at h
  · cases h
  next hfree => exact ⟨by simpa using hfree, (Option.some.inj h).symm⟩

theorem grant_of_takeover {expectedToken : FencingToken} {expectedExpiresAt : Int}
    {out : Lease × LeaseRow}
    (h : row.takeover thread owner expectedToken expectedExpiresAt ttlMs now = some out) :
    row.expiredAs expectedToken expectedExpiresAt now ∧ out = row.grant thread owner ttlMs now := by
  unfold takeover at h
  split at h
  next hexpd => exact ⟨hexpd, (Option.some.inj h).symm⟩
  · cases h

/-- A refresh finds the holder's own lease, live, and extends it. -/
theorem refresh_cases (h : row.refresh token ttlMs now = some (l, row')) :
    ∃ held ∈ row.current, held.status = .active ∧ held.fencingToken = token ∧
      now < held.expiresAtMs ∧ l = { held with expiresAtMs := saturatingAdd now ttlMs } ∧
      row'.current = some l ∧ row'.nextSerial = row.nextSerial := by
  unfold refresh at h
  split at h
  next held hactv =>
    obtain ⟨hcur, hlive⟩ := Option.filter_eq_some_iff.mp hactv
    simp only [Bool.and_eq_true, decide_eq_true_eq] at hlive
    obtain ⟨rfl, rfl⟩ := Prod.mk.inj (Option.some.inj h)
    exact ⟨held, hcur, hlive.1.1, hlive.1.2, hlive.2, rfl, rfl, rfl⟩
  · cases h

theorem refresh_spec (h : row.refresh token ttlMs now = some (l, row')) :
    row.Held token ∧ row'.nextSerial = row.nextSerial ∧
      ∀ token', row'.Held token' ↔ row.Held token' := by
  obtain ⟨held, hcur, hactv, htok, -, rfl, hcur', hser⟩ := refresh_cases h
  refine ⟨⟨held, hcur, hactv, htok⟩, hser, fun token' => ?_⟩
  simp [Held, Option.mem_def.mp hcur, hcur']

theorem release_spec (h : row.release token now = some row') :
    row.Held token ∧ row'.nextSerial = row.nextSerial ∧ row'.Idle := by
  unfold release at h
  split at h
  next held hactv =>
    have hheld := held_of_requireActive hactv
    cases h
    refine ⟨hheld, rfl, ?_⟩
    simp [Idle]
  · cases h

/-! ### Leases that last

By a clock that does not run back, a lease that lasts until some time is not lost before. -/

/-- The active lease carries this token and does not expire before `deadline`. -/
def LastsUntil (row : LeaseRow) (token : FencingToken) (deadline : Int) : Prop :=
  ∃ lease ∈ row.current, lease.status = .active ∧ lease.fencingToken = token ∧
    deadline ≤ lease.expiresAtMs

theorem LastsUntil.held {deadline : Int} (h : row.LastsUntil token deadline) : row.Held token := by
  obtain ⟨l, hcur, hactv, htok, -⟩ := h
  exact ⟨l, hcur, hactv, htok⟩

/-- Nobody acquires a lease before it expires. -/
theorem LastsUntil.acquire {deadline : Int} (h : row.LastsUntil token deadline)
    (hnow : now < deadline) : row.acquire thread owner ttlMs now = none := by
  obtain ⟨l, hcur, hactv, -, hexpires⟩ := h
  have htaken : row.taken now = true := by
    simp only [taken, Option.mem_def.mp hcur, Option.any_some, hactv, decide_true,
      Bool.true_and, decide_eq_true_eq]
    omega
  simp [LeaseRow.acquire, htaken]

theorem LastsUntil.refresh {token' : FencingToken} {deadline : Int}
    (h : row.LastsUntil token deadline) (hrefr : row.refresh token' ttlMs now = some (l, row'))
    (hdead : deadline ≤ saturatingAdd now ttlMs) : row'.LastsUntil token deadline := by
  obtain ⟨held, hcur, hactv, -, -, rfl, hcur', -⟩ := refresh_cases hrefr
  obtain ⟨l, hlea, -, htok, -⟩ := h
  obtain rfl := Option.mem_unique hlea hcur
  exact ⟨_, hcur', hactv, htok, hdead⟩

theorem lastsUntil_of_refresh (h : row.refresh token ttlMs now = some (l, row')) :
    row'.LastsUntil token (saturatingAdd now ttlMs) := by
  obtain ⟨held, -, hactv, htok, -, rfl, hcur', -⟩ := refresh_cases h
  exact ⟨_, hcur', hactv, htok, Int.le_refl _⟩

/-! ### Generations

A grant counts the generation up, within a `u64`; no other operation changes it. -/

def generation (row : LeaseRow) : Nat := (row.current.map (·.generation)).getD 0

theorem generation_eq (h : row.current = some l) : row.generation = l.generation := by
  simp [generation, h]

theorem generation_grant (h : row.generation < 2 ^ 64) :
    row.generation ≤ (row.grant thread owner ttlMs now).1.generation ∧
      (row.grant thread owner ttlMs now).1.generation < 2 ^ 64 := by
  have hgrant : (row.grant thread owner ttlMs now).1.generation = match row.current with
      | some cur => min (cur.generation + 1) (2 ^ 64 - 1)
      | none => 1 := rfl
  rw [hgrant]
  unfold generation at h ⊢
  cases hcur : row.current with
  | none => simp
  | some l =>
    simp only [hcur, Option.map_some, Option.getD_some] at h ⊢
    omega

theorem generation_refresh (h : row.refresh token ttlMs now = some (l, row')) :
    row'.generation = row.generation ∧ row'.generation = l.generation := by
  obtain ⟨held, hcur, -, -, -, rfl, hcur', -⟩ := refresh_cases h
  rw [generation_eq hcur', generation_eq hcur]
  exact ⟨rfl, rfl⟩

theorem generation_release (h : row.release token now = some row') :
    row'.generation = row.generation := by
  unfold release at h
  split at h
  next held hactv =>
    cases h
    rw [generation_eq (Option.filter_eq_some_iff.mp hactv).1]
    rfl
  · cases h

end LeaseRow

theorem saturatingAdd_le_saturatingAdd {a b c d : Int} (hab : a ≤ b) (hcd : c ≤ d) :
    saturatingAdd a c ≤ saturatingAdd b d := by
  unfold saturatingAdd
  omega

end Tenkai
