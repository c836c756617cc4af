import Mathlib.Data.List.Basic
import Mathlib.Tactic.Cases
import Tenkai.Lease
import Tenkai.Machine

/-!
# Fenced mutations of one environment

`fenced_mutation.rs` runs a command under a guard process, `run_guarded_mutation` a mutation on a
blocking task. Both take the environment's mutation lock, announce it, and begin only when the
controller, having refreshed its lease after the announcement, says go. A `Session` is one such
call: the controller's future, its guard or task, and what is in flight between them; the host
interleaves any number of sessions with the operations of the lease store.
-/

namespace Tenkai.FencedMutation

/-- `run` starts a shell under a guard process; `run_guarded_mutation` works on a blocking task. -/
inductive Kind
  | shell
  | inProcess
  deriving DecidableEq

/-- Where the controller's future stands. -/
inductive Stage
  | opening    -- before the refresh it begins with
  | fenced     -- refreshed; the guard is spawned next
  | queued     -- waits for the announcement of the lock, refreshing every ten seconds
  | ready      -- the announcement is read; the refresh after it comes next
  | cleared    -- that refresh succeeded; go is said next
  | watching   -- go is said; waits for the guard, refreshing every ten seconds
  | stopping   -- the control pipe is closed; waits for the guard
  | closing    -- the guard has ended; the last refresh comes next
  | ended      -- returned, dropped or dead
  deriving DecidableEq

/-- Where the guard process, or the blocking task, stands. -/
inductive Guard
  | absent
  | locking      -- in `flock`
  | announced    -- holds the lock and has said so; reads the go
  | authorized   -- has read the go
  | running      -- has begun the command, and waits for it or for the end of the control pipe
  | draining     -- has killed the command's process group, and waits until the group is gone
  | exited
  deriving DecidableEq

structure Session where
  kind : Kind
  lease : Lease
  stage : Stage
  guard : Guard
  goSent : Bool
  controlOpen : Bool
  /-- `kill_on_drop` has sent the guard a SIGKILL. -/
  killSent : Bool
  /-- A process of the command's group, or the mutation, is running. -/
  alive : Bool

namespace Session

def opened (kind : Kind) (lease : Lease) : Session where
  kind
  lease
  stage := .opening
  guard := .absent
  goSent := false
  controlOpen := true
  killSent := false
  alive := false

/-- The guard, or the blocking task, has the lock file locked. -/
def holds (s : Session) : Bool :=
  s.guard = .announced || s.guard = .authorized || s.guard = .running || s.guard = .draining

/-- The future goes, dropped or by a `?`: its end of the control pipe closes, and the handle of
    the guard process, dropped with it, kills the guard. A blocking task is only detached. -/
def leave (s : Session) : Session :=
  { s with
    stage := .ended
    controlOpen := false
    killSent := s.killSent || (s.kind = .shell && s.guard ≠ .absent) }

/-- The controller's process dies: the pipe closes, and a blocking task ends with the process. -/
def die (s : Session) : Session :=
  match s.kind with
  | .shell => { s with stage := .ended, controlOpen := false }
  | .inProcess => { s with stage := .ended, controlOpen := false, guard := .exited, alive := false }

def refreshed (s : Session) (held : Bool) : Option Session :=
  match s.stage with
  | .opening => some (if held then { s with stage := .fenced } else s.leave)
  | .queued => some (if held then s else s.leave)
  | .ready => some (if held then { s with stage := .cleared } else s.leave)
  | .watching =>
    some (if held then s else
      match s.kind with
      | .shell => { s with stage := .stopping, controlOpen := false }
      | .inProcess => s.leave)
  | .closing => some { s with stage := .ended }
  | _ => none

end Session

/-- A move of one session other than a refresh. -/
inductive Move
  | spawn (spawned : Bool)
  | readReady
  | sayGo
  | stop          -- the timeout of ten minutes, SIGINT or SIGTERM
  | join          -- the guard's exit is seen
  | abandon
  | die
  | takeLock
  | guardFails    -- an error before the command begins: of `flock`, of a pipe, of the spawn
  | readGo
  | start
  | commandExits  -- `child.wait()` returns
  | hangUp        -- the control pipe is at its end
  | waitFails     -- `child.wait()` fails
  | probe (denied : Bool)
  | workReturns
  | killed        -- the SIGKILL reaches the guard
  | groupGone     -- the last process of the command's group has ended
  deriving DecidableEq

/-- The moves of `run` and `run_guarded_mutation`, of `supervise` and
    `with_mutation_lock_authorized`, and of the command. -/
def Session.move (s : Session) : Move → Option Session
  | .spawn spawned =>
    if s.stage = .fenced then
      some (if spawned then { s with stage := .queued, guard := .locking } else s.leave)
    else none
  | .readReady =>
    if s.stage = .queued ∧ s.guard = .announced then
      some { s with stage := .ready }
    -- the readiness pipe ends without a byte
    else if s.stage = .queued ∧ s.guard = .exited then
      some s.leave
    else none
  | .sayGo =>
    if s.stage = .cleared then some { s with stage := .watching, goSent := true } else none
  | .stop =>
    if s.stage = .watching ∧ s.kind = .shell then
      some { s with stage := .stopping, controlOpen := false }
    else none
  | .join =>
    if s.guard = .exited then
      match s.stage with
      | .watching => some { s with stage := .closing }
      | .stopping => some { s with stage := .ended }
      | _ => none
    else none
  | .abandon => if s.stage = .ended then none else some s.leave
  | .die => some s.die
  | .takeLock => if s.guard = .locking then some { s with guard := .announced } else none
  | .guardFails =>
    if s.guard = .locking ∨ s.guard = .announced ∨ s.guard = .authorized then
      some { s with guard := .exited }
    else none
  | .readGo =>
    if s.guard = .announced then
      if s.goSent then some { s with guard := .authorized }
      else if s.controlOpen then none
      else some { s with guard := .exited }
    else none
  | .start =>
    if s.guard = .authorized then some { s with guard := .running, alive := true } else none
  | .commandExits =>
    if s.guard = .running ∧ s.kind = .shell then some { s with guard := .draining } else none
  | .hangUp =>
    if s.guard = .running ∧ s.kind = .shell ∧ s.controlOpen = false then
      some { s with guard := .draining }
    else none
  | .waitFails =>
    if s.guard = .running ∧ s.kind = .shell then some { s with guard := .exited } else none
  -- `kill(-group, 0)`: no such group, no permission to signal it, or it is still there
  | .probe denied =>
    if s.guard = .draining then
      if s.alive = false ∨ denied then some { s with guard := .exited } else some s
    else none
  | .workReturns =>
    if s.guard = .running ∧ s.kind = .inProcess then
      some { s with guard := .exited, alive := false }
    else none
  | .killed => if s.killSent then some { s with guard := .exited } else none
  | .groupGone => if s.kind = .shell ∧ s.alive then some { s with alive := false } else none

/-- The host of one environment. -/
structure Host where
  row : LeaseRow
  /-- The leases the store has granted. -/
  granted : List Lease
  /-- The session whose guard or task has the mutation lock. -/
  lock : Option Nat
  sessions : List Session
  /-- The generations of the commands and mutations begun, in order. -/
  started : List Nat

/-- A host before the first controller. -/
def Host.idle : Host := ⟨.vacant, [], none, [], []⟩

inductive Event
  | acquire (thread : Nat) (owner : String) (ttlMs now : Int)
  | takeover (thread : Nat) (owner : String) (expectedToken : FencingToken)
      (expectedExpiresAt ttlMs now : Int)
  | renew (token : FencingToken) (ttlMs now : Int)
  | release (token : FencingToken) (now : Int)
  | enter (kind : Kind) (lease : Lease)
  /-- A refresh of the fence of a session; the store may fail, or another lease of the apply be
      lost. -/
  | refresh (i : Nat) (ttlMs now : Int) (answered : Bool)
  | act (i : Nat) (move : Move)

/-- The lock is taken only when it is free, and freed when its holder lets go of it or ends. -/
def relock (lock : Option Nat) (i : Nat) (before after : Bool) : Option (Option Nat) :=
  match before, after with
  | false, true => if lock = none then some (some i) else none
  | true, false => some none
  | _, _ => some lock

/-- A move of session `i`, with what it does to the lock and to the list of starts. -/
def Host.act (h : Host) (i : Nat) (move : Move) : Option Host := do
  let s ← h.sessions[i]?
  let s' ← s.move move
  let lock ← relock h.lock i s.holds s'.holds
  return { h with
    lock
    sessions := h.sessions.set i s'
    started := if move = .start then h.started ++ [s.lease.generation] else h.started }

/-- `refresh_environment_lease`: the store refreshes the lease of the token, and the answer must
    carry the generation and the owner of the caller's. -/
def Host.refreshLease (h : Host) (lease : Lease) (ttlMs now : Int) (answered : Bool) :
    Bool × LeaseRow :=
  match if answered then h.row.refresh lease.fencingToken ttlMs now else none with
  | some (env, row) =>
    (env.generation = lease.generation && env.owner = lease.owner, row)
  | none => (false, h.row)

def Host.refresh (h : Host) (i : Nat) (ttlMs now : Int) (answered : Bool) : Option Host := do
  let s ← h.sessions[i]?
  let (held, row) := h.refreshLease s.lease ttlMs now answered
  let s' ← s.refreshed held
  return { h with row, sessions := h.sessions.set i s' }

def Host.step (h : Host) : Event → Option Host
  | .acquire thread owner ttlMs now =>
    (h.row.acquire thread owner ttlMs now).map fun (lease, row) =>
      { h with row, granted := lease :: h.granted }
  | .takeover thread owner expectedToken expectedExpiresAt ttlMs now =>
    (h.row.takeover thread owner expectedToken expectedExpiresAt ttlMs now).map
      fun (lease, row) => { h with row, granted := lease :: h.granted }
  | .renew token ttlMs now =>
    (h.row.refresh token ttlMs now).map fun (_, row) => { h with row }
  | .release token now => (h.row.release token now).map fun row => { h with row }
  | .enter kind lease =>
    if lease ∈ h.granted then
      some { h with sessions := h.sessions ++ [Session.opened kind lease] }
    else none
  | .refresh i ttlMs now answered => h.refresh i ttlMs now answered
  | .act i move => h.act i move

/-! ### What a move does to one session -/

/-- The future is neither dropped nor returns early between the go and the guard's end, and the
    guard waits for its command without an error. -/
def Session.Permits (s : Session) : Move → Prop
  | .abandon => s.kind = .shell → s.stage ≠ .watching ∧ s.stage ≠ .stopping
  | .waitFails => False
  | .probe denied => denied = false
  | _ => True

instance (s : Session) : (move : Move) → Decidable (s.Permits move)
  | .abandon => inferInstanceAs (Decidable (_ → _ ∧ _))
  | .waitFails => inferInstanceAs (Decidable False)
  | .probe _ => inferInstanceAs (Decidable (_ = _))
  | .spawn _ | .readReady | .sayGo | .stop | .join | .die | .takeLock | .guardFails | .readGo
  | .start | .commandExits | .hangUp | .workReturns | .killed | .groupGone =>
    inferInstanceAs (Decidable True)

variable {s s' : Session} {i : Nat} {h : Host}

namespace Session

/-- How the two sides of a session and its command stand to each other. -/
structure Kept (s : Session) : Prop where
  /-- What runs has a guard that waits for it. -/
  guarded : s.alive → s.guard = .running ∨ s.guard = .draining
  /-- No guard goes past the announcement without the go. -/
  authorized : s.guard = .authorized ∨ s.guard = .running ∨ s.guard = .draining → s.goSent
  /-- Nothing is said to a guard that has announced nothing. -/
  unready : s.guard = .absent ∨ s.guard = .locking →
    s.goSent = false ∧ s.stage ≠ .cleared ∧ s.stage ≠ .ready
  sent : s.goSent →
    s.stage = .watching ∨ s.stage = .stopping ∨ s.stage = .closing ∨ s.stage = .ended
  closing : s.stage = .closing → s.guard = .exited
  /-- A guard is killed before the go or after its end. -/
  killed : s.killSent → s.stage = .ended ∧ (s.goSent = false ∨ s.guard = .exited)

def Cleared (s : Session) : Prop :=
  s.guard = .announced ∧ (s.stage = .cleared ∨ s.goSent) ∨ s.guard = .authorized

theorem Kept.opened (kind : Kind) (lease : Lease) : (opened kind lease).Kept := by
  constructor <;> simp [Session.opened]

theorem Cleared.holds (h : s.Cleared) : s.holds := by
  rcases h with ⟨h, -⟩ | h
  · simp [Session.holds, h]
  · simp [Session.holds, h]

theorem Kept.holds (h : s.Kept) (halive : s.alive) : s.holds := by
  rcases h.guarded halive with h | h
  · simp [Session.holds, h]
  · simp [Session.holds, h]

/-- The future may go while no go is on its way to a guard that lives. -/
theorem Kept.leave (h : s.Kept) (hgo : s.kind = .shell → s.goSent = false ∨ s.guard = .exited) :
    s.leave.Kept where
  guarded := h.guarded
  authorized := h.authorized
  unready hgrd := ⟨(h.unready hgrd).1, nofun, nofun⟩
  sent _ := .inr (.inr (.inr rfl))
  closing := nofun
  killed hkill := by
    refine ⟨rfl, ?_⟩
    simp only [Session.leave, Bool.or_eq_true, Bool.and_eq_true, decide_eq_true_eq] at hkill
    rcases hkill with hkill | ⟨hkind, -⟩
    · exact (h.killed hkill).2
    · exact hgo hkind

theorem Kept.die (h : s.Kept) : s.die.Kept := by
  unfold Session.die
  cases s.kind with
  | shell =>
    exact { h with
      unready hgrd := ⟨(h.unready hgrd).1, nofun, nofun⟩
      sent _ := .inr (.inr (.inr rfl))
      closing := nofun
      killed hkill := ⟨rfl, (h.killed hkill).2⟩ }
  | inProcess => constructor <;> simp

/-- A move of the controller, which leaves the guard and the command alone. -/
theorem Kept.controls (h : s.Kept) {stage : Stage} {goSent controlOpen : Bool}
    (hlives : s.stage ≠ .ended) (hgo : s.goSent → goSent)
    (hunready : s.guard = .absent ∨ s.guard = .locking →
      goSent = false ∧ stage ≠ .cleared ∧ stage ≠ .ready)
    (hsent : goSent → stage = .watching ∨ stage = .stopping ∨ stage = .closing ∨ stage = .ended)
    (hclos : stage = .closing → s.guard = .exited) :
    Kept { s with stage, goSent, controlOpen } where
  guarded := h.guarded
  authorized hgrd := hgo (h.authorized hgrd)
  unready := hunready
  sent := hsent
  closing := hclos
  killed hkill := absurd (h.killed hkill).1 hlives

/-- A move of a guard that lives, or of its command. -/
theorem Kept.guards (h : s.Kept) {guard : Guard} {alive : Bool} (hlives : s.guard ≠ .exited)
    (hborn : guard ≠ .absent ∧ guard ≠ .locking)
    (hguarded : alive → guard = .running ∨ guard = .draining)
    (hauthorized : guard = .authorized ∨ guard = .running ∨ guard = .draining → s.goSent) :
    Kept { s with guard, alive } where
  guarded := hguarded
  authorized := hauthorized
  unready hgrd := absurd hgrd (not_or.mpr hborn)
  sent := h.sent
  closing hstage := absurd (h.closing hstage) hlives
  killed hkill := by
    obtain ⟨hstage, huns | hexited⟩ := h.killed hkill
    · exact ⟨hstage, .inl huns⟩
    · exact absurd hexited hlives

/-- A guard ends without a command to leave behind. -/
theorem Kept.exits (h : s.Kept) {alive : Bool} (halive : alive = false) :
    Kept { s with guard := .exited, alive } := by
  constructor <;> simp [halive]
  · exact h.sent
  · exact fun hkill => (h.killed hkill).1

theorem Kept.not_alive (h : s.Kept)
    (hgrd : s.goSent = false ∨ s.guard ≠ .running ∧ s.guard ≠ .draining) : s.alive = false := by
  by_contra halive
  have hruns := h.guarded (by simpa using halive)
  rcases hgrd with huns | ⟨hrun, hdraining⟩
  · have hsent := h.authorized (.inr hruns)
    simp [huns] at hsent
  · rcases hruns with hgrd | hgrd
    · exact hrun hgrd
    · exact hdraining hgrd

/-- Before it watches the guard, the future has not said go. -/
theorem Kept.unsent (h : s.Kept)
    (hstage : s.stage = .fenced ∨ s.stage = .queued ∨ s.stage = .ready ∨ s.stage = .opening) :
    s.goSent = false := by
  by_contra hgo
  have hsent := h.sent (by simpa using hgo)
  grind

theorem Kept.spawn (h : s.Kept) (hstage : s.stage = .fenced) :
    Kept { s with stage := .queued, guard := .locking } := by
  have huns := h.unsent (.inl hstage)
  constructor
  · simp [h.not_alive (.inl huns)]
  · simp
  · simp [huns]
  · simp [huns]
  · simp
  · intro hkill
    exact absurd ((h.killed hkill).1.symm.trans hstage) nofun

theorem Kept.move {move : Move} (h : s.Kept) (hperm : s.Permits move)
    (hmove : s.move move = some s') : s'.Kept := by
  cases move with
  | spawn spawned =>
    obtain ⟨hstage, ⟨⟩⟩ := Option.ite_none_right_eq_some.mp hmove
    cases spawned with
    | true => exact h.spawn hstage
    | false => exact h.leave fun _ => .inl (h.unsent (.inl hstage))
  | readReady =>
    simp only [Session.move] at hmove
    split at hmove
    next hrdy =>
      cases hmove
      have huns := h.unsent (.inr (.inl hrdy.1))
      apply h.controls <;> simp [hrdy, huns]
    · split at hmove
      next hexited =>
        cases hmove
        exact h.leave fun _ => .inr hexited.2
      · cases hmove
  | sayGo =>
    obtain ⟨hstage, ⟨⟩⟩ := Option.ite_none_right_eq_some.mp hmove
    refine h.controls (by simp [hstage]) (fun _ => rfl) ?_ (fun _ => .inl rfl) nofun
    intro hgrd
    exact absurd hstage (h.unready hgrd).2.1
  | stop =>
    obtain ⟨⟨hstage, -⟩, ⟨⟩⟩ := Option.ite_none_right_eq_some.mp hmove
    refine h.controls (by simp [hstage]) id ?_ (fun _ => .inr (.inl rfl)) nofun
    intro hgrd
    exact ⟨(h.unready hgrd).1, nofun, nofun⟩
  | join =>
    obtain ⟨hexited, hmove⟩ := Option.ite_none_right_eq_some.mp hmove
    split at hmove
    next hstage =>
      cases hmove
      apply h.controls <;> simp [hstage, hexited]
    next hstage =>
      cases hmove
      apply h.controls <;> simp [hstage, hexited]
    · cases hmove
  | abandon =>
    simp only [Session.move, Option.ite_none_left_eq_some, Option.some.injEq] at hmove
    obtain ⟨hended, rfl⟩ := hmove
    apply h.leave
    intro hkind
    by_cases hgo : s.goSent
    · -- the go was said, so only a future that has seen the guard's end may go
      obtain ⟨hwatching, hstopping⟩ := hperm hkind
      rcases h.sent hgo with hstage | hstage | hstage | hstage
      · exact absurd hstage hwatching
      · exact absurd hstage hstopping
      · exact .inr (h.closing hstage)
      · exact absurd hstage hended
    · simp [hgo]
  | die =>
    cases hmove
    exact h.die
  | takeLock =>
    obtain ⟨hgrd, ⟨⟩⟩ := Option.ite_none_right_eq_some.mp hmove
    have hnot : s.alive = false := h.not_alive (.inr (by simp [hgrd]))
    apply h.guards <;> simp [hgrd, hnot]
  | guardFails =>
    obtain ⟨hgrd, ⟨⟩⟩ := Option.ite_none_right_eq_some.mp hmove
    apply h.exits
    apply h.not_alive
    rcases hgrd with hgrd | hgrd | hgrd <;> simp [hgrd]
  | readGo =>
    obtain ⟨hgrd, hmove⟩ := Option.ite_none_right_eq_some.mp hmove
    have hnot : s.alive = false := h.not_alive (.inr (by simp [hgrd]))
    split at hmove
    next hgo =>
      cases hmove
      apply h.guards <;> simp [hgrd, hnot, hgo]
    · simp only [Option.ite_none_left_eq_some, Option.some.injEq] at hmove
      obtain ⟨-, rfl⟩ := hmove
      exact h.exits hnot
  | start =>
    obtain ⟨hgrd, ⟨⟩⟩ := Option.ite_none_right_eq_some.mp hmove
    apply h.guards <;> simp [hgrd, h.authorized (.inl hgrd)]
  | commandExits | hangUp =>
    obtain ⟨⟨hgrd, -⟩, ⟨⟩⟩ := Option.ite_none_right_eq_some.mp hmove
    apply h.guards <;> simp [hgrd, h.authorized (.inr (.inl hgrd))]
  | waitFails => exact hperm.elim
  | probe denied =>
    obtain ⟨-, hmove⟩ := Option.ite_none_right_eq_some.mp hmove
    split at hmove
    next hgone =>
      cases hmove
      apply h.exits
      rcases hgone with hgone | hdenied
      · exact hgone
      · exact absurd (hperm.symm.trans hdenied) nofun
    · cases hmove
      exact h
  | workReturns =>
    obtain ⟨-, ⟨⟩⟩ := Option.ite_none_right_eq_some.mp hmove
    exact h.exits rfl
  | killed =>
    obtain ⟨hkill, ⟨⟩⟩ := Option.ite_none_right_eq_some.mp hmove
    apply h.exits
    apply h.not_alive
    rcases (h.killed hkill).2 with huns | hexited
    · exact .inl huns
    · simp [hexited]
  | groupGone =>
    obtain ⟨⟨-, halive⟩, ⟨⟩⟩ := Option.ite_none_right_eq_some.mp hmove
    have hgrd := h.guarded halive
    apply h.guards
    · rcases hgrd with hgrd | hgrd <;> simp [hgrd]
    · rcases hgrd with hgrd | hgrd <;> simp [hgrd]
    · simp
    · exact h.authorized

theorem Kept.refreshed {held : Bool} (h : s.Kept) (hrfd : s.refreshed held = some s') :
    s'.Kept := by
  obtain ⟨hguarded, hauthorized, hunready, hsent, -, hkilled⟩ := h
  simp only [Session.refreshed] at hrfd
  constructor <;> grind [Session.leave]

theorem lease_of_move {move : Move} (hmove : s.move move = some s') : s'.lease = s.lease := by
  cases move <;> simp only [Session.move] at hmove <;> grind [Session.leave, Session.die]

/-- Only a refresh clears a session. -/
theorem Kept.cleared_of_move {move : Move} (h : s.Kept) (hmove : s.move move = some s')
    (hclr : s'.Cleared) : s.Cleared := by
  have hunready := h.unready
  unfold Cleared at hclr ⊢
  cases move <;> simp only [Session.move] at hmove <;> grind [Session.leave, Session.die]

theorem cleared_of_start (hmove : s.move .start = some s') :
    s.Cleared ∧ s'.holds ∧ ¬ s'.Cleared := by
  obtain ⟨hgrd, ⟨⟩⟩ := Option.ite_none_right_eq_some.mp hmove
  exact ⟨.inr hgrd, by simp [Session.holds], by simp [Cleared]⟩

/-- A refresh does nothing to the lease and the lock, and clears a session only if the fence is
    held. -/
theorem refreshed_spec {held : Bool} (hrfd : s.refreshed held = some s') :
    s'.lease = s.lease ∧ s'.holds = s.holds ∧ (s'.Cleared → s.Cleared ∨ held) := by
  simp only [Session.refreshed] at hrfd
  unfold Cleared Session.holds
  grind [Session.leave]

end Session

/-! ### What holds on the host -/

structure Host.Sound (h : Host) : Prop where
  /-- The session that holds the lock is the one the lock names. -/
  locked : ∀ i, h.lock = some i ↔ ∃ s ∈ h.sessions[i]?, s.holds
  kept : ∀ s ∈ h.sessions, s.Kept
  bounded : h.row.generation < 2 ^ 64
  granted : ∀ lease ∈ h.granted, lease.generation ≤ h.row.generation
  leased : ∀ s ∈ h.sessions, s.lease ∈ h.granted
  begun : ∀ generation ∈ h.started, generation ≤ h.row.generation
  /-- Nothing newer has begun than a session that may begin. -/
  latest : ∀ s ∈ h.sessions, s.Cleared → ∀ generation ∈ h.started, generation ≤ s.lease.generation
  ordered : h.started.Pairwise (· ≤ ·)

theorem relock_spec {lock lock' : Option Nat} {before after : Bool}
    (h : relock lock i before after = some lock') (hbef : lock = some i ↔ before) :
    (lock' = some i ↔ after) ∧ ∀ j, j ≠ i → (lock' = some j ↔ lock = some j) := by
  cases before <;> cases after
  case false.true =>
    simp only [relock, Option.ite_none_right_eq_some, Option.some.injEq] at h
    obtain ⟨rfl, rfl⟩ := h
    simp [eq_comm]
  case true.false =>
    cases h
    simp [hbef.mpr rfl, eq_comm]
  case false.false | true.true =>
    cases h
    exact ⟨hbef, fun _ _ => .rfl⟩

namespace Host

theorem Sound.idle : Host.idle.Sound := by
  constructor <;> simp [Host.idle, LeaseRow.vacant, LeaseRow.generation]

/-- Two sessions that hold the lock are one. -/
theorem Sound.unique (hsnd : h.Sound) {j : Nat} {t : Session} (hi : h.sessions[i]? = some s)
    (hj : h.sessions[j]? = some t) (hs : s.holds) (ht : t.holds) : i = j := by
  have hlock := (hsnd.locked i).mpr ⟨s, hi, hs⟩
  rw [(hsnd.locked j).mpr ⟨t, hj, ht⟩] at hlock
  exact (Option.some.inj hlock).symm

theorem Sound.grant (hsnd : h.Sound) (thread : Nat) (owner : String) (ttlMs now : Int) :
    Sound { h with
      row := (h.row.grant thread owner ttlMs now).2
      granted := (h.row.grant thread owner ttlMs now).1 :: h.granted } := by
  have ⟨hnewer, hbnd⟩ : _ ∧ (h.row.grant thread owner ttlMs now).1.generation < 2 ^ 64 :=
    LeaseRow.generation_grant hsnd.bounded
  refine { hsnd with bounded := hbnd, granted := ?_, leased := ?_, begun := ?_ }
  · intro l hlea
    rcases List.mem_cons.mp hlea with rfl | hlea
    · exact Nat.le_refl _
    · exact Nat.le_trans (hsnd.granted l hlea) hnewer
  · exact fun s hs => List.mem_cons_of_mem _ (hsnd.leased s hs)
  · exact fun gen hbegun => Nat.le_trans (hsnd.begun gen hbegun) hnewer

/-- The other operations of the store change no generation. -/
theorem Sound.withRow (hsnd : h.Sound) {row : LeaseRow} (hrow : row.generation = h.row.generation) :
    Sound { h with row } :=
  { hsnd with
    bounded := hrow ▸ hsnd.bounded
    granted := hrow ▸ hsnd.granted
    begun := hrow ▸ hsnd.begun }

theorem Sound.enter (hsnd : h.Sound) (kind : Kind) {lease : Lease} (hlea : lease ∈ h.granted) :
    Sound { h with sessions := h.sessions ++ [Session.opened kind lease] } := by
  have hmem : ∀ s ∈ h.sessions ++ [Session.opened kind lease],
      s ∈ h.sessions ∨ s = .opened kind lease := by
    intro s hs
    simpa using hs
  refine { hsnd with locked := ?_, kept := ?_, leased := ?_, latest := ?_ }
  · intro i
    rw [hsnd.locked, List.getElem?_append]
    split
    · rfl
    next hge =>
      -- the new session holds no lock
      rw [List.getElem?_eq_none (Nat.le_of_not_lt hge)]
      simp [List.getElem?_singleton, Session.opened, Session.holds]
  · intro s hs
    rcases hmem s hs with hs | rfl
    · exact hsnd.kept s hs
    · exact .opened kind lease
  · intro s hs
    rcases hmem s hs with hs | rfl
    · exact hsnd.leased s hs
    · exact hlea
  · intro s hs hclr
    rcases hmem s hs with hs | rfl
    · exact hsnd.latest s hs hclr
    · simp [Session.opened, Session.Cleared] at hclr

theorem Sound.put (hsnd : h.Sound) {lock : Option Nat} (hi : h.sessions[i]? = some s)
    (hlock : relock h.lock i s.holds s'.holds = some lock) (hkept : s'.Kept)
    (hlea : s'.lease = s.lease)
    (hlatest : s'.Cleared → ∀ gen ∈ h.started, gen ≤ s.lease.generation) :
    Sound { h with lock, sessions := h.sessions.set i s' } := by
  have hlt : i < h.sessions.length := (List.getElem?_eq_some_iff.mp hi).1
  obtain ⟨hmine, hothers⟩ := relock_spec hlock (by simp [hsnd.locked, hi])
  have hmem : ∀ t ∈ h.sessions.set i s', t ∈ h.sessions ∨ t = s' := fun t ht =>
    List.mem_or_eq_of_mem_set ht
  refine { hsnd with locked := ?_, kept := ?_, leased := ?_, latest := ?_ }
  · intro j
    by_cases hj : j = i
    · subst hj
      simp [hmine, List.getElem?_set_self hlt]
    · rw [hothers j hj, hsnd.locked, List.getElem?_set_ne (Ne.symm hj)]
  · intro t ht
    rcases hmem t ht with ht | rfl
    · exact hsnd.kept t ht
    · exact hkept
  · intro t ht
    rcases hmem t ht with ht | rfl
    · exact hsnd.leased t ht
    · exact hlea ▸ hsnd.leased s (List.mem_of_getElem? hi)
  · intro t ht hclr
    rcases hmem t ht with ht | rfl
    · exact hsnd.latest t ht hclr
    · exact hlea ▸ hlatest hclr

theorem Sound.begin (hsnd : h.Sound) (hi : h.sessions[i]? = some s) (hholds : s.holds)
    (hclr : ¬ s.Cleared) (hlatest : ∀ gen ∈ h.started, gen ≤ s.lease.generation) :
    Sound { h with started := h.started ++ [s.lease.generation] } := by
  refine { hsnd with begun := ?_, latest := ?_, ordered := ?_ }
  · intro gen hgen
    rcases List.mem_append.mp hgen with hgen | hgen
    · exact hsnd.begun gen hgen
    · obtain rfl := List.mem_singleton.mp hgen
      exact hsnd.granted _ (hsnd.leased s (List.mem_of_getElem? hi))
  · intro t ht hoth
    obtain ⟨j, hj⟩ := List.mem_iff_getElem?.mp ht
    obtain rfl := hsnd.unique hi hj hholds hoth.holds
    cases hi.symm.trans hj
    exact absurd hoth hclr
  · simp only [List.pairwise_append, List.pairwise_singleton, List.mem_singleton, forall_eq]
    exact ⟨hsnd.ordered, trivial, hlatest⟩

theorem Sound.act {h' : Host} (hsnd : h.Sound) {move : Move}
    (hperm : ∀ s ∈ h.sessions[i]?, s.Permits move) (hact : h.act i move = some h') : h'.Sound := by
  simp only [Host.act, Option.bind_eq_bind, Option.bind_eq_some_iff] at hact
  obtain ⟨s, hi, s', hmove, lock, hlock, hput⟩ := hact
  cases hput
  have hkept := hsnd.kept s (List.mem_of_getElem? hi)
  have hlatest := hsnd.latest s (List.mem_of_getElem? hi)
  have hsnd' : Sound { h with lock, sessions := h.sessions.set i s' } := by
    apply hsnd.put hi hlock (hkept.move (hperm s hi) hmove) (Session.lease_of_move hmove)
    intro hclr
    exact hlatest (hkept.cleared_of_move hmove hclr)
  by_cases hsta : move = .start
  · subst hsta
    obtain ⟨hclr, hholds, hbegun⟩ := Session.cleared_of_start hmove
    rw [← Session.lease_of_move hmove]
    apply hsnd'.begin (List.getElem?_set_self (List.getElem?_eq_some_iff.mp hi).1) hholds hbegun
    rw [Session.lease_of_move hmove]
    exact hlatest hclr
  · simp only [hsta, if_false]
    exact hsnd'

/-- A refresh that succeeds is of the last generation granted. -/
theorem refreshLease_spec {l : Lease} {ttlMs now : Int} {answered held : Bool} {row : LeaseRow}
    (hrefr : h.refreshLease l ttlMs now answered = (held, row)) :
    row.generation = h.row.generation ∧ (held → l.generation = h.row.generation) := by
  unfold refreshLease at hrefr
  split at hrefr
  next env row' hans =>
    obtain ⟨rfl, rfl⟩ := Prod.mk.inj hrefr
    split at hans
    · obtain ⟨hkeeps, hgen⟩ := LeaseRow.generation_refresh hans
      refine ⟨hkeeps, fun hheld => ?_⟩
      simp only [Bool.and_eq_true, decide_eq_true_eq] at hheld
      rw [← hheld.1, ← hgen, hkeeps]
    · cases hans
  · obtain ⟨rfl, rfl⟩ := Prod.mk.inj hrefr
    exact ⟨rfl, nofun⟩

theorem Sound.refresh {h' : Host} (hsnd : h.Sound) {ttlMs now : Int} {answered : Bool}
    (hrefr : h.refresh i ttlMs now answered = some h') : h'.Sound := by
  simp only [Host.refresh, Option.bind_eq_bind, Option.bind_eq_some_iff] at hrefr
  obtain ⟨s, hi, hrefr⟩ := hrefr
  obtain ⟨hrow, hheld⟩ := @refreshLease_spec h s.lease ttlMs now answered _ _ rfl
  obtain ⟨s', hrfd, hput⟩ := hrefr
  cases hput
  obtain ⟨hlea, hholds, hclr⟩ := Session.refreshed_spec hrfd
  have hs := List.mem_of_getElem? hi
  have hlock : relock h.lock i s.holds s'.holds = some h.lock := by
    rw [hholds]
    cases s.holds <;> rfl
  apply Sound.withRow (h := { h with sessions := h.sessions.set i s' }) _ hrow
  apply hsnd.put hi hlock ((hsnd.kept s hs).refreshed hrfd) hlea
  intro hclears gen hgen
  rcases hclr hclears with hclr | hanswered
  · exact hsnd.latest s hs hclr gen hgen
  · exact Nat.le_trans (hsnd.begun gen hgen) (Nat.le_of_eq (hheld hanswered).symm)

def Permits (h : Host) : Event → Prop
  | .act i move => ∀ s ∈ h.sessions[i]?, s.Permits move
  | _ => True

instance (h : Host) : (event : Event) → Decidable (h.Permits event)
  | .act i move => inferInstanceAs (Decidable (∀ s ∈ h.sessions[i]?, s.Permits move))
  | .acquire .. | .takeover .. | .renew .. | .release .. | .enter .. | .refresh .. =>
    inferInstanceAs (Decidable True)

theorem Sound.step (h : Host) (event : Event) (h' : Host) (hsnd : h.Sound)
    (hperm : h.Permits event) (hstep : h.step event = some h') : h'.Sound := by
  cases event with
  | acquire thread owner ttlMs now =>
    obtain ⟨out, hacq, rfl⟩ := Option.map_eq_some_iff.mp hstep
    obtain ⟨-, rfl⟩ := LeaseRow.grant_of_acquire hacq
    exact hsnd.grant thread owner ttlMs now
  | takeover thread owner expectedToken expectedExpiresAt ttlMs now =>
    obtain ⟨out, htake, rfl⟩ := Option.map_eq_some_iff.mp hstep
    obtain ⟨-, rfl⟩ := LeaseRow.grant_of_takeover htake
    exact hsnd.grant thread owner ttlMs now
  | renew token ttlMs now =>
    obtain ⟨⟨lease, row⟩, hrenew, rfl⟩ := Option.map_eq_some_iff.mp hstep
    exact hsnd.withRow (LeaseRow.generation_refresh hrenew).1
  | release token now =>
    obtain ⟨row, hrel, rfl⟩ := Option.map_eq_some_iff.mp hstep
    exact hsnd.withRow (LeaseRow.generation_release hrel)
  | enter kind lease =>
    obtain ⟨hlea, ⟨⟩⟩ := Option.ite_none_right_eq_some.mp hstep
    exact hsnd.enter kind hlea
  | refresh i ttlMs now answered => exact hsnd.refresh hstep
  | act i move => exact hsnd.act hperm hstep

/-- At most one command or mutation of the environment runs. -/
def Alone (h : Host) : Prop :=
  ∀ (i j : Nat) (s t : Session),
    h.sessions[i]? = some s → h.sessions[j]? = some t → s.alive → t.alive → i = j

/-- No command or mutation began after one of a newer generation. -/
def InOrder (h : Host) : Prop := h.started.Pairwise (· ≤ ·)

theorem Sound.alone (hsnd : h.Sound) : h.Alone := by
  intro i j s t hi hj hs ht
  exact hsnd.unique hi hj ((hsnd.kept s (List.mem_of_getElem? hi)).holds hs)
    ((hsnd.kept t (List.mem_of_getElem? hj)).holds ht)

end Host

/-- In every run in which no shell's future goes between the go and its guard's end, and no guard
    fails to wait for its command, mutations run one at a time and in the order of generations. -/
theorem one_at_a_time {events : List Event} {h : Host}
    (hpermits : Machine.Along Host.step Host.Permits .idle events)
    (hrun : Machine.run Host.step .idle events = some h) : h.Alone ∧ h.InOrder := by
  have hsound : h.Sound := Machine.keeps_run .step .idle hpermits hrun
  exact ⟨hsound.alone, hsound.ordered⟩

section Runs

/-- The lease the store grants first, and the one it grants when that has expired. -/
def firstLease : Lease := ⟨1, ⟨0, 0⟩, "plan-1", .active, 15000⟩

def secondLease : Lease := ⟨2, ⟨1, 1⟩, "plan-2", .active, 35000⟩

def queues (i : Nat) (kind : Kind) (lease : Lease) (now : Int) : List Event :=
  [.enter kind lease, .refresh i 15000 now true, .act i (.spawn true)]

def begins (i : Nat) (now : Int) : List Event :=
  [.act i .takeLock, .act i .readReady, .refresh i 15000 now true, .act i .sayGo, .act i .readGo,
    .act i .start]

/-- A controller begins a shell command and stalls past its lease; a second is granted the next
    lease, and begins a mutation once the first has lost the lock as `losing` says. -/
def overtaken (losing : List Move) : List Event :=
  [.acquire 0 "plan-1" 15000 0] ++ queues 0 .shell firstLease 0 ++ begins 0 0 ++
  [.acquire 1 "plan-2" 15000 20000] ++ queues 1 .inProcess secondLease 20000 ++
  losing.map (.act 0) ++ begins 1 20000

/-- The controller gives up, and its guard kills the command and waits for its end. -/
def stopped : List Move := [.stop, .hangUp, .groupGone, .probe false, .join]

def dropped : List Move := [.abandon, .killed]

theorem one_at_a_time_overtaken :
    ∃ h, Machine.run Host.step .idle (overtaken stopped) = some h ∧ h.started = [1, 2] ∧
      Machine.Along Host.step Host.Permits .idle (overtaken stopped) ∧ h.Alone ∧ h.InOrder := by
  have hpermits : Machine.Along Host.step Host.Permits .idle (overtaken stopped) := by
    decide +kernel
  have hstarted : (Machine.run Host.step .idle (overtaken stopped)).map (·.started) =
      some [1, 2] := by
    decide +kernel
  obtain ⟨h, hrun, hstarted⟩ := Option.map_eq_some_iff.mp hstarted
  exact ⟨h, hrun, hstarted, hpermits, one_at_a_time hpermits hrun⟩

/-- The guard a dropped future kills frees the lock, and its command runs on: a mutation of the
    next generation begins beside it. -/
theorem dropped_future_leaves_command :
    ∃ h, Machine.run Host.step .idle (overtaken dropped) = some h ∧ ¬ h.Alone := by
  have halive : (Machine.run Host.step .idle (overtaken dropped)).map
      (fun h => h.sessions.map (·.alive)) = some [true, true] := by
    decide +kernel
  obtain ⟨h, hrun, halive⟩ := Option.map_eq_some_iff.mp halive
  refine ⟨h, hrun, fun halone => ?_⟩
  obtain ⟨s, rest, hsessions, hs, hrest⟩ := List.map_eq_cons_iff.mp halive
  obtain ⟨t, _, rfl, ht, -⟩ := List.map_eq_cons_iff.mp hrest
  exact absurd (halone 0 1 s t (by rw [hsessions]; rfl) (by rw [hsessions]; rfl) hs ht) nofun

end Runs

end Tenkai.FencedMutation
