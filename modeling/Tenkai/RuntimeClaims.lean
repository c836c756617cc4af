import Mathlib.Algebra.Order.Ring.Int
import Mathlib.Data.List.Infix
import Tenkai.Pool

/-!
# Claims of runtimes on one plan

`runtime_plans.rs`, statement by statement; the calls of any number of owners interleave between
the statements, each of which may fail before or after it takes effect. If the update of
`complete_runtime_plan` changes nothing, it looks at the stored completion alone: one of the same
text by the next owner passes for its own (`completed_by_another`). Where the text tells its
generation the protocol holds in every run (`claims_lawful`).
-/

namespace Tenkai.RuntimeClaims

/-- A row of `runtime_claims`. -/
structure ClaimRow where
  environmentId : String
  owner : String
  generation : Nat
  expiresAt : Int
  completion : Option String
  deriving DecidableEq

/-- What the calls have brought about, in the account of a run. -/
inductive Note
  /-- `claim_runtime_plan` gave the owner a claim of this generation. -/
  | granted (owner : String) (generation : Nat)
  /-- The update of `renew_runtime_plan` changed the row. -/
  | renewed (owner : String) (generation : Nat)
  /-- The update of `complete_runtime_plan` changed the row. -/
  | recorded (owner : String) (generation : Nat) (completion : String)
  /-- `complete_runtime_plan` returned `Ok`. -/
  | completed (owner : String) (generation : Nat) (completion : String)
  deriving DecidableEq

/-- The claims of one plan, the clock, and the account of the run, the latest note first. -/
structure Table where
  now : Int
  row : Option ClaimRow
  /-- The generations and texts with which completions were called. -/
  brought : List (Nat × String)
  log : List Note

def Table.blank (now : Int) : Table := ⟨now, none, [], []⟩

inductive StoreError
  | database (detail : String)
  | immutableConflict (kind id : String)
  | notFound (kind id : String)
  | staleLease (environment : String) (expected actual : Nat)
  | invalidData (kind detail : String)
  | leaseExpired (environment : String) (generation : Nat)
  | leaseOwnerMismatch (environment expected actual : String)
  | environmentMismatch (kind id expected actual : String)

/-! ### Statements -/

inductive Op
  | nowMillis
  /-- The transaction of `claim_runtime_plan`. -/
  | claim (planId environment owner : String) (expiresAt now : Int)
  /-- The update of `renew_runtime_plan`; the answer is the number of rows it changed. -/
  | extend (owner : String) (generation : Nat) (expiresAt now : Int)
  | selectClaim
  /-- The first read of `complete_runtime_plan`. -/
  | selectForCompletion (owner : String) (generation : Nat) (completion : String)
  /-- The update of `complete_runtime_plan`; the answer is the number of rows it changed. -/
  | recordCompletion (owner : String) (generation : Nat) (completion : String)
  | selectCompletion
  /-- `complete_runtime_plan` returns `Ok`. -/
  | returned (owner : String) (generation : Nat) (completion : String)
  deriving DecidableEq

abbrev Op.Answer : Op → Type
  | .nowMillis => Int
  | .claim _ _ _ _ _ => Option ClaimRow
  | .extend _ _ _ _ | .recordCompletion _ _ _ => Nat
  | .selectClaim => ClaimRow
  | .selectForCompletion _ _ _ => Option ClaimRow
  | .selectCompletion => Option String
  | .returned _ _ _ => Unit

/-- What a statement meets: the time, its fault, and what the claim's transaction reads of the
    environment and of the development fixtures. -/
structure Turn where
  time : Int
  fault : Fault
  environmentActive : Bool
  fixture : Bool

abbrev interface : Interface where
  Op := Op
  Choice _ := Turn
  Reply op := Except StoreError op.Answer

/-- Reading the clock and returning cannot fail. -/
def Op.fallible : Op → Bool
  | .nowMillis | .returned _ _ _ => false
  | _ => true

namespace Table

variable (s : Table)

def note (n : Note) : Table := { s with log := n :: s.log }

/-- A generation that does not fit an `i64` is refused when the parameter is bound. -/
def grant (environment owner : String) (generation : Nat) (expiresAt : Int) :
    Except StoreError (Option ClaimRow) × Table :=
  if generation < 2 ^ 63 then
    let row : ClaimRow := ⟨environment, owner, generation, expiresAt, none⟩
    (.ok (some row), { s with row := some row }.note (.granted owner generation))
  else
    (.error (.database "out of range integral type conversion attempted"), s)

/-- The claim is the owner's already: it is given again, with another expiry if it is open. -/
def regrant (row : ClaimRow) : Except StoreError (Option ClaimRow) × Table :=
  (.ok (some row), { s with row := some row }.note (.granted row.owner row.generation))

def claim (planId environment owner : String) (expiresAt now : Int) (turn : Turn) :
    Except StoreError (Option ClaimRow) × Table :=
  if turn.environmentActive = false then
    (.error (.invalidData "environment" ("retired environment " ++ environment ++
      " cannot accept runtime work claims")), s)
  else if turn.fixture then
    (.error (.invalidData "development_fixture" "fixture plans are non-executable"), s)
  else
    match s.row with
    | none => s.grant environment owner 1 expiresAt
    | some current =>
      if current.environmentId ≠ environment then
        (.error (.environmentMismatch "runtime claim" planId current.environmentId environment), s)
      else if current.owner = owner ∧ current.completion ≠ none then
        s.regrant current
      else if current.completion ≠ none then
        (.ok none, s)
      else if now < current.expiresAt ∧ current.owner = owner then
        s.regrant { current with expiresAt }
      else if now < current.expiresAt then
        (.ok none, s)
      else
        s.grant environment owner (min (current.generation + 1) (2 ^ 64 - 1)) expiresAt

def extend (owner : String) (generation : Nat) (expiresAt now : Int) :
    Except StoreError Nat × Table :=
  if generation < 2 ^ 63 then
    match s.row with
    | some current =>
      if current.owner = owner ∧ current.generation = generation ∧ now < current.expiresAt ∧
          current.completion = none then
        (.ok 1, { s with row := some { current with expiresAt } }.note (.renewed owner generation))
      else (.ok 0, s)
    | none => (.ok 0, s)
  else
    (.error (.database "out of range integral type conversion attempted"), s)

/-- The update of `complete_runtime_plan_sqlite`. -/
def recordCompletion (owner : String) (generation : Nat) (completion : String) :
    Except StoreError Nat × Table :=
  match s.row with
  | some current =>
    if current.owner = owner ∧ current.generation = generation ∧ current.completion = none then
      (.ok 1, { s with row := some { current with completion := some completion } }.note
        (.recorded owner generation completion))
    else (.ok 0, s)
  | none => (.ok 0, s)

def selectRow : Except StoreError ClaimRow :=
  match s.row with
  | some current => .ok current
  | none => .error (.database "Query returned no rows")

end Table

def effect (s : Table) : (op : Op) → Turn → Except StoreError op.Answer × Table
  | .nowMillis, turn => (.ok turn.time, { s with now := turn.time })
  | .claim planId environment owner expiresAt now, turn =>
    s.claim planId environment owner expiresAt now turn
  | .extend owner generation expiresAt now, _ => s.extend owner generation expiresAt now
  | .selectClaim, _ => (s.selectRow, s)
  | .selectForCompletion _ generation completion, _ =>
    (.ok s.row, { s with brought := (generation, completion) :: s.brought })
  | .recordCompletion owner generation completion, _ =>
    s.recordCompletion owner generation completion
  | .selectCompletion, _ => (s.selectRow.map (·.completion), s)
  | .returned owner generation completion, _ =>
    (.ok (), s.note (.completed owner generation completion))

def exec : Exec interface Table := fun op turn s =>
  (if op.fallible then turn.fault else .none).run (.database "disk I/O error") s
    (effect s op turn)

def clocked (op : Op) (turn : Turn) (s : Table) : Prop :=
  match op with
  | .nowMillis => s.now ≤ turn.time
  | _ => True

/-- No completion of another generation was called with this text. -/
def Table.Tells (s : Table) (generation : Nat) (completion : String) : Prop :=
  ∀ called ∈ s.brought, called.2 = completion → called.1 = generation

/-- The clock does not run back, and the text of a completion tells its generation. -/
def allowed (op : Op) (turn : Turn) (s : Table) : Prop :=
  clocked op turn s ∧
    match op with
    | .selectForCompletion _ generation completion => s.Tells generation completion
    | _ => True

instance decidableClocked (op : Op) (turn : Turn) (s : Table) : Decidable (clocked op turn s) :=
  match op with
  | .nowMillis => inferInstanceAs (Decidable (s.now ≤ turn.time))
  | .claim _ _ _ _ _ | .extend _ _ _ _ | .selectClaim | .selectForCompletion _ _ _
  | .recordCompletion _ _ _ | .selectCompletion | .returned _ _ _ => .isTrue trivial

instance decidableTells (s : Table) (generation : Nat) (completion : String) :
    Decidable (s.Tells generation completion) :=
  inferInstanceAs (Decidable (∀ called ∈ s.brought, _))

instance decidableAllowed (op : Op) (turn : Turn) (s : Table) : Decidable (allowed op turn s) :=
  match op with
  | .selectForCompletion _ generation completion =>
    inferInstanceAs (Decidable (_ ∧ s.Tells generation completion))
  | .nowMillis => inferInstanceAs (Decidable (s.now ≤ turn.time ∧ True))
  | .claim _ _ _ _ _ | .extend _ _ _ _ | .selectClaim | .recordCompletion _ _ _
  | .selectCompletion | .returned _ _ _ => .isTrue ⟨trivial, trivial⟩

/-! ### The calls -/

abbrev M (α : Type) : Type := ExceptT StoreError (Prog interface) α

def ask (op : Op) : M op.Answer := ExceptT.mk (.ask op .done)

section Calls

variable (planId : String)

def claimRuntimePlan (environment owner : String) (expiresAt : Int) : M (Option ClaimRow) := do
  let now : Int ← ask .nowMillis
  Prog.bailIf (environment = "" ∨ planId = "" ∨ owner = "" ∨ expiresAt ≤ now)
    (.invalidData "runtime claim" "environment, plan, owner, and future expiry are required")
  ask (.claim planId environment owner expiresAt now)

/-- After the update of a renewal: the claim as it is then, if a row was changed. -/
def renewed (changed : Nat) : M (Option ClaimRow) :=
  if changed = 0 then pure none else some <$> ask .selectClaim

def renewRuntimePlan (owner : String) (generation : Nat) (expiresAt : Int) :
    M (Option ClaimRow) := do
  let now : Int ← ask .nowMillis
  Prog.bailIf (planId = "" ∨ owner = "" ∨ generation = 0 ∨ expiresAt ≤ now)
    (.invalidData "runtime heartbeat" "plan, owner, generation, and future expiry are required")
  let changed : Nat ← ask (.extend owner generation expiresAt now)
  renewed changed

def claimFound : Option ClaimRow → M ClaimRow
  | some current => pure current
  | none => throw (.notFound "runtime claim" planId)

/-- After an update that changed nothing: the completion that is stored by then. -/
def lookAgain (completion : String) (changed : Nat) : M Unit :=
  if changed = 1 then
    pure ()
  else do
    let stored : Option String ← ask .selectCompletion
    Prog.bailIf (stored ≠ some completion) (.immutableConflict "runtime completion" planId)

/-- The completion of the claim that was read: it is there already, or is recorded now. -/
def settle (current : ClaimRow) (owner : String) (generation : Nat) (completion : String) :
    M Unit :=
  match current.completion with
  | some existing =>
    Prog.bailIf (existing ≠ completion) (.immutableConflict "runtime completion" planId)
  | none => do
    let now : Int ← ask .nowMillis
    Prog.bailIf (current.expiresAt ≤ now) (.leaseExpired planId generation)
    let changed : Nat ← ask (.recordCompletion owner generation completion)
    lookAgain planId completion changed

def completeRuntimePlan (owner : String) (generation : Nat) (completion : String) : M Unit := do
  let found : Option ClaimRow ← ask (.selectForCompletion owner generation completion)
  let current ← claimFound planId found
  Prog.bailIf (current.owner ≠ owner) (.leaseOwnerMismatch planId current.owner owner)
  Prog.bailIf (current.generation ≠ generation)
    (.staleLease planId current.generation generation)
  settle planId current owner generation completion

inductive Call
  | claim (environment owner : String) (expiresAt : Int)
  | renew (owner : String) (generation : Nat) (expiresAt : Int)
  | complete (owner : String) (generation : Nat) (completion : String)

def Call.code : Call → M Unit
  | .claim environment owner expiresAt => do
    let _ ← claimRuntimePlan planId environment owner expiresAt
  | .renew owner generation expiresAt => do
    let _ ← renewRuntimePlan planId owner generation expiresAt
  | .complete owner generation completion => do
    completeRuntimePlan planId owner generation completion
    ask (.returned owner generation completion)

def program (call : Call) : Prog interface Unit := do
  let _ ← (call.code planId).run

end Calls

/-- What happens when the calls of `events` interleave, from a plan that nobody has claimed. -/
def run (planId : String) (start : Int) (events : List (Event interface Call)) :
    Pool interface Table :=
  Pool.run (fun _ => exec) (program planId) ⟨.blank start, []⟩ events

/-! ### What the account says -/

def Note.Follows : Note → Note → Prop
  -- generations never decrease, and no generation has two owners
  | .granted owner generation, .granted owner' generation' =>
    generation' ≤ generation ∧ (generation' = generation → owner' = owner)
  -- after a completion, a claim is given to nobody but its owner, and with no new generation
  | .granted owner generation, .recorded owner' generation' _ =>
    owner = owner' ∧ generation = generation'
  | .renewed _ _, .recorded _ _ _ => False
  | .recorded _ _ _, .recorded _ _ _ => False
  | _, _ => True

/-- The protocol holds in what was done so far, and the row is what the account says of it. -/
structure Table.Lawful (s : Table) : Prop where
  ordered : s.log.Pairwise Note.Follows
  completed : ∀ owner generation completion, .completed owner generation completion ∈ s.log →
    .recorded owner generation completion ∈ s.log
  stored : ∀ owner generation completion, .recorded owner generation completion ∈ s.log →
    ∃ row ∈ s.row, row.owner = owner ∧ row.generation = generation ∧
      row.completion = some completion

/-- What holds between any two statements of a run whose completions tell their generations. -/
structure Table.Sound (s : Table) : Prop extends s.Lawful where
  held : ∀ owner generation, .granted owner generation ∈ s.log →
    ∃ row ∈ s.row, generation ≤ row.generation ∧ (generation = row.generation → owner = row.owner)
  granted : ∀ row ∈ s.row, .granted row.owner row.generation ∈ s.log
  recorded : ∀ row ∈ s.row, ∀ completion, row.completion = some completion →
    .recorded row.owner row.generation completion ∈ s.log
  told : ∀ owner generation completion, .recorded owner generation completion ∈ s.log →
    (generation, completion) ∈ s.brought
  tells : ∀ generation generation' completion, (generation, completion) ∈ s.brought →
    (generation', completion) ∈ s.brought → generation = generation'

theorem Table.sound_blank (now : Int) : (Table.blank now).Sound :=
  ⟨⟨.nil, nofun, nofun⟩, nofun, nofun, nofun, nofun, nofun⟩

/-- The account only grows. -/
structure Onward (s t : Table) : Prop where
  log : s.log <:+ t.log
  brought : s.brought ⊆ t.brought

theorem Onward.refl (s : Table) : Onward s s := ⟨List.suffix_rfl, List.Subset.refl _⟩

variable {s : Table} {A : Table → Prop}

theorem Onward.trans {t u : Table} (h : Onward s t) (h' : Onward t u) : Onward s u :=
  ⟨h.log.trans h'.log, List.Subset.trans h.brought h'.brought⟩

theorem Onward.note (s : Table) (row : Option ClaimRow) (n : Note) :
    Onward s ({ s with row }.note n) := ⟨List.suffix_cons n s.log, List.Subset.refl _⟩

section Sound

variable {s : Table} {cur : ClaimRow} {owner completion : String} {generation : Nat}

/-- While the claim is open, no completion has been recorded. -/
theorem Table.Lawful.not_recorded (h : s.Lawful) (hopen : ∀ row ∈ s.row, row.completion = none)
    (owner : String) (gen : Nat) (completion : String) :
    .recorded owner gen completion ∉ s.log := by
  intro hrecd
  obtain ⟨row, hrow, -, -, hcmpl⟩ := h.stored owner gen completion hrecd
  rw [hopen row hrow] at hcmpl
  cases hcmpl

/-- What a note says of the row that is written with it. -/
def Note.Agrees (s : Table) (row : ClaimRow) : Note → Prop
  | .granted owner generation => row.owner = owner ∧ row.generation = generation
  | .renewed _ _ => True
  | .recorded owner generation completion => row.owner = owner ∧ row.generation = generation ∧
    row.completion = some completion ∧ (generation, completion) ∈ s.brought
  | .completed owner generation completion => .recorded owner generation completion ∈ s.log

/-- A row that goes on from the one before, written with a note that goes on from those before. -/
theorem Table.Sound.write (h : s.Sound) {row : ClaimRow} {n : Note}
    (hfollows : ∀ earlier ∈ s.log, n.Follows earlier) (hagrees : n.Agrees s row)
    (hheld : ∀ old ∈ s.row, old.generation ≤ row.generation ∧
      (old.generation = row.generation → old.owner = row.owner))
    (hst : ∀ old ∈ s.row, ∀ completion, old.completion = some completion →
      row.owner = old.owner ∧ row.generation = old.generation ∧ row.completion = some completion)
    (hgrtd : .granted row.owner row.generation ∈ n :: s.log)
    (hrecd : ∀ completion, row.completion = some completion →
      .recorded row.owner row.generation completion ∈ n :: s.log) :
    ({ s with row := some row }.note n).Sound := by
  refine ⟨⟨List.pairwise_cons.mpr ⟨hfollows, h.ordered⟩, ?_, ?_⟩, ?_, ?_, ?_, ?_, h.tells⟩
  · intro owner gen completion hcompleted
    rcases List.mem_cons.mp hcompleted with rfl | hcompleted
    · exact List.mem_cons_of_mem _ hagrees
    · exact List.mem_cons_of_mem _ (h.completed _ _ _ hcompleted)
  · intro owner gen completion hnoted
    refine ⟨row, rfl, ?_⟩
    rcases List.mem_cons.mp hnoted with rfl | hnoted
    · exact ⟨hagrees.1, hagrees.2.1, hagrees.2.2.1⟩
    · obtain ⟨old, hold, rfl, rfl, hcmpl⟩ := h.stored _ _ _ hnoted
      exact hst old hold completion hcmpl
  · intro owner gen hnoted
    refine ⟨row, rfl, ?_⟩
    rcases List.mem_cons.mp hnoted with rfl | hnoted
    · obtain ⟨rfl, rfl⟩ := hagrees
      exact ⟨Nat.le_refl _, fun _ => rfl⟩
    · obtain ⟨old, hold, hle, howner⟩ := h.held _ _ hnoted
      obtain ⟨hle', howner'⟩ := hheld old hold
      refine ⟨hle.trans hle', fun heq => ?_⟩
      have hsame : gen = old.generation := by omega
      exact (howner hsame).trans (howner' (hsame ▸ heq))
  · rintro _ ⟨⟩
    exact hgrtd
  · rintro _ ⟨⟩
    exact hrecd
  · intro owner gen completion hnoted
    rcases List.mem_cons.mp hnoted with rfl | hnoted
    · exact hagrees.2.2.2
    · exact h.told _ _ _ hnoted

/-- A new generation over an open claim, or the first. -/
theorem Table.Sound.grant (h : s.Sound) (hopen : ∀ row ∈ s.row, row.completion = none)
    (hnew : ∀ row ∈ s.row, row.generation < generation) (env : String) (expiresAt : Int) :
    ({ s with row := some ⟨env, owner, generation, expiresAt, none⟩ }.note
      (.granted owner generation)).Sound := by
  refine h.write ?_ ⟨rfl, rfl⟩ ?_ ?_ List.mem_cons_self nofun
  · intro earlier hearl
    cases earlier with
    | granted owner' generation' =>
      obtain ⟨row, hrow, hle, -⟩ := h.held owner' generation' hearl
      have hlt := Nat.lt_of_le_of_lt hle (hnew row hrow)
      exact ⟨hlt.le, fun heq => absurd heq hlt.ne⟩
    | recorded => exact absurd hearl (h.not_recorded hopen _ _ _)
    | renewed | completed => trivial
  · exact fun old hold => ⟨(hnew old hold).le, fun heq => absurd heq (hnew old hold).ne⟩
  · intro old hold completion hcmpl
    rw [hopen old hold] at hcmpl
    cases hcmpl

section Current

variable (h : s.Sound) (hcurrent : s.row = some cur)
include h hcurrent

/-- The row is written again with another expiry, and a note is made that says nothing new of the
    row: its claim given again, or renewed. -/
theorem Table.Sound.rewrite {n : Note} (expiresAt : Int)
    (hn : n = .granted cur.owner cur.generation ∨ n = .renewed cur.owner cur.generation ∧
      cur.completion = none) : ({ s with row := some { cur with expiresAt } }.note n).Sound := by
  refine h.write ?_ ?_ ?_ ?_ ?_ ?_
  · intro earlier hearl
    rcases hn with rfl | ⟨rfl, hopen⟩
    · cases earlier with
      | granted =>
        obtain ⟨row, hmem, hheld⟩ := h.held _ _ hearl
        cases hcurrent.symm.trans hmem
        exact hheld
      | recorded =>
        obtain ⟨row, hmem, howner, hgen, -⟩ := h.stored _ _ _ hearl
        cases hcurrent.symm.trans hmem
        exact ⟨howner, hgen⟩
      | renewed | completed => trivial
    · cases earlier with
      | recorded => exact h.not_recorded (by simpa [hcurrent] using hopen) _ _ _ hearl
      | granted | renewed | completed => trivial
  · rcases hn with rfl | ⟨rfl, -⟩
    · exact ⟨rfl, rfl⟩
    · trivial
  · simp [hcurrent]
  · simp [hcurrent]
  · exact List.mem_cons_of_mem _ (h.granted cur hcurrent)
  · exact fun completion hcmpl => List.mem_cons_of_mem _ (h.recorded cur hcurrent completion hcmpl)

theorem Table.Sound.record (hopen : cur.completion = none)
    (hbrought : (cur.generation, completion) ∈ s.brought) :
    ({ s with row := some { cur with completion := some completion } }.note
      (.recorded cur.owner cur.generation completion)).Sound := by
  refine h.write ?_ ⟨rfl, rfl, rfl, hbrought⟩ ?_ ?_ ?_ ?_
  · intro earlier hearl
    cases earlier with
    | recorded => exact h.not_recorded (by simpa [hcurrent] using hopen) _ _ _ hearl
    | granted | renewed | completed => trivial
  · simp [hcurrent]
  · simp [hcurrent, hopen]
  · exact List.mem_cons_of_mem _ (h.granted cur hcurrent)
  · rintro _ ⟨⟩
    exact List.mem_cons_self

end Current

theorem Table.Sound.complete (h : s.Sound) (hrecd : .recorded owner generation completion ∈ s.log) :
    (s.note (.completed owner generation completion)).Sound := by
  obtain ⟨row, hrow, -⟩ := h.stored _ _ _ hrecd
  have hsame : s = { s with row := some row } := by rw [← Option.mem_def.mp hrow]
  rw [hsame]
  refine h.write (fun _ _ => trivial) hrecd ?_ ?_ ?_ ?_
  · simp [Option.mem_def.mp hrow]
  · simp [Option.mem_def.mp hrow]
  · exact List.mem_cons_of_mem _ (h.granted row hrow)
  · exact fun completion' hcmpl => List.mem_cons_of_mem _ (h.recorded row hrow completion' hcmpl)

/-- A completion is called with a text that tells its generation. -/
theorem Table.Sound.bring (h : s.Sound) (htells : s.Tells generation completion) :
    { s with brought := (generation, completion) :: s.brought }.Sound := by
  refine ⟨⟨h.ordered, h.completed, h.stored⟩, h.held, h.granted, h.recorded, ?_, ?_⟩
  · intro owner' generation' completion' hrecd
    exact List.mem_cons_of_mem _ (h.told _ _ _ hrecd)
  · intro _ _ completion' h₁ h₂
    rcases List.mem_cons.mp h₁ with heq₁ | h₁
    · cases heq₁
      rcases List.mem_cons.mp h₂ with heq₂ | h₂
      · cases heq₂
        rfl
      · exact (htells _ h₂ rfl).symm
    · rcases List.mem_cons.mp h₂ with heq₂ | h₂
      · cases heq₂
        exact htells _ h₁ rfl
      · exact h.tells _ _ _ h₁ h₂

end Sound

/-! ### What a statement does -/

/-- What a statement is made after: a completion is recorded after it was called, and returned
    after it was recorded. -/
def Table.Ready (s : Table) : Op → Prop
  | .recordCompletion _ generation completion => (generation, completion) ∈ s.brought
  | .returned owner generation completion => .recorded owner generation completion ∈ s.log
  | _ => True

section Effect

variable {s : Table}

theorem Table.Sound.grantNext (h : s.Sound) {env owner : String} {gen : Nat}
    {expiry : Int} (hopen : ∀ row ∈ s.row, row.completion = none)
    (hnew : gen < 2 ^ 63 → ∀ row ∈ s.row, row.generation < gen) :
    (s.grant env owner gen expiry).2.Sound ∧ Onward s (s.grant env owner gen expiry).2 := by
  unfold Table.grant
  split
  next hfits => exact ⟨h.grant hopen (hnew hfits) env expiry, .note _ _ _⟩
  · exact ⟨h, .refl s⟩

theorem Table.Sound.claim (h : s.Sound) (id env owner : String) (expiresAt now : Int)
  (turn : Turn) : (s.claim id env owner expiresAt now turn).2.Sound ∧
      Onward s (s.claim id env owner expiresAt now turn).2 := by
  have hstay : s.Sound ∧ Onward s s := ⟨h, .refl s⟩
  unfold Table.claim
  split
  · exact hstay
  split
  · exact hstay
  split
  next hrow =>
    have hnone : ∀ row ∈ s.row, row.completion = none ∧ row.generation < 1 := by
      rw [hrow]
      exact nofun
    exact h.grantNext (fun row hmem => (hnone row hmem).1) fun _ row hmem => (hnone row hmem).2
  next cur hrow =>
    have hregrant : ∀ expiry, (s.regrant { cur with expiresAt := expiry }).2.Sound ∧
        Onward s (s.regrant { cur with expiresAt := expiry }).2 := fun expiry =>
      ⟨h.rewrite hrow expiry (.inl rfl), .note _ _ _⟩
    split
    · exact hstay
    split
    · exact hregrant cur.expiresAt
    split
    · exact hstay
    next hopen =>
      split
      · exact hregrant expiresAt
      split
      · exact hstay
      · refine h.grantNext ?_ ?_
        · rw [hrow]
          rintro row ⟨⟩
          exact not_not.mp hopen
        · rw [hrow]
          rintro hfits row ⟨⟩
          omega

theorem Table.Sound.extend (h : s.Sound) (owner : String) (gen : Nat)
    (expiry now : Int) : (s.extend owner gen expiry now).2.Sound ∧
      Onward s (s.extend owner gen expiry now).2 := by
  have hstay : s.Sound ∧ Onward s s := ⟨h, .refl s⟩
  unfold Table.extend
  split
  · split
    next cur hrow =>
      split
      next hheld =>
        obtain ⟨rfl, rfl, -, hopen⟩ := hheld
        exact ⟨h.rewrite hrow expiry (.inr ⟨rfl, hopen⟩), .note _ _ _⟩
      · exact hstay
    · exact hstay
  · exact hstay

theorem Table.Sound.recordCompletion (h : s.Sound) (owner : String) {gen : Nat}
    {completion : String} (hbrought : (gen, completion) ∈ s.brought) :
    (s.recordCompletion owner gen completion).2.Sound ∧
      Onward s (s.recordCompletion owner gen completion).2 := by
  have hstay : s.Sound ∧ Onward s s := ⟨h, .refl s⟩
  unfold Table.recordCompletion
  split
  next cur hrow =>
    split
    next hheld =>
      obtain ⟨rfl, rfl, hopen⟩ := hheld
      exact ⟨h.record hrow hopen hbrought, .note _ _ _⟩
    · exact hstay
  · exact hstay

theorem Table.Sound.effect (h : s.Sound) {op : Op} {turn : Turn} (halw : allowed op turn s)
    (hrdy : s.Ready op) : (effect s op turn).2.Sound ∧ Onward s (effect s op turn).2 := by
  cases op with
  | nowMillis =>
    have hlaw : (RuntimeClaims.effect s .nowMillis turn).2.Lawful :=
      ⟨h.ordered, h.completed, h.stored⟩
    exact ⟨⟨hlaw, h.held, h.granted, h.recorded, h.told, h.tells⟩, List.suffix_rfl, .refl _⟩
  | claim id env owner expiresAt now => exact h.claim id env owner expiresAt now turn
  | extend owner gen expiresAt now => exact h.extend owner gen expiresAt now
  | selectClaim => exact ⟨h, .refl s⟩
  | selectForCompletion owner gen completion =>
    exact ⟨h.bring halw.2, List.suffix_rfl, List.subset_cons_self _ _⟩
  | recordCompletion owner gen completion => exact h.recordCompletion owner hrdy
  | selectCompletion => exact ⟨h, .refl s⟩
  | returned owner gen completion => exact ⟨h.complete hrdy, .note s s.row _⟩

theorem Table.Sound.exec (h : s.Sound) {op : Op} {turn : Turn} (halw : allowed op turn s)
    (hrdy : s.Ready op) : (exec op turn s).2.Sound ∧ Onward s (exec op turn s).2 := by
  have heff := h.effect halw hrdy
  unfold RuntimeClaims.exec Fault.run
  split
  · exact heff
  · exact ⟨h, .refl s⟩
  · exact heff

theorem exec_ok {op : Op} {turn : Turn} {a : op.Answer} (h : (exec op turn s).1 = .ok a) :
    exec op turn s = effect s op turn := by
  unfold exec Fault.run at h ⊢
  split at h
  · rfl
  · cases h
  · cases h

end Effect

/-! ### The calls, interleaved -/

def conduct : Conduct interface Table where
  exec _ := exec
  allowed := allowed
  inv := Table.Sound
  rely _ := Onward
  guar _ := Onward

section Programs

variable {i : Nat} {α : Type}

def Lasting (A : Table → Prop) : Prop := ∀ s t, Onward s t → A s → A t

theorem lasting_true : Lasting fun _ => True := fun _ _ _ _ => trivial

theorem lasting_noted (n : Note) : Lasting fun s => n ∈ s.log :=
  fun _ _ h hn => h.log.subset hn

theorem lasting_brought (called : Nat × String) : Lasting fun s => called ∈ s.brought :=
  fun _ _ h hcall => h.brought hcall

theorem Lasting.and {B : Table → Prop} (hA : Lasting A) (hB : Lasting B) :
    Lasting fun s => A s ∧ B s := fun s t h hs => ⟨hA s t h hs.1, hB s t h hs.2⟩

/-- A statement that is made when it is ready: what lasted still holds after it, with what its
    answer tells. -/
theorem yields_ask (hA : Lasting A) (op : Op) (hrdy : ∀ s, A s → s.Ready op)
    {R : op.Answer → Table → Prop}
    (hR : ∀ s turn a, A s → s.Sound → (effect s op turn).1 = .ok a → R a (effect s op turn).2)
    (hs : A s) : conduct.Yields i (ask op) (fun a t => A t ∧ R a t) s := by
  intro t hst hsnd turn halw
  have hAt := hA s t hst hs
  have hexec := hsnd.exec halw (hrdy t hAt)
  refine ⟨hexec, ?_⟩
  intro a ha
  refine ⟨hA t _ hexec.2 hAt, ?_⟩
  have heff : exec op turn t = effect t op turn := exec_ok ha
  change (exec op turn t).1 = .ok a at ha
  change R a (exec op turn t).2
  rw [heff] at ha ⊢
  exact hR t turn a hAt hsnd ha

/-- A statement whose answer tells nothing that is needed. -/
theorem yields_quiet (hA : Lasting A) (op : Op) (hrdy : ∀ s, A s → s.Ready op) (hs : A s) :
    conduct.Yields i (ask op) (fun _ t => A t) s := by
  have hask := yields_ask (i := i) hA op hrdy (R := fun _ _ => True) (fun _ _ _ _ _ _ => trivial) hs
  exact hask.mono fun _ _ h => h.1

theorem ends_claimRuntimePlan (id env owner : String) (expiry : Int) (s : Table) :
    conduct.Yields i (claimRuntimePlan id env owner expiry) (fun _ _ => True) s := by
  apply Conduct.Yields.bind (yields_quiet lasting_true .nowMillis (fun _ _ => trivial) trivial)
  intro now t _
  apply Conduct.Yields.bind .bailIf
  intro _ u _
  exact yields_quiet lasting_true (.claim id env owner expiry now) (fun _ _ => trivial) trivial

theorem ends_renewRuntimePlan (id owner : String) (gen : Nat) (expiry : Int) (s : Table) :
    conduct.Yields i (renewRuntimePlan id owner gen expiry) (fun _ _ => True) s := by
  apply Conduct.Yields.bind (yields_quiet lasting_true .nowMillis (fun _ _ => trivial) trivial)
  intro now t _
  apply Conduct.Yields.bind .bailIf
  intro _ u _
  apply Conduct.Yields.bind
    (yields_quiet lasting_true (.extend owner gen expiry now) (fun _ _ => trivial) trivial)
  intro _ v _
  unfold renewed
  split
  · exact .pure trivial
  · apply Conduct.Yields.bind (yields_quiet lasting_true .selectClaim (fun _ _ => trivial) trivial)
    intro _ w _
    exact .pure trivial

/-! ### Completions -/

section Complete

variable {owner completion : String} {generation : Nat}

/-- A completion that was called under a claim that was granted. -/
def Called (owner : String) (generation : Nat) (completion : String) (s : Table) : Prop :=
  .granted owner generation ∈ s.log ∧ (generation, completion) ∈ s.brought

theorem lasting_called : Lasting (Called owner generation completion) :=
    (lasting_noted _).and (lasting_brought _)

/-- The stored completion has the caller's text, so it is of the caller's generation, and so of
    its owner. -/
theorem Table.Sound.recorded_of_stored (h : s.Sound) (hcall : Called owner generation completion s)
    {row : ClaimRow} (hrow : s.row = some row) (hst : row.completion = some completion) :
    .recorded owner generation completion ∈ s.log := by
  have hrecd := h.recorded row hrow completion hst
  have hgen : row.generation = generation := h.tells _ _ _ (h.told _ _ _ hrecd) hcall.2
  obtain ⟨held, hheld, -, howner⟩ := h.held owner generation hcall.1
  obtain rfl : held = row := Option.some.inj (hheld.symm.trans hrow)
  rwa [hgen, ← howner hgen.symm] at hrecd

theorem yields_lookAgain (id : String) (changed : Nat)
    (hcall : Called owner generation completion s)
    (hchgd : changed = 1 → .recorded owner generation completion ∈ s.log) :
    conduct.Yields i (lookAgain id completion changed)
      (fun _ t => .recorded owner generation completion ∈ t.log) s := by
  unfold lookAgain
  split
  next hone => exact .pure (hchgd hone)
  · have hlook : conduct.Yields i (ask .selectCompletion) (fun (stored : Option String) t =>
        Called owner generation completion t ∧ (stored = some completion →
          .recorded owner generation completion ∈ t.log)) s := by
      apply yields_ask lasting_called .selectCompletion (fun _ _ => trivial) _ hcall
      rintro t _ stored ht hsnd hst rfl
      simp only [effect, Table.selectRow] at hst
      split at hst
      next row hrow => exact hsnd.recorded_of_stored ht hrow (Except.ok.inj hst)
      · cases hst
    apply Conduct.Yields.bind hlook
    rintro stored t ⟨-, hrecd⟩
    apply Conduct.Yields.bailIf.mono
    rintro _ u ⟨rfl, hsame⟩
    exact hrecd (not_not.mp hsame)

theorem yields_settle (id : String) {cur : ClaimRow} (hcall : Called owner generation completion s)
    (hcur : ∀ existing, cur.completion = some existing →
      .recorded owner generation existing ∈ s.log) :
    conduct.Yields i (settle id cur owner generation completion)
      (fun _ t => .recorded owner generation completion ∈ t.log) s := by
  unfold settle
  split
  next existing hexisting =>
    apply Conduct.Yields.bailIf.mono
    rintro _ t ⟨rfl, hsame⟩
    rw [← not_not.mp hsame]
    exact hcur existing hexisting
  · apply Conduct.Yields.bind (yields_quiet lasting_called .nowMillis (fun _ _ => trivial) hcall)
    intro _ u hu
    apply Conduct.Yields.bind .bailIf
    rintro - t ⟨rfl, -⟩
    have hrec : conduct.Yields i (ask (.recordCompletion owner generation completion))
        (fun (changed : Nat) v => Called owner generation completion v ∧
          (changed = 1 → .recorded owner generation completion ∈ v.log)) t := by
      apply yields_ask lasting_called (.recordCompletion owner generation completion)
        (fun _ h => h.2) _ hu
      rintro v _ changed hv - hans rfl
      simp only [effect, Table.recordCompletion] at hans ⊢
      split at hans
      next row hrow =>
        split at hans
        next hheld =>
          rw [if_pos hheld]
          exact List.mem_cons_self
        · cases hans
      · cases hans
    apply Conduct.Yields.bind hrec
    rintro changed v ⟨hv, hchgd⟩
    exact yields_lookAgain id changed hv hchgd

theorem yields_completeRuntimePlan (id : String) (s : Table) :
    conduct.Yields i (completeRuntimePlan id owner generation completion)
      (fun _ t => .recorded owner generation completion ∈ t.log) s := by
  have hselect : conduct.Yields i (ask (.selectForCompletion owner generation completion))
      (fun (found : Option ClaimRow) t => True ∧ (generation, completion) ∈ t.brought ∧
        ∀ row ∈ found, .granted row.owner row.generation ∈ t.log ∧
          ∀ existing, row.completion = some existing →
            .recorded row.owner row.generation existing ∈ t.log) s := by
    apply yields_ask lasting_true (.selectForCompletion owner generation completion)
      (fun _ _ => trivial) _ trivial
    intro t _ found _ hsnd hans
    obtain rfl : t.row = found := Except.ok.inj hans
    refine ⟨List.mem_cons_self, ?_⟩
    intro row hrow
    exact ⟨hsnd.granted row hrow, hsnd.recorded row hrow⟩
  apply Conduct.Yields.bind hselect
  rintro found t ⟨-, hbrought, hfd⟩
  cases found with
  | none => exact .throw _
  | some cur =>
    obtain ⟨hgrtd, hexisting⟩ := hfd cur rfl
    apply Conduct.Yields.bind .bailIf
    rintro - u ⟨rfl, howner⟩
    apply Conduct.Yields.bind .bailIf
    rintro - t ⟨rfl, hgen⟩
    obtain rfl := not_not.mp howner
    obtain rfl := not_not.mp hgen
    exact yields_settle id ⟨hgrtd, hbrought⟩ hexisting

end Complete

theorem composes (id : String) : Pool.Composes conduct (program id) where
  refl _ s := .refl s
  trans _ _ _ _ h h' := h.trans h'
  rely_of_proper _ _ _ _ _ _ h := h.2
  sat i call s _ := by
    refine .bind ?_ fun _ _ h => h
    cases call with
    | claim env owner expiresAt =>
      exact (ends_claimRuntimePlan id env owner expiresAt s).ends fun _ _ _ => trivial
    | renew owner gen expiresAt =>
      exact (ends_renewRuntimePlan id owner gen expiresAt s).ends fun _ _ _ => trivial
    | complete owner gen completion =>
      refine (yields_completeRuntimePlan id s).ends fun _ t ht => ?_
      exact (yields_quiet (lasting_noted _) (.returned owner gen completion) (fun _ h => h) ht).sat

end Programs

/-! ### The run -/

theorem onward_of_chain {t : Table}
    (h : Relation.ReflTransGen (fun s t => ∃ i, conduct.Proper i s t) s t) : Onward s t := by
  induction h with
  | refl => exact .refl s
  | tail _ hstep ih =>
    obtain ⟨i, hprop⟩ := hstep
    exact ih.trans hprop.2

/-- In every interleaving of claims, renewals and completions by a clock that does not run back,
    in which completions of different generations have different texts: the account is lawful, and
    a stored completion is never changed. -/
theorem claims_lawful (planId : String) (start : Int) (events : List (Event interface Call))
    (hrun : Pool.Admissible (fun _ => exec) (program planId) allowed ⟨.blank start, []⟩ events) :
    (run planId start events).shared.Lawful ∧ ∀ before after, events = before ++ after →
        ∀ row ∈ (run planId start before).shared.row, ∀ completion,
          row.completion = some completion →
          ∃ row' ∈ (run planId start events).shared.row, row'.completion = some completion := by
  have hstart := Pool.Good.of_no_threads (C := conduct) (Table.sound_blank start)
  refine ⟨(hstart.run_chain (composes planId) hrun).1.1.toLawful, ?_⟩
  rintro before after rfl row hrow completion hstored
  obtain ⟨hbefore, hafter⟩ := (Pool.admissible_append _ _ _ _ _ _).mp hrun
  have hmid := (hstart.run_chain (composes planId) hbefore).1
  obtain ⟨hend, hchain⟩ := hmid.run_chain (composes planId) hafter
  have hsplit : run planId start (before ++ after) =
      .run (fun _ => exec) (program planId) (run planId start before) after :=
    Pool.run_append _ _ _ _ _
  rw [hsplit]
  have hlogged := (onward_of_chain hchain).log.subset (hmid.1.recorded _ hrow _ hstored)
  obtain ⟨later, hlater, -, -, hkept⟩ := hend.1.stored _ _ _ hlogged
  exact ⟨later, hlater, hkept⟩

def moment (time : Int) : Oracle interface := fun _ => ⟨time, .none, true, false⟩

/-- Owner `a` lets its claim expire; `b` claims the plan, renews its claim and completes it. -/
def handedOver : List (Event interface Call) :=
  [.call (.claim "site" "a" 10), .act 0 (moment 0), .act 0 (moment 0),
    .call (.claim "site" "b" 30), .act 1 (moment 20), .act 1 (moment 20),
    .call (.renew "b" 2 40), .act 2 (moment 25), .act 2 (moment 25), .act 2 (moment 25),
    .call (.complete "b" 2 "done"), .act 3 (moment 35), .act 3 (moment 35), .act 3 (moment 35),
    .act 3 (moment 35)]

theorem claims_lawful_handedOver :
    Pool.Admissible (fun _ => exec) (program "plan") allowed ⟨.blank 0, []⟩ handedOver ∧
      (run "plan" 0 handedOver).shared.log =
        [.completed "b" 2 "done", .recorded "b" 2 "done", .renewed "b" 2, .granted "b" 2,
          .granted "a" 1] ∧
      (run "plan" 0 handedOver).shared.Lawful := by
  have hrun : Pool.Admissible (fun _ => exec) (program "plan") allowed ⟨.blank 0, []⟩
      handedOver := by decide +kernel
  exact ⟨hrun, by decide +kernel, (claims_lawful "plan" 0 handedOver hrun).1⟩

/-- Owner `a` has read its claim, open and unexpired, and is about to record its completion when
    the claim expires, `b` claims the plan and completes it with the same text. The update of `a`
    changes nothing, and its second read finds its own text. -/
def sameText : List (Event interface Call) :=
  [.call (.claim "site" "a" 10), .act 0 (moment 0), .act 0 (moment 0),
    .call (.complete "a" 1 "done"), .act 1 (moment 5), .act 1 (moment 5),
    .call (.claim "site" "b" 30), .act 2 (moment 20), .act 2 (moment 20),
    .call (.complete "b" 2 "done"), .act 3 (moment 20), .act 3 (moment 20), .act 3 (moment 20),
    .act 3 (moment 20),
    .act 1 (moment 20), .act 1 (moment 20), .act 1 (moment 20)]

theorem completed_by_another :
    Pool.Admissible (fun _ => exec) (program "plan") clocked ⟨.blank 0, []⟩ sameText ∧
      .completed "a" 1 "done" ∈ (run "plan" 0 sameText).shared.log ∧
      .recorded "a" 1 "done" ∉ (run "plan" 0 sameText).shared.log ∧
      (run "plan" 0 sameText).shared.row = some ⟨"site", "b", 2, 30, some "done"⟩ := by
  decide +kernel

end Tenkai.RuntimeClaims
