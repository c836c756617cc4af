import Mathlib.Data.Option.Basic
import Mathlib.Tactic.Cases

/-!
# Fencing tokens

A fence guards a resource by the token of its present holder. A grant replaces the token, however
it came about, and counts a generation up to a limit; a release leaves the token behind without a
holder. If no token is granted twice, then one that has lost the fence never has it again, and
that needs no clock.
-/

namespace Tenkai

structure Fence (τ : Type) where
  token : τ
  generation : Nat
  active : Bool

namespace Fence

variable {τ : Type}

/-- What an operation on a fenced resource does to the fence. -/
inductive Act (τ : Type)
  | keep
  | grant (token : τ)
  | release

def generationOf (fence : Option (Fence τ)) : Nat := (fence.map (·.generation)).getD 0

def next (limit : Nat) : Option (Fence τ) → Nat
  | none => 1
  | some fence => min (fence.generation + 1) limit

def act (limit : Nat) (fence : Option (Fence τ)) : Act τ → Option (Fence τ)
  | .keep => fence
  | .grant token => some ⟨token, next limit fence, true⟩
  | .release => fence.map fun held => { held with active := false }

def acts (limit : Nat) (fence : Option (Fence τ)) (run : List (Act τ)) : Option (Fence τ) :=
  run.foldl (act limit) fence

def Live (fence : Option (Fence τ)) (token : τ) : Prop :=
  ∃ held ∈ fence, held.active = true ∧ held.token = token

theorem Live.unique {fence : Option (Fence τ)} {token token' : τ} (h : Live fence token)
    (h' : Live fence token') : token = token' := by
  obtain ⟨held, hheld, -, rfl⟩ := h
  obtain ⟨held', hheld', -, rfl⟩ := h'
  rw [Option.mem_unique hheld hheld']

/-! ### Tokens that have lost the fence -/

variable {limit : Nat} {fence : Option (Fence τ)} {token : τ}

theorem not_live_grant {token' : τ} (h : token ≠ token') :
    ¬ Live (act limit fence (.grant token')) token := by
  rintro ⟨held, hheld, -, rfl⟩
  cases hheld
  exact h rfl

theorem not_live_release : ¬ Live (act limit fence .release) token := by
  rintro ⟨held, hheld, hactv, -⟩
  obtain ⟨before, -, rfl⟩ := Option.map_eq_some_iff.mp hheld
  cases hactv

/-- Only the grant of a token makes it the holder's. -/
theorem not_live_act {a : Act τ} (h : ¬ Live fence token) (ha : a ≠ .grant token) :
    ¬ Live (act limit fence a) token := by
  cases a with
  | keep => exact h
  | grant token' =>
    have hne : token ≠ token' := by
      rintro rfl
      exact ha rfl
    exact not_live_grant hne
  | release => exact not_live_release

variable {run : List (Act τ)}

theorem not_live_acts (h : ¬ Live fence token) (hrun : .grant token ∉ run) :
    ¬ Live (acts limit fence run) token := by
  induction run generalizing fence with
  | nil => exact h
  | cons a rest ih =>
    have ha : a ≠ .grant token := by
      rintro rfl
      exact hrun List.mem_cons_self
    exact ih (not_live_act h ha) fun hmem => hrun (List.mem_cons_of_mem a hmem)

/-- The token on the fence was there before, or was granted since. -/
theorem token_acts {held : Fence τ} (h : held ∈ acts limit fence run) :
    (∃ before ∈ fence, before.token = held.token) ∨ .grant held.token ∈ run := by
  induction run generalizing fence with
  | nil => exact .inl ⟨held, h, rfl⟩
  | cons a rest ih =>
    rcases ih h with ⟨before, hbef, htok⟩ | hgrant
    · cases a with
      | keep => exact .inl ⟨before, hbef, htok⟩
      | grant token =>
        cases hbef
        rw [← htok]
        exact .inr List.mem_cons_self
      | release =>
        obtain ⟨released, hreleased, rfl⟩ := Option.map_eq_some_iff.mp hbef
        exact .inl ⟨released, hreleased, htok⟩
    · exact .inr (List.mem_cons_of_mem a hgrant)

/-! ### Generations -/

theorem le_generationOf_act {a : Act τ} {n : Nat} (h : n ≤ generationOf fence) (hn : n ≤ limit) :
    n ≤ generationOf (act limit fence a) := by
  cases fence with
  | none =>
    have hzero : n = 0 := Nat.le_zero.mp h
    subst hzero
    exact Nat.zero_le _
  | some held =>
    have hheld : n ≤ held.generation := h
    cases a with
    | keep => exact h
    | grant token => exact Nat.le_min.mpr ⟨Nat.le_succ_of_le hheld, hn⟩
    | release => exact h

theorem le_generationOf_acts {n : Nat} (h : n ≤ generationOf fence) (hn : n ≤ limit) :
    n ≤ generationOf (acts limit fence run) := by
  induction run generalizing fence with
  | nil => exact h
  | cons a rest ih => exact ih (le_generationOf_act h hn)

/-- Below the limit, a later grant has a greater generation. -/
theorem lt_next {n : Nat} (h : n ≤ generationOf fence) (hn : n < limit) (hpos : 0 < n) :
    n < next limit fence := by
  cases fence with
  | none => exact absurd (Nat.le_zero.mp h) (Nat.pos_iff_ne_zero.mp hpos)
  | some held =>
    have hheld : n ≤ held.generation := h
    exact Nat.lt_min.mpr ⟨Nat.lt_succ_of_le hheld, hn⟩

end Fence

end Tenkai
