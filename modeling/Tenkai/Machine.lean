import Mathlib.Data.Option.Basic

/-!
# Step machines

A machine is a partial step function: an event that cannot happen in a state has no successor
there. What every allowed step keeps holds after every run whose steps are all allowed.
-/

namespace Tenkai.Machine

variable {σ ε : Type}

def run (step : σ → ε → Option σ) : σ → List ε → Option σ
  | s, [] => some s
  | s, event :: rest => (step s event).bind fun t => run step t rest

def Along (step : σ → ε → Option σ) (allowed : σ → ε → Prop) : σ → List ε → Prop
  | _, [] => True
  | s, event :: rest => allowed s event ∧ ∀ t ∈ step s event, Along step allowed t rest

instance Along.decidable (step : σ → ε → Option σ) (allowed : σ → ε → Prop)
    [∀ s event, Decidable (allowed s event)] :
    ∀ s events, Decidable (Along step allowed s events)
  | _, [] => .isTrue trivial
  | s, event :: rest =>
    have : ∀ t, Decidable (Along step allowed t rest) := fun t =>
      Along.decidable step allowed t rest
    inferInstanceAs (Decidable (allowed s event ∧ ∀ t ∈ step s event, _))

/-- What every allowed step keeps holds at the end of an allowed run. -/
theorem keeps_run {step : σ → ε → Option σ} {allowed : σ → ε → Prop} {P : σ → Prop}
    (hstep : ∀ s ev t, P s → allowed s ev → step s ev = some t → P t) {s t : σ} {events : List ε}
    (hs : P s) (hall : Along step allowed s events) (hrun : run step s events = some t) : P t := by
  induction events generalizing s with
  | nil =>
    cases hrun
    exact hs
  | cons ev rest ih =>
    obtain ⟨u, hu, hrest⟩ := Option.bind_eq_some_iff.mp hrun
    exact ih (hstep s ev u hs hall.1 hu) (hall.2 u hu) hrest

theorem along_true (step : σ → ε → Option σ) (events : List ε) {s : σ} :
    Along step (fun _ _ => True) s events := by
  induction events generalizing s with
  | nil => trivial
  | cons ev rest ih => exact ⟨trivial, fun _ _ => ih⟩

/-- Two conditions on steps that agree where `P` holds, which the second keeps, agree along runs. -/
theorem along_iff {step : σ → ε → Option σ} {A B : σ → ε → Prop} {P : σ → Prop}
    (hiff : ∀ s ev, P s → (A s ev ↔ B s ev))
    (hstep : ∀ s ev t, P s → B s ev → step s ev = some t → P t)
    {s : σ} {events : List ε} (hs : P s) : Along step A s events ↔ Along step B s events := by
  induction events generalizing s with
  | nil => exact .rfl
  | cons ev rest ih =>
    simp only [Along, hiff s ev hs]
    apply and_congr_right
    intro hB
    exact forall₂_congr fun t ht => ih (hstep s ev t hs hB ht)

end Tenkai.Machine
