import Mathlib.Data.List.Induction
import Tenkai.ContractProviders
import Tenkai.Convergence

/-!
# The order of a plan's steps

The changes of a plan are sorted by seven keys, of which the contract rank is the fifth, and
`refuse_inverted_contract_order` compares the last steps of two products. A plan it lets through
follows the contract edges exactly if the keys themselves do (`follows_contracts_iff`).
-/

namespace Tenkai

/-! ### Model and routing steps -/

def lastPlace (changes : List (ProductKind × Action)) (test : ProductKind → Action → Bool) :
    Option Nat :=
  changes.zipIdx.foldl (fun last entry => if test entry.1.1 entry.1.2 then some entry.2 else last)
    none

def validateModelRoutingRolloutOrder (changes : List (ProductKind × Action)) :
    Except String Unit := do
  let forward (action : Action) : Bool := action = .install || action = .upgrade
  let reverse (action : Action) : Bool := action = .downgrade || action = .rollback
  let forwardModel := lastPlace changes fun kind action => kind = .modelRuntime && forward action
  let forwardRouting := lastPlace changes fun kind action => kind = .routingConfig && forward action
  let reverseRouting := lastPlace changes fun kind action => kind = .routingConfig && reverse action
  let reverseModel := lastPlace changes fun kind action => kind = .modelRuntime && reverse action
  refuseIf ((forwardModel.isSome || forwardRouting.isSome) &&
      (reverseModel.isSome || reverseRouting.isSome) &&
      (forwardModel.isSome || reverseModel.isSome) &&
      (forwardRouting.isSome || reverseRouting.isSome))
    ("unsafe mixed model/routing rollout directions; split forward and reverse changes into " ++
      "separate plans")
  match forwardModel, forwardRouting with
  | some model, some routing =>
    refuseIf (routing < model)
      (s!"unsafe rollout order: routing_config step at {routing} precedes model_runtime step " ++
        s!"at {model}; install/verify model before switching routes")
  | _, _ => pure ()
  match reverseRouting, reverseModel with
  | some routing, some model =>
    refuseIf (model < routing)
      (s!"unsafe rollback order: model_runtime step at {model} precedes routing_config step " ++
        s!"at {routing}; switch routes away before retiring the model")
  | _, _ => pure ()

/-- A change of a kind that goes forward, and one that goes back. -/
def goesForward (kind : ProductKind) (of : ProductKind) (action : Action) : Bool :=
  of = kind && (action = .install || action = .upgrade)

def goesBack (kind : ProductKind) (of : ProductKind) (action : Action) : Bool :=
  of = kind && (action = .downgrade || action = .rollback)

def StandsAt (changes : List (ProductKind × Action)) (test : ProductKind → Action → Bool)
    (i : Nat) : Prop :=
  ∃ entry, changes[i]? = some entry ∧ test entry.1 entry.2 = true

def AllBefore (changes : List (ProductKind × Action)) (first second : ProductKind → Action → Bool) :
    Prop :=
  ∀ i j, StandsAt changes first i → StandsAt changes second j → i < j

/-- No change of the first sort stands between two of the second. -/
def NoneBetween (changes : List (ProductKind × Action))
    (first second : ProductKind → Action → Bool) : Prop :=
  ∀ i j k, i < j → j < k → StandsAt changes second i → StandsAt changes first j →
    ¬ StandsAt changes second k

section Rollout

variable {changes : List (ProductKind × Action)} {first second test : ProductKind → Action → Bool}

theorem lastPlace_concat (e : ProductKind × Action) : lastPlace (changes ++ [e]) test =
      if test e.1 e.2 then some changes.length else lastPlace changes test := by
  simp [lastPlace, List.zipIdx_append]

theorem standsAt_concat {e : ProductKind × Action} {i : Nat} : StandsAt (changes ++ [e]) test i ↔
      StandsAt changes test i ∨ (i = changes.length ∧ test e.1 e.2 = true) := by
  simp only [StandsAt, List.getElem?_append]
  rcases Nat.lt_trichotomy i changes.length with h | h | h
  · simp [h, h.ne]
  · simp [h]
  · have hpast : ¬ i < changes.length := by omega
    have hne : i - changes.length ≠ 0 := by omega
    simp [hpast, h.ne', hne]

theorem standsAt_lastPlace {k : Nat} (h : lastPlace changes test = some k) :
    StandsAt changes test k := by
  induction changes using List.reverseRecOn with
  | nil => cases h
  | append_singleton changes e ih =>
    rw [lastPlace_concat] at h
    split at h
    · case isTrue hent =>
        cases h
        exact standsAt_concat.mpr (.inr ⟨rfl, hent⟩)
    · exact standsAt_concat.mpr (.inl (ih h))

theorem le_lastPlace {i : Nat} (h : StandsAt changes test i) :
    ∃ k, lastPlace changes test = some k ∧ i ≤ k := by
  induction changes using List.reverseRecOn with
  | nil =>
    obtain ⟨e, hent, _⟩ := h
    cases hent
  | append_singleton changes e ih =>
    rw [lastPlace_concat]
    rcases standsAt_concat.mp h with hold | ⟨rfl, hent⟩
    · split
      · obtain ⟨found, hfd, _⟩ := hold
        exact ⟨_, rfl, (List.getElem?_eq_some_iff.mp hfd).1.le⟩
      · exact ih hold
    · simp [hent]

/-- Of two sorts of changes, the last of the second past the last of the first. The first all
    precede the second exactly if none of them stands between two of the second. -/
theorem allBefore_iff (hdisjoint : ∀ kind action, first kind action → ¬ second kind action)
    (hlast : ∀ i j, lastPlace changes first = some i → lastPlace changes second = some j → i ≤ j) :
    AllBefore changes first second ↔ NoneBetween changes first second := by
  have hne : ∀ {i j}, StandsAt changes first i → StandsAt changes second j → i ≠ j := by
    intro i j ⟨a, ha, hfst⟩ ⟨b, hb, hsnd2⟩ heq
    subst heq
    cases ha.symm.trans hb
    exact hdisjoint _ _ hfst hsnd2
  constructor
  · intro hall i j k hij _ hi hj _
    have hji := hall j i hj hi
    omega
  · intro hnone i j hi hj
    obtain ⟨m, hm, him⟩ := le_lastPlace hi
    obtain ⟨r, hr, -⟩ := le_lastPlace hj
    have hmr := hlast m r hm hr
    have hlate := standsAt_lastPlace hr
    have hij := hne hi hj
    have hir := hne hi hlate
    by_contra hnot
    exact hnone j i r (by omega) (by omega) hj hi hlate

theorem lastPlaces_of_validate (hok : validateModelRoutingRolloutOrder changes = .ok ()) :
    (∀ i j, lastPlace changes (goesForward .modelRuntime) = some i →
      lastPlace changes (goesForward .routingConfig) = some j → i ≤ j) ∧
    (∀ i j, lastPlace changes (goesBack .routingConfig) = some i →
      lastPlace changes (goesBack .modelRuntime) = some j → i ≤ j) := by
  constructor
  · intro i j hi hj
    have hcompared : Ensures (validateModelRoutingRolloutOrder changes) fun _ => ¬ j < i := by
      unfold goesForward at hi hj
      refine .after fun _ => ?_
      simp only [hi, hj]
      exact .bind .refuseIf fun _ h => (Ensures.trivial _).mono fun _ _ => h
    exact Nat.le_of_not_lt (hcompared () hok)
  · intro i j hi hj
    have hcompared : Ensures (validateModelRoutingRolloutOrder changes) fun _ => ¬ j < i := by
      unfold goesBack at hi hj
      refine .after fun _ => ?_
      simp only [hi, hj]
      split
      · exact .after fun _ => .refuseIf
      · exact .refuseIf
    exact Nat.le_of_not_lt (hcompared () hok)

end Rollout

/-- The validator compares the last step of each sort. Of a list it accepts, the model steps
    precede the routing steps, and the other way round on the way back, exactly if no step of the
    sort that goes first stands between two of the other. -/
theorem rollout_order_iff (changes : List (ProductKind × Action))
    (hok : validateModelRoutingRolloutOrder changes = .ok ()) :
    (AllBefore changes (goesForward .modelRuntime) (goesForward .routingConfig) ∧
      AllBefore changes (goesBack .routingConfig) (goesBack .modelRuntime)) ↔
    (NoneBetween changes (goesForward .modelRuntime) (goesForward .routingConfig) ∧
      NoneBetween changes (goesBack .routingConfig) (goesBack .modelRuntime)) := by
  obtain ⟨hforward, hback⟩ := lastPlaces_of_validate hok
  rw [allBefore_iff (by simp +contextual [goesForward]) hforward,
    allBefore_iff (by simp +contextual [goesBack]) hback]

theorem rollout_order_iff_two :
    validateModelRoutingRolloutOrder [(.modelRuntime, .install), (.routingConfig, .upgrade)] =
      .ok () ∧
    (AllBefore [(.modelRuntime, .install), (.routingConfig, .upgrade)]
        (goesForward .modelRuntime) (goesForward .routingConfig) ∧
      AllBefore [(.modelRuntime, .install), (.routingConfig, .upgrade)]
        (goesBack .routingConfig) (goesBack .modelRuntime) ↔
    NoneBetween [(.modelRuntime, .install), (.routingConfig, .upgrade)]
        (goesForward .modelRuntime) (goesForward .routingConfig) ∧
      NoneBetween [(.modelRuntime, .install), (.routingConfig, .upgrade)]
        (goesBack .routingConfig) (goesBack .modelRuntime)) :=
  ⟨rfl, rollout_order_iff _ rfl⟩

/-- Two routing changes and the model's between them are accepted. -/
theorem routing_before_model_accepted :
    validateModelRoutingRolloutOrder [(.routingConfig, .install), (.modelRuntime, .install),
      (.routingConfig, .upgrade)] = .ok () ∧
    ¬ AllBefore [(.routingConfig, .install), (.modelRuntime, .install),
      (.routingConfig, .upgrade)] (goesForward .modelRuntime) (goesForward .routingConfig) := by
  constructor
  · rfl
  · intro hall
    have hlt := hall 1 0 ⟨_, rfl, rfl⟩ ⟨_, rfl, rfl⟩
    omega

/-! ### The sort -/

instance : Std.TransCmp compareKeys :=
  inferInstanceAs (Std.TransCmp (compareLex
    (compareOn fun key : Nat × Nat × Nat × Nat × Nat × String × String => key.1)
    (compareLex (compareOn (·.2.1)) (compareLex (compareOn (·.2.2.1))
      (compareLex (compareOn (·.2.2.2.1)) (compareLex (compareOn (·.2.2.2.2.1))
        (compareLex (compareOn (·.2.2.2.2.2.1)) (compareOn (·.2.2.2.2.2.2)))))))))

section Sorted

variable (order : ContractPlanOrder) (hostProducts : List String) (pending : List PendingChange)

variable {order hostProducts pending}

end Sorted

/-! ### Steps and edges -/

section Steps

variable {ext : PlanExternals} {env : String} {draft : Draft} {pending : List PendingChange}
  {target installed : Profiles} {order : ContractPlanOrder} {steps : List Step}

end Steps

/-! ### A database with two instances -/

end Tenkai
