import Tenkai.Prog
import Mathlib.Logic.Relation

/-!
# Interleaved programs

A pool is a shared state and the programs at work on it; one that is never scheduled again has
crashed. Programs are checked one by one, each against what the others may do to the state between
two of its operations (the rely) and what its own operations do (the guarantee).
`Pool.Good.run_chain` carries such specifications to every interleaving.
-/

namespace Tenkai

/-- The rules programs are checked against: how an operation of thread `i` executes,
    which operations may happen, what holds between any two of them (`inv`), what the
    others may do there (`rely`, already closed under repetition) and what each
    operation of the thread does (`guar`). -/
structure Conduct (I : Interface) (σ : Type) where
  exec : Nat → Exec I σ
  allowed : (op : I.Op) → I.Choice op → σ → Prop
  inv : σ → Prop
  rely : Nat → σ → σ → Prop
  guar : Nat → σ → σ → Prop

namespace Conduct

variable {I : Interface} {α β ε σ : Type} {C : Conduct I σ} {i : Nat}

/-- One operation of thread `i` keeps the invariant and is within the guarantee. -/
def Proper (C : Conduct I σ) (i : Nat) (t t' : σ) : Prop := C.inv t' ∧ C.guar i t t'

/-- From `s`, whatever the others do within the rely and however the allowed operations
    are answered, every operation of the program is proper, and if it returns then `Q`
    holds of its result. -/
def Sat (C : Conduct I σ) (i : Nat) : Prog I α → (α → σ → Prop) → σ → Prop
  | .done a, Q, s => Q a s
  | .ask op k, Q, s => ∀ t, C.rely i s t → C.inv t → ∀ c, C.allowed op c t →
      C.Proper i t (C.exec i op c t).2 ∧
        C.Sat i (k (C.exec i op c t).1) Q (C.exec i op c t).2

variable {Q : α → σ → Prop} {p : Prog I α} {s : σ} {f : α → ExceptT ε (Prog I) β}
  {x : ExceptT ε (Prog I) α}

theorem Sat.mono {Q' : α → σ → Prop} (h : C.Sat i p Q s) (hQ : ∀ a t, Q a t → Q' a t) :
    C.Sat i p Q' s := by
  induction p generalizing s with
  | done a => exact hQ a s h
  | ask op k ih =>
    intro t ht hinv c hc
    exact ⟨(h t ht hinv c hc).1, ih _ (h t ht hinv c hc).2⟩

/-- Sequencing: a specification of the first program carries into the second. -/
theorem Sat.bind {f : α → Prog I β} {P : α → σ → Prop} {Q : β → σ → Prop} (h : C.Sat i p P s)
    (hf : ∀ a t, P a t → C.Sat i (f a) Q t) : C.Sat i (p >>= f) Q s := by
  induction p generalizing s with
  | done a => exact hf a s h
  | ask op k ih =>
    intro t ht hinv c hc
    exact ⟨(h t ht hinv c hc).1, ih _ (h t ht hinv c hc).2⟩

/-- Sequencing of programs that may fail: an error skips what follows. -/
theorem Sat.bind_run {p : ExceptT ε (Prog I) α} {P : Except ε α → σ → Prop}
    {Q : Except ε β → σ → Prop} (h : C.Sat i p.run P s)
    (hok : ∀ a t, P (.ok a) t → C.Sat i (f a).run Q t)
    (herr : ∀ e t, P (.error e) t → Q (.error e) t) : C.Sat i (p >>= f).run Q s := by
  apply Sat.bind h
  intro r t hr
  cases r with
  | ok a => exact hok a t hr
  | error e => exact herr e t hr

/-- From a state with `P`, the program ends, if it does, in a state with `Q`, whatever
    it returns. -/
def Spec (C : Conduct I σ) (i : Nat) (P : σ → Prop) (x : ExceptT ε (Prog I) α)
    (Q : σ → Prop) : Prop :=
  ∀ s, P s → C.Sat i x.run (fun _ t => Q t) s

section Spec

variable {P Q R : σ → Prop}

theorem Spec.pure (h : ∀ s, P s → Q s) (a : α) : C.Spec i P (pure a : ExceptT ε (Prog I) α) Q := h

theorem Spec.throw (h : ∀ s, P s → Q s) (e : ε) : C.Spec i P (throw e : ExceptT ε (Prog I) α) Q := h

theorem Spec.bind (hx : C.Spec i P x R) (hRQ : ∀ s, R s → Q s) (hf : ∀ a, C.Spec i R (f a) Q) :
    C.Spec i P (x >>= f) Q := by
  intro s hs
  refine (hx s hs).bind_run (fun a t ht => hf a t ht) (fun e t ht => hRQ t ht)

theorem Spec.caught (hx : C.Spec i P x Q) :
    C.Spec i P (ExceptT.lift x.run : ExceptT ε (Prog I) (Except ε α)) Q := by
  intro s hs
  exact .bind (hx s hs) (fun r t ht => ht)

theorem Spec.weaken {P' Q' : σ → Prop} (hx : C.Spec i P x Q) (hP : ∀ s, P' s → P s)
    (hQ : ∀ s, Q s → Q' s) : C.Spec i P' x Q' := by
  intro s hs
  exact (hx s (hP s hs)).mono (fun _ t ht => hQ t ht)

end Spec

/-- From `s`, the program returns, if it does, an error or a value with `Q`. -/
def Yields (C : Conduct I σ) (i : Nat) (x : ExceptT ε (Prog I) α) (Q : α → σ → Prop)
    (s : σ) : Prop :=
  C.Sat i x.run (fun r t => ∀ a, r = .ok a → Q a t) s

section Yields

variable {P : σ → Prop} {Q : β → σ → Prop} {R : α → σ → Prop} {s : σ}

theorem Yields.pure {a : α} (h : R a s) : C.Yields i (pure a : ExceptT ε (Prog I) α) R s := by
  intro b hb
  cases hb
  exact h

theorem Yields.throw (e : ε) : C.Yields i (throw e : ExceptT ε (Prog I) α) R s := by
  intro a ha
  cases ha

theorem Yields.mono {R' : α → σ → Prop} (hx : C.Yields i x R s) (h : ∀ a t, R a t → R' a t) :
    C.Yields i x R' s :=
  Sat.mono hx fun _ t hr a ha => h a t (hr a ha)

theorem Yields.of_spec (hx : C.Spec i P x P) (hs : P s) : C.Yields i x (fun _ => P) s :=
    (hx s hs).mono fun _ _ ht _ _ => ht

theorem Yields.bind (hx : C.Yields i x R s) (hf : ∀ a t, R a t → C.Yields i (f a) Q t) :
    C.Yields i (x >>= f) Q s := by
  refine .bind_run hx ?_ ?_
  · intro a t ha
    exact hf a t (ha a rfl)
  · intro e t _ b hb
    cases hb

theorem Yields.sat (hx : C.Yields i x R s) :
    C.Sat i x.run (fun _ _ => True) s := Sat.mono hx fun _ _ _ => trivial

theorem Yields.bailIf {c : Prop} [Decidable c] {error : ε} :
    C.Yields i (Prog.bailIf c error : ExceptT ε (Prog I) Unit) (fun _ t => t = s ∧ ¬ c) s := by
  unfold Prog.bailIf
  split
  · exact .throw error
  next hc => exact .pure ⟨rfl, hc⟩

/-- Where nothing is asked of the end, an error along the way is as good as the end. -/
theorem Yields.ends (hx : C.Yields i x R s)
    (hf : ∀ a t, R a t → C.Sat i (f a).run (fun _ _ => True) t) :
    C.Sat i (x >>= f).run (fun _ _ => True) s := by
  refine .bind_run hx ?_ (fun _ _ _ => trivial)
  intro a t ha
  exact hf a t (ha a rfl)

end Yields

/-- What neither the others' moves nor its own undo stays true while a program runs. -/
theorem Sat.frame {A : σ → Prop} (hrely : ∀ s t, C.rely i s t → A s → A t)
    (hguar : ∀ s t, C.guar i s t → A s → A t) (h : C.Sat i p Q s) (hs : A s) :
    C.Sat i p (fun a t => Q a t ∧ A t) s := by
  induction p generalizing s with
  | done a => exact ⟨h, hs⟩
  | ask op k ih =>
    intro t ht hinv c hc
    obtain ⟨hprop, hrest⟩ := h t ht hinv c hc
    exact ⟨hprop, ih _ hrest (hguar _ _ hprop.2 (hrely s t ht hs))⟩

/-- A specification survives the others' moves before the program's next operation. -/
theorem Sat.of_rely (htrans : ∀ s t u, C.rely i s t → C.rely i t u → C.rely i s u)
    (hQ : ∀ a s t, C.rely i s t → Q a s → Q a t) {t : σ} (hst : C.rely i s t) (h : C.Sat i p Q s) :
    C.Sat i p Q t := by
  cases p with
  | done a => exact hQ a s t hst h
  | ask op k => exact fun u hu => h u (htrans s t u hst hu)

end Conduct

/-- The next operation of a program, answered by `oracle`, is one that `allowed` admits. -/
def Prog.NextAllowed {I : Interface} {α σ : Type}
    (allowed : (op : I.Op) → I.Choice op → σ → Prop) (oracle : Oracle I) (s : σ) :
    Prog I α → Prop
  | .done _ => True
  | .ask op _ => allowed op (oracle op) s

instance {I : Interface} {α σ : Type} (allowed : (op : I.Op) → I.Choice op → σ → Prop)
    [∀ op c s, Decidable (allowed op c s)] (oracle : Oracle I) (s : σ) :
    (p : Prog I α) → Decidable (p.NextAllowed allowed oracle s)
  | .done _ => isTrue trivial
  | .ask op _ => inferInstanceAs (Decidable (allowed op (oracle op) s))

/-- A shared state and the programs at work on it. -/
structure Pool (I : Interface) (σ : Type) where
  shared : σ
  threads : List (Prog I Unit)

/-- What happens next: a call starts, or a thread performs its next operation. -/
inductive Event (I : Interface) (κ : Type)
  | call (c : κ)
  | act (i : Nat) (oracle : Oracle I)

namespace Pool

variable {I : Interface} {σ κ : Type}

def step (exec : Nat → Exec I σ) (program : κ → Prog I Unit) (p : Pool I σ) :
    Event I κ → Pool I σ
  | .call c => { p with threads := p.threads ++ [program c] }
  | .act i oracle =>
    match p.threads[i]? with
    | some (.ask op k) =>
      let out := exec i op (oracle op) p.shared
      { shared := out.2, threads := p.threads.set i (k out.1) }
    | _ => p

def run (exec : Nat → Exec I σ) (program : κ → Prog I Unit) (p : Pool I σ)
    (events : List (Event I κ)) : Pool I σ :=
  events.foldl (step exec program) p

def Permits (allowed : (op : I.Op) → I.Choice op → σ → Prop) (p : Pool I σ) :
    Event I κ → Prop
  | .call _ => True
  | .act i oracle => ∀ q ∈ p.threads[i]?, q.NextAllowed allowed oracle p.shared

instance (allowed : (op : I.Op) → I.Choice op → σ → Prop)
    [∀ op c s, Decidable (allowed op c s)] (p : Pool I σ) :
    (e : Event I κ) → Decidable (p.Permits allowed e)
  | .call _ => isTrue trivial
  | .act i oracle =>
    inferInstanceAs (Decidable (∀ q ∈ p.threads[i]?, q.NextAllowed allowed oracle p.shared))

/-- Every event of the run performs an admitted operation. -/
def Admissible (exec : Nat → Exec I σ) (program : κ → Prog I Unit)
    (allowed : (op : I.Op) → I.Choice op → σ → Prop) :
    Pool I σ → List (Event I κ) → Prop
  | _, [] => True
  | p, e :: es =>
    p.Permits allowed e ∧ Admissible exec program allowed (p.step exec program e) es

instance decidableAdmissible (exec : Nat → Exec I σ) (program : κ → Prog I Unit)
    (allowed : (op : I.Op) → I.Choice op → σ → Prop)
    [∀ op c s, Decidable (allowed op c s)] :
    (p : Pool I σ) → (es : List (Event I κ)) →
      Decidable (Admissible exec program allowed p es)
  | _, [] => isTrue trivial
  | p, e :: es =>
    haveI := decidableAdmissible exec program allowed (p.step exec program e) es
    inferInstanceAs (Decidable (p.Permits allowed e ∧ _))

theorem run_append (exec : Nat → Exec I σ) (program : κ → Prog I Unit) (p : Pool I σ)
    (es fs : List (Event I κ)) :
    p.run exec program (es ++ fs) = (p.run exec program es).run exec program fs :=
  List.foldl_append ..

theorem admissible_append (exec : Nat → Exec I σ) (program : κ → Prog I Unit)
    (allowed : (op : I.Op) → I.Choice op → σ → Prop) (p : Pool I σ) (es fs : List (Event I κ)) :
    Admissible exec program allowed p (es ++ fs) ↔ Admissible exec program allowed p es ∧
        Admissible exec program allowed (p.run exec program es) fs := by
  induction es generalizing p with
  | nil => simp [Admissible, run]
  | cons e es ih => simp [Admissible, run, ih, and_assoc]

theorem Admissible.mono {exec : Nat → Exec I σ} {program : κ → Prog I Unit}
    {allowed allowed' : (op : I.Op) → I.Choice op → σ → Prop}
    (himp : ∀ op c s, allowed op c s → allowed' op c s) {p : Pool I σ} {es : List (Event I κ)}
    (h : Admissible exec program allowed p es) : Admissible exec program allowed' p es := by
  induction es generalizing p with
  | nil => trivial
  | cons e es ih =>
    refine ⟨?_, ih h.2⟩
    cases e with
    | call c => trivial
    | act i oracle =>
      intro q hq
      have hnext := h.1 q hq
      cases q with
      | done a => trivial
      | ask op k => exact himp op _ _ hnext

/-- The side conditions under which programs checked one by one may be interleaved:
    a proper operation of one thread is within what every other relies on. -/
structure Composes (C : Conduct I σ) (program : κ → Prog I Unit) : Prop where
  refl : ∀ i s, C.rely i s s
  trans : ∀ i s t u, C.rely i s t → C.rely i t u → C.rely i s u
  rely_of_proper : ∀ i j s t, i ≠ j → C.inv s → C.Proper i s t → C.rely j s t
  sat : ∀ i c s, C.inv s → C.Sat i (program c) (fun _ _ => True) s

/-- The invariant holds and every thread still meets its specification. -/
def Good (C : Conduct I σ) (p : Pool I σ) : Prop :=
  C.inv p.shared ∧
    ∀ i q, p.threads[i]? = some q → C.Sat i q (fun _ _ => True) p.shared

variable {C : Conduct I σ} {program : κ → Prog I Unit}

theorem Good.of_no_threads {s : σ} (hinv : C.inv s) : Good C ⟨s, []⟩ :=
  ⟨hinv, by simp⟩

/-- One event of a pool either leaves the shared state alone or is a proper operation
    of one thread, which the others rely on. -/
theorem Good.step (hC : Composes C program) {p : Pool I σ} (hp : Good C p)
    {e : Event I κ} (he : p.Permits C.allowed e) :
    Good C (p.step C.exec program e) ∧ ((p.step C.exec program e).shared = p.shared ∨
        ∃ i, C.Proper i p.shared (p.step C.exec program e).shared) := by
  obtain ⟨hinv, hthreads⟩ := hp
  cases e with
  | call c =>
    refine ⟨⟨hinv, fun j q hq => ?_⟩, .inl rfl⟩
    have hmem : p.threads[j]? = some q ∨ program c = q := by
      simp only [Pool.step, List.getElem?_append] at hq
      split at hq
      · exact .inl hq
      · exact .inr (List.mem_singleton.mp (List.mem_of_getElem? hq)).symm
    rcases hmem with hq | rfl
    · exact hthreads j q hq
    · exact hC.sat j c p.shared hinv
  | act i oracle =>
    simp only [Pool.step, Permits] at he ⊢
    split
    next op k hi =>
      have halw : C.allowed op (oracle op) p.shared := he _ hi
      have hmine := hthreads i _ hi p.shared (hC.refl i _) hinv (oracle op) halw
      refine ⟨⟨hmine.1.1, fun j q hq => ?_⟩, .inr ⟨i, hmine.1⟩⟩
      by_cases hij : i = j
      · subst hij
        obtain rfl : k _ = q := by
          simpa [List.getElem?_set, (List.getElem?_eq_some_iff.mp hi).1] using hq
        exact hmine.2
      · rw [List.getElem?_set_ne hij] at hq
        exact (hthreads j q hq).of_rely (hC.trans j) (fun _ _ _ _ h => h)
          (hC.rely_of_proper i j _ _ hij hinv hmine.1)
    · exact ⟨⟨hinv, hthreads⟩, .inl rfl⟩

/-- Every interleaving is a chain of proper operations. -/
theorem Good.run_chain (hC : Composes C program) {p : Pool I σ} (hp : Good C p)
    {es : List (Event I κ)} (hes : Admissible C.exec program C.allowed p es) :
    Good C (p.run C.exec program es) ∧
      Relation.ReflTransGen (fun s t => ∃ i, C.Proper i s t) p.shared
        (p.run C.exec program es).shared := by
  induction es generalizing p with
  | nil => exact ⟨hp, .refl⟩
  | cons e es ih =>
    obtain ⟨hgood, hshared⟩ := hp.step hC hes.1
    obtain ⟨hend, hchain⟩ := ih hgood hes.2
    refine ⟨hend, ?_⟩
    rcases hshared with heq | hprop
    · rwa [heq] at hchain
    · exact .head hprop hchain

end Pool

end Tenkai
