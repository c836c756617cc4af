import Tenkai.Pool

/-!
# Monitors

A monitor sees the operations a program asks and the replies it gets, keeps a stage of its own, and
says at every stage which operations are in order. A relation between stages and states that every
operation in order keeps holds wherever the program is, whether it runs alone (`Obeys.play`) or
among others (`Obeys.sat`).
-/

namespace Tenkai

/-- Which operations are in order at a stage, and the stage after each reply. -/
structure Monitor (I : Interface) where
  Stage : Type
  legal : Stage → I.Op → Prop
  after : Stage → (op : I.Op) → I.Reply op → Stage

section Obeys

variable {I : Interface} {α β ε σ : Type} {M : Monitor I}

/-- From stage `φ` every operation of the program is in order, and if it returns then
    `Q` holds of its result and the last stage. -/
def Obeys (M : Monitor I) : Prog I α → (α → M.Stage → Prop) → M.Stage → Prop
  | .done a, Q, φ => Q a φ
  | .ask op k, Q, φ => M.legal φ op ∧ ∀ r, Obeys M (k r) Q (M.after φ op r)

theorem Obeys.mono {p : Prog I α} {Q Q' : α → M.Stage → Prop} {φ : M.Stage}
    (h : Obeys M p Q φ) (hQ : ∀ a ψ, Q a ψ → Q' a ψ) : Obeys M p Q' φ := by
  induction p generalizing φ with
  | done a => exact hQ a φ h
  | ask op k ih => exact ⟨h.1, fun r => ih r (h.2 r)⟩

theorem Obeys.bind {p : Prog I α} {f : α → Prog I β} {P : α → M.Stage → Prop}
    {Q : β → M.Stage → Prop} {φ : M.Stage} (h : Obeys M p P φ)
    (hf : ∀ a ψ, P a ψ → Obeys M (f a) Q ψ) : Obeys M (p >>= f) Q φ := by
  induction p generalizing φ with
  | done a => exact hf a φ h
  | ask op k ih => exact ⟨h.1, fun r => ih r (h.2 r)⟩

theorem Obeys.of_bind {p : Prog I α} {f : α → Prog I β} {Q : β → M.Stage → Prop} {φ : M.Stage}
    (h : Obeys M (p >>= f) Q φ) : Obeys M p (fun a ψ => Obeys M (f a) Q ψ) φ := by
  induction p generalizing φ with
  | done a => exact h
  | ask op k ih => exact ⟨h.1, fun r => ih r (h.2 r)⟩

/-- What every operation does to the stage, the program does. -/
theorem Obeys.framed {R : M.Stage → M.Stage → Prop} (hrefl : ∀ φ, R φ φ)
    (htrans : ∀ φ ψ χ, R φ ψ → R ψ χ → R φ χ) (haft : ∀ φ op r, R φ (M.after φ op r))
    {p : Prog I α} {Q : α → M.Stage → Prop} {φ : M.Stage} (h : Obeys M p Q φ) :
    Obeys M p (fun a ψ => Q a ψ ∧ R φ ψ) φ := by
  induction p generalizing φ with
  | done a => exact ⟨h, hrefl φ⟩
  | ask op k ih =>
    refine ⟨h.1, fun r => (ih r (h.2 r)).mono ?_⟩
    rintro a ψ ⟨hQ, hR⟩
    exact ⟨hQ, htrans _ _ _ (haft φ op r) hR⟩

/-- `Obeys` for a program that may fail: `Q` holds of what it returns, `F` of the error
    it fails with. -/
def Heeds (M : Monitor I) (x : ExceptT ε (Prog I) α) (Q : α → M.Stage → Prop)
    (F : ε → M.Stage → Prop) (φ : M.Stage) : Prop :=
  Obeys M x.run (fun r ψ => match r with | .ok a => Q a ψ | .error e => F e ψ) φ

variable {Q : β → M.Stage → Prop} {R : α → M.Stage → Prop} {F G : ε → M.Stage → Prop}
  {φ : M.Stage}

theorem Heeds.pure {a : α} (h : R a φ) : Heeds M (pure a : ExceptT ε (Prog I) α) R F φ := h

theorem Heeds.throw {e : ε} (h : F e φ) : Heeds M (throw e : ExceptT ε (Prog I) α) R F φ := h

variable {x : ExceptT ε (Prog I) α}

theorem Heeds.mono {R' : α → M.Stage → Prop} (h : Heeds M x R G φ) (hR : ∀ a ψ, R a ψ → R' a ψ)
    (hG : ∀ e ψ, G e ψ → F e ψ) : Heeds M x R' F φ := by
  refine Obeys.mono h ?_
  intro r ψ hr
  cases r with
  | ok a => exact hR a ψ hr
  | error e => exact hG e ψ hr

theorem Heeds.bind {f : α → ExceptT ε (Prog I) β} (h : Heeds M x R F φ)
    (hf : ∀ a ψ, R a ψ → Heeds M (f a) Q F ψ) : Heeds M (x >>= f) Q F φ := by
  refine Obeys.bind h ?_
  intro r ψ hr
  cases r with
  | ok a => exact hf a ψ hr
  | error e => exact hr

theorem Heeds.bind_iff {f : α → ExceptT ε (Prog I) β} :
    Heeds M (x >>= f) Q F φ ↔ Heeds M x (fun a ψ => Heeds M (f a) Q F ψ) F φ := by
  refine ⟨fun h => (Obeys.of_bind h).mono ?_, fun h => .bind h fun _ _ h => h⟩
  rintro (e | a) ψ hr
  · exact hr
  · exact hr

/-- Sequencing after code whose errors are weakened on the way. -/
theorem Heeds.then {f : α → ExceptT ε (Prog I) β} (h : Heeds M x R G φ)
    (herr : ∀ e ψ, G e ψ → F e ψ) (hf : ∀ a ψ, R a ψ → Heeds M (f a) Q F ψ) :
    Heeds M (x >>= f) Q F φ :=
  (h.mono (fun _ _ h => h) herr).bind hf

/-- The result of a program as a value: its error goes on with what follows. -/
theorem Heeds.caught (h : Heeds M x R G φ) :
    Heeds M (ExceptT.lift x.run : ExceptT ε (Prog I) (Except ε α))
      (fun r ψ => match r with | .ok a => R a ψ | .error e => G e ψ) F φ := by
  refine Obeys.bind h ?_
  intro r ψ hr
  exact hr

theorem Heeds.ite {c : Prop} [Decidable c] {y : ExceptT ε (Prog I) α} (hx : c → Heeds M x R F φ)
    (hy : ¬ c → Heeds M y R F φ) : Heeds M (if c then x else y) R F φ := by
  split
  next hc => exact hx hc
  next hc => exact hy hc

theorem Heeds.bailIf {c : Prop} [Decidable c] {error : ε} (h : F error φ) :
    Heeds M (Prog.bailIf c error : ExceptT ε (Prog I) Unit) (fun _ ψ => φ = ψ ∧ ¬ c) F φ := by
  unfold Prog.bailIf
  split
  · exact .throw h
  next hc => exact .pure ⟨rfl, hc⟩

theorem Heeds.framed {E : M.Stage → M.Stage → Prop} (hrefl : ∀ φ, E φ φ)
    (htrans : ∀ φ ψ χ, E φ ψ → E ψ χ → E φ χ) (haft : ∀ φ op r, E φ (M.after φ op r))
    (h : Heeds M x R F φ) : Heeds M x (fun a ψ => R a ψ ∧ E φ ψ) (fun e ψ => F e ψ ∧ E φ ψ) φ := by
  refine Obeys.mono (.framed hrefl htrans haft h) ?_
  rintro (e | a) ψ hψ
  · exact hψ
  · exact hψ

end Obeys

/-! ### What a monitor says about the shared state -/

section Shared

variable {I : Interface} {α σ : Type} {M : Monitor I} {exec : Exec I σ}
  {allowed : (op : I.Op) → I.Choice op → σ → Prop} {inv : M.Stage → σ → Prop}

/-- Every operation played is one that `allowed` admits. -/
def Prog.Admits (exec : Exec I σ) (allowed : (op : I.Op) → I.Choice op → σ → Prop) :
    Prog I α → List (Oracle I) → σ → Prop
  | .done _, _, _ => True
  | .ask _ _, [], _ => True
  | .ask op k, o :: os, s =>
    allowed op (o op) s ∧
      (k (exec op (o op) s).1).Admits exec allowed os (exec op (o op) s).2

instance Prog.decidableAdmits (exec : Exec I σ)
    (allowed : (op : I.Op) → I.Choice op → σ → Prop) [∀ op c s, Decidable (allowed op c s)] :
    (p : Prog I α) → (os : List (Oracle I)) → (s : σ) → Decidable (p.Admits exec allowed os s)
  | .done _, _, _ => isTrue trivial
  | .ask _ _, [], _ => isTrue trivial
  | .ask op k, o :: os, s =>
    haveI := decidableAdmits exec allowed (k (exec op (o op) s).1) os (exec op (o op) s).2
    inferInstanceAs (Decidable (allowed op (o op) s ∧ _))

theorem Prog.admits_of_forall (h : ∀ op c s, allowed op c s) (p : Prog I α)
    (os : List (Oracle I)) (s : σ) : p.Admits exec allowed os s := by
  induction p generalizing os s with
  | done a => exact trivial
  | ask op k ih =>
    cases os with
    | nil => exact trivial
    | cons o os => exact ⟨h _ _ _, ih _ os _⟩

/-- An operation in order takes a stage and a state it fits to a stage and a state it
    fits. -/
def Monitor.Keeps (M : Monitor I) (exec : Exec I σ)
    (allowed : (op : I.Op) → I.Choice op → σ → Prop) (inv : M.Stage → σ → Prop) : Prop :=
  ∀ φ s op c, inv φ s → M.legal φ op → allowed op c s →
    inv (M.after φ op (exec op c s).1) (exec op c s).2

/-- Wherever a program that obeys is crashed, some stage fits the state; where it
    returned, one that its result allows. -/
theorem Obeys.play (hkeeps : M.Keeps exec allowed inv) {p : Prog I α}
    {Q : α → M.Stage → Prop} {φ : M.Stage} {s : σ} (h : Obeys M p Q φ) (hs : inv φ s)
    {os : List (Oracle I)} (hos : p.Admits exec allowed os s) :
    ∃ ψ, inv ψ (p.play exec os s) ∧ ∀ a, p.result exec os s = some a → Q a ψ := by
  induction p generalizing φ s os with
  | done a =>
    refine ⟨φ, hs, ?_⟩
    rintro b hb
    cases hb
    exact h
  | ask op k ih =>
    cases os with
    | nil => exact ⟨φ, hs, nofun⟩
    | cons o os => exact ih _ (h.2 _) (hkeeps φ s op (o op) hs h.1 hos.1) hos.2

/-- A program that obeys meets a specification among other programs, if what these do
    leaves every stage fitting. -/
theorem Obeys.sat {C : Conduct I σ} {i : Nat} (hrely : ∀ φ s t, C.rely i s t → inv φ s → inv φ t)
    (hkeeps : M.Keeps (C.exec i) C.allowed inv)
    (hprop : ∀ φ s op c, inv φ s → C.inv s → M.legal φ op → C.allowed op c s →
      C.Proper i s (C.exec i op c s).2) {p : Prog I α} {Q : α → M.Stage → Prop} {φ : M.Stage}
    {s : σ} (h : Obeys M p Q φ) (hs : inv φ s) : C.Sat i p (fun a t => ∃ ψ, inv ψ t ∧ Q a ψ) s := by
  induction p generalizing φ s with
  | done a => exact ⟨φ, hs, h⟩
  | ask op k ih =>
    intro t ht hinv c hc
    have hfit := hrely φ s t ht hs
    exact ⟨hprop φ t op c hfit hinv h.1 hc, ih _ (h.2 _) (hkeeps φ t op c hfit h.1 hc)⟩

end Shared

end Tenkai
