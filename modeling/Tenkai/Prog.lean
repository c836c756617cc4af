import Mathlib.Tactic.TypeStar

/-!
# Programs as trees of atomic operations

The nodes of the tree are the operations a program asks of its surroundings. What an operation
answers and does to the shared state is decided by a handler and by a choice it is given. A tree is
played with a list of choices and stops where the list ends: a crash between two operations
(`Prog.play`). `Along` says what holds after every operation of a program that runs alone.
-/

namespace Tenkai

/-- The atomic operations of a kind of program: what each may be answered with, and
    the choices its handler has. -/
structure Interface where
  Op : Type
  Choice : Op → Type
  Reply : Op → Type

/-- A program: a result, or an operation and what follows each of its replies. -/
inductive Prog (I : Interface) (α : Type) : Type
  | done (a : α)
  | ask (op : I.Op) (k : I.Reply op → Prog I α)

/-- How the surroundings answer every operation, were it asked now. -/
abbrev Oracle (I : Interface) : Type := (op : I.Op) → I.Choice op

/-- What an operation does to the shared state, once its choice is made. -/
abbrev Exec (I : Interface) (σ : Type) : Type :=
  (op : I.Op) → I.Choice op → σ → I.Reply op × σ

/-- How an operation of a store may go wrong: before it takes effect, or after. -/
inductive Fault
  | none
  | refused
  | ambiguous
  deriving DecidableEq

/-- A store operation under a fault: `effect` is the reply and state it has without one. -/
def Fault.run {ε α σ : Type} (fault : Fault) (error : ε) (s : σ) (effect : Except ε α × σ) :
    Except ε α × σ :=
  match fault with
  | .none => effect
  | .refused => (.error error, s)
  | .ambiguous => (.error error, effect.2)

namespace Prog

variable {I : Interface} {α β γ ε σ : Type}

protected def bind : Prog I α → (α → Prog I β) → Prog I β
  | .done a, f => f a
  | .ask op k, f => .ask op fun r => (k r).bind f

instance : Monad (Prog I) where
  pure := .done
  bind := .bind

def perform (op : I.Op) : Prog I (I.Reply op) := .ask op .done

/-- Give up with an error when the condition holds. -/
def bailIf {ε : Type} (c : Prop) [Decidable c] (error : ε) : ExceptT ε (Prog I) Unit :=
  if c then throw error else pure ()

/-! ### Playing a program, and crashing it -/

/-- The state left behind when the operations are answered by `oracles` in turn. The
    program stops where the list does: a crash between two operations. -/
def play (exec : Exec I σ) : Prog I α → List (Oracle I) → σ → σ
  | .done _, _, s => s
  | .ask _ _, [], s => s
  | .ask op k, o :: os, s =>
    let out := exec op (o op) s
    (k out.1).play exec os out.2

/-- The result, when `oracles` answers enough operations to reach it. -/
def result (exec : Exec I σ) : Prog I α → List (Oracle I) → σ → Option α
  | .done a, _, _ => some a
  | .ask _ _, [], _ => none
  | .ask op k, o :: os, s =>
    let out := exec op (o op) s
    (k out.1).result exec os out.2

/-- Some answers take the program from a state to a result and a state. -/
inductive Reaches (exec : Exec I σ) : Prog I α → σ → α → σ → Prop
  | done (a : α) (s : σ) : Reaches exec (.done a) s a s
  | ask {op : I.Op} {k : I.Reply op → Prog I α} {s t : σ} {a : α} (o : Oracle I)
      (h : Reaches exec (k (exec op (o op) s).1) (exec op (o op) s).2 a t) :
      Reaches exec (.ask op k) s a t

theorem Reaches.bind {exec : Exec I σ} {p : Prog I α} {f : α → Prog I β} {s t u : σ} {a : α} {b : β}
    (h : p.Reaches exec s a t) (hf : (f a).Reaches exec t b u) : (p >>= f).Reaches exec s b u := by
  induction h with
  | done a s => exact hf
  | ask o _ ih => exact .ask o (ih hf)

/-- The answers by which a program reaches a result are a way to play it. -/
theorem Reaches.oracles {exec : Exec I σ} {p : Prog I α} {s t : σ} {a : α}
    (h : p.Reaches exec s a t) : ∃ os, p.result exec os s = some a ∧ p.play exec os s = t := by
  induction h with
  | done a s => exact ⟨[], rfl, rfl⟩
  | ask o _ ih =>
    obtain ⟨os, hres, hplay⟩ := ih
    exact ⟨o :: os, hres, hplay⟩

/-- Some replies, all of them ones that `admits` allows, lead the program to a result. -/
inductive MayReturn (admits : (op : I.Op) → I.Reply op → Prop) : Prog I α → α → Prop
  | done (a : α) : MayReturn admits (.done a) a
  | ask {op : I.Op} {k : I.Reply op → Prog I α} {a : α} (r : I.Reply op) (hr : admits op r)
      (h : MayReturn admits (k r) a) : MayReturn admits (.ask op k) a

theorem MayReturn.of_bind {admits : (op : I.Op) → I.Reply op → Prop} {p : Prog I α}
    {f : α → Prog I β} {b : β} (h : (p >>= f).MayReturn admits b) :
    ∃ a, p.MayReturn admits a ∧ (f a).MayReturn admits b := by
  induction p with
  | done a => exact ⟨a, .done a, h⟩
  | ask op k ih =>
    cases h with
    | ask r hr h =>
      obtain ⟨a, hfst, hrest⟩ := ih r h
      exact ⟨a, .ask r hr hfst, hrest⟩

/-- A sequence that returns a value got one from its first part. -/
theorem MayReturn.of_bind_run {admits : (op : I.Op) → I.Reply op → Prop} {x : ExceptT ε (Prog I) α}
    {f : α → ExceptT ε (Prog I) β} {b : β} (h : (x >>= f).run.MayReturn admits (.ok b)) :
    ∃ a, x.run.MayReturn admits (.ok a) ∧ (f a).run.MayReturn admits (.ok b) := by
  obtain ⟨r, hfst, hrest⟩ := MayReturn.of_bind h
  cases r with
  | ok a => exact ⟨a, hfst, hrest⟩
  | error e => cases hrest

end Prog

/-! ### Programs that run alone -/

section Along

variable {I : Interface} {α β ε σ : Type} {exec : Exec I σ} {J : σ → Prop}

/-- From `s`, however the operations are answered, `J` holds after every operation of
    the program, and if it returns then `Q` holds of its result. -/
def Along (exec : Exec I σ) (J : σ → Prop) : Prog I α → (α → σ → Prop) → σ → Prop
  | .done a, Q, s => Q a s
  | .ask op k, Q, s => ∀ c,
      J (exec op c s).2 ∧ Along exec J (k (exec op c s).1) Q (exec op c s).2

variable {Q : α → σ → Prop} {p : Prog I α} {s : σ} {x : ExceptT ε (Prog I) α}

theorem Along.mono {Q' : α → σ → Prop} (h : Along exec J p Q s) (hQ : ∀ a t, Q a t → Q' a t) :
    Along exec J p Q' s := by
  induction p generalizing s with
  | done a => exact hQ a s h
  | ask op k ih => exact fun c => ⟨(h c).1, ih _ (h c).2⟩

/-- Sequencing: a specification of the first program carries into the second. -/
theorem Along.bind {f : α → Prog I β} {P : α → σ → Prop} {Q : β → σ → Prop} (h : Along exec J p P s)
    (hf : ∀ a t, P a t → Along exec J (f a) Q t) : Along exec J (p >>= f) Q s := by
  induction p generalizing s with
  | done a => exact hf a s h
  | ask op k ih => exact fun c => ⟨(h c).1, ih _ (h c).2⟩

/-- Sequencing of programs that may fail: an error skips what follows. -/
theorem Along.bind_run {p : ExceptT ε (Prog I) α} {f : α → ExceptT ε (Prog I) β}
    {P : Except ε α → σ → Prop} {Q : Except ε β → σ → Prop} (h : Along exec J p.run P s)
    (hok : ∀ a t, P (.ok a) t → Along exec J (f a).run Q t)
    (herr : ∀ e t, P (.error e) t → Q (.error e) t) : Along exec J (p >>= f).run Q s := by
  apply Along.bind h
  intro r t hr
  cases r with
  | ok a => exact hok a t hr
  | error e => exact herr e t hr

/-- From `s`, `J` holds after every operation of a program that may fail, and if it
    returns a value then `Q` holds of it. -/
def Leads (exec : Exec I σ) (J : σ → Prop) (x : ExceptT ε (Prog I) α) (Q : α → σ → Prop)
    (s : σ) : Prop :=
  Along exec J x.run (fun r t => ∀ a, r = .ok a → Q a t) s

section Leads

variable {P : Except ε α → σ → Prop} {Q : β → σ → Prop} {R : α → σ → Prop} {s : σ}

theorem Leads.pure {a : α} (h : R a s) : Leads exec J (pure a : ExceptT ε (Prog I) α) R s := by
  intro b hb
  cases hb
  exact h

theorem Leads.throw (e : ε) : Leads exec J (throw e : ExceptT ε (Prog I) α) R s := by
  intro a ha
  cases ha

theorem Leads.of_along (hx : Along exec J x.run P s) (hP : ∀ a t, P (.ok a) t → R a t) :
    Leads exec J x R s := by
  refine hx.mono ?_
  rintro r t hr a rfl
  exact hP a t hr

theorem Leads.mono {R' : α → σ → Prop} (hx : Leads exec J x R s) (h : ∀ a t, R a t → R' a t) :
    Leads exec J x R' s :=
  Along.mono hx fun _ t hr a ha => h a t (hr a ha)

theorem Leads.bind {f : α → ExceptT ε (Prog I) β} (hx : Leads exec J x R s)
    (hf : ∀ a t, R a t → Leads exec J (f a) Q t) : Leads exec J (x >>= f) Q s := by
  refine .bind_run hx ?_ ?_
  · intro a t ha
    exact hf a t (ha a rfl)
  · intro e t _ b hb
    cases hb

theorem Leads.bailIf {c : Prop} [Decidable c] (error : ε) :
    Leads exec J (Prog.bailIf c error : ExceptT ε (Prog I) Unit) (fun _ t => t = s ∧ ¬ c) s := by
  unfold Prog.bailIf
  split
  · exact .throw error
  next hc => exact .pure ⟨rfl, hc⟩

theorem Leads.caught (hx : Along exec J x.run P s) :
    Leads exec J (ExceptT.lift x.run : ExceptT ε (Prog I) (Except ε α)) P s := by
  refine Along.bind hx ?_
  intro r t hr r' hr'
  cases hr'
  exact hr

end Leads

/-- Of every program nothing can be said. -/
theorem Along.weaken {J' : σ → Prop} (h : Along exec J p Q s) (hJ : ∀ t, J t → J' t) :
    Along exec J' p Q s := by
  induction p generalizing s with
  | done a => exact h
  | ask op k ih => exact fun c => ⟨hJ _ (h c).1, ih _ (h c).2⟩

theorem Leads.weaken {J' : σ → Prop} {R : α → σ → Prop} (h : Leads exec J x R s)
    (hJ : ∀ t, J t → J' t) : Leads exec J' x R s :=
  Along.weaken h hJ

/-- What holds along a program holds wherever it crashes. -/
theorem Along.play (h : Along exec J p Q s) (hs : J s) (os : List (Oracle I)) :
    J (p.play exec os s) := by
  induction p generalizing s os with
  | done a => exact hs
  | ask op k ih =>
    cases os with
    | nil => exact hs
    | cons o os => exact ih _ (h (o op)).2 (h (o op)).1 os

/-- What a program says of its result holds where it returns. -/
theorem Along.returned (h : Along exec J p Q s) {os : List (Oracle I)} {a : α}
    (hres : p.result exec os s = some a) : Q a (p.play exec os s) := by
  induction p generalizing s os with
  | done b =>
    cases hres
    exact h
  | ask op k ih =>
    cases os with
    | nil => cases hres
    | cons o os => exact ih _ (h (o op)).2 hres

end Along

end Tenkai
