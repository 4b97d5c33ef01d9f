import Mathlib.Logic.Basic

/-! Programs with a state and exceptions, and rules to reason about them.

A program that raises keeps what it had done to the state by then, as a method of an
object does. `Triple P m Q E`: from a state with `P`, program `m` either returns, and
then `Q` holds of what it returned and of the state, or raises, and then `E` holds
of the state. -/
namespace PyAppRunner.Base
variable {σ ε α β : Type}

/-- A computation on a state that returns, or raises and leaves the state as it is by then. -/
def Program (σ ε α : Type) : Type := σ → σ × Except ε α

namespace Program

instance : Monad (Program σ ε) where
  pure a := fun s => (s, .ok a)
  bind m f := fun s =>
    match m s with
    | (s, .ok a) => f a s
    | (s, .error e) => (s, .error e)

def raise (e : ε) : Program σ ε α := fun s => (s, .error e)

def get : Program σ ε σ := fun s => (s, .ok s)

def modify (f : σ → σ) : Program σ ε Unit := fun s => (f s, .ok ())

/-- `m`, if the condition holds. -/
def when (c : Bool) (m : Program σ ε Unit) : Program σ ε Unit := if c then m else pure ()

/-- What is raised is raised again, after `f` has been done to the state. -/
def onRaise (m : Program σ ε α) (f : σ → σ) : Program σ ε α := fun s =>
  match m s with
  | (s, .ok a) => (s, .ok a)
  | (s, .error e) => (f s, .error e)

/-- `f` is done whether `m` returns or raises, and is told which. What `f` raises takes its place. -/
def settled (m : Program σ ε α) (f : Bool → Program σ ε Unit) : Program σ ε α := fun s =>
  match m s with
  | (s, r) =>
    match f r.isOk s with
    | (s, .ok ()) => (s, r)
    | (s, .error e) => (s, .error e)

/-- The same for what does not depend on it. -/
def ensuring (m : Program σ ε α) (f : Program σ ε Unit) : Program σ ε α := m.settled fun _ => f

/-- What is raised is handed to `f`. -/
def attempt (m : Program σ ε α) (f : ε → Program σ ε α) : Program σ ε α := fun s =>
  match m s with
  | (s, .ok a) => (s, .ok a)
  | (s, .error e) => f e s

/-- What has returned is followed by the rest. -/
theorem bind_ok {m : Program σ ε α} {f : α → Program σ ε β} {s s' : σ} {a : α} (h : m s = (s', .ok a)) :
    (m >>= f) s = f a s' := by
  have hrun : (m >>= f) s = match m s with
      | (s, .ok a) => f a s
      | (s, .error e) => (s, .error e) := rfl
  rw [hrun, h]

/-- What has raised is not. -/
theorem bind_error {m : Program σ ε α} {f : α → Program σ ε β} {s s' : σ} {e : ε} (h : m s = (s', .error e)) :
    (m >>= f) s = (s', .error e) := by
  have hrun : (m >>= f) s = match m s with
      | (s, .ok a) => f a s
      | (s, .error e) => (s, .error e) := rfl
  rw [hrun, h]

/-- The clean-up has the last word on the state. -/
theorem settled_state {m : Program σ ε α} {f : Bool → Program σ ε Unit} {s : σ} :
    (m.settled f s).1 = (f (m s).2.isOk (m s).1).1 := by
  unfold settled
  rcases m s with ⟨s', r⟩
  dsimp only
  rcases f r.isOk s' with ⟨s'', _ | _⟩ <;> rfl

/-! ### What a program returns -/

/-- A sequence returns just when both parts do. -/
theorem bind_eq_ok {m : Program σ ε α} {f : α → Program σ ε β} {s s' : σ} {b : β} :
    (m >>= f) s = (s', .ok b) ↔ ∃ s₁ a, m s = (s₁, .ok a) ∧ f a s₁ = (s', .ok b) := by
  rcases h : m s with ⟨s₁, e | a⟩
  · rw [bind_error h]
    simp
  · rw [bind_ok h]
    constructor
    · intro hf
      exact ⟨s₁, a, rfl, hf⟩
    · rintro ⟨s₂, a', heq, hf⟩
      cases heq
      exact hf

theorem pure_eq_ok {s s' : σ} {a b : α} : (pure a : Program σ ε α) s = (s', .ok b) ↔ s' = s ∧ b = a := by
  constructor
  · intro h
    cases h
    exact ⟨rfl, rfl⟩
  · rintro ⟨rfl, rfl⟩
    rfl

theorem raise_ne_ok {e : ε} {s s' : σ} {a : α} : (raise e : Program σ ε α) s ≠ (s', .ok a) := by
  intro h
  cases h

theorem pure_bind {a : α} {f : α → Program σ ε β} {s : σ} : ((pure a : Program σ ε α) >>= f) s = f a s := rfl

instance : LawfulMonad (Program σ ε) := by
  refine LawfulMonad.mk' (Program σ ε) ?_ ?_ ?_
  · intro α m
    funext s
    show (match m s with
      | (s, .ok a) => (s, .ok a)
      | (s, .error e) => (s, .error e)) = m s
    rcases m s with ⟨s', _ | _⟩ <;> rfl
  · intro α β a f
    rfl
  · intro α β γ m f g
    funext s
    rcases h : m s with ⟨s', e | a⟩
    · rw [bind_error (bind_error h), bind_error h]
    · rw [bind_ok h]
      rcases hf : f a s' with ⟨s'', e | b⟩
      · rw [bind_error ((bind_ok h).trans hf), bind_error hf]
      · rw [bind_ok ((bind_ok h).trans hf), bind_ok hf]

theorem raise_bind {e : ε} {f : α → Program σ ε β} : (raise e >>= f) = raise e := rfl

theorem get_bind {f : σ → Program σ ε β} {s : σ} : (get >>= f) s = f s s := rfl

theorem modify_bind {g : σ → σ} {f : Unit → Program σ ε β} {s : σ} : (modify g >>= f) s = f () (g s) := rfl

theorem modify_eq_ok {g : σ → σ} {s s' : σ} {u : Unit} : (modify g : Program σ ε Unit) s = (s', .ok u) ↔ s' = g s := by
  constructor
  · intro h
    cases h
    rfl
  · rintro rfl
    rfl

/-- `if c: m`. -/
theorem when_eq_ok {c : Bool} {m : Program σ ε Unit} {s s' : σ} :
    Program.when c m s = (s', .ok ()) ↔ (c = true → m s = (s', .ok ())) ∧ (c = false → s' = s) := by
  cases c with
  | true => simp [Program.when]
  | false => simp [Program.when, pure_eq_ok]

end Program

open Program

/-- From a state with `P`, a return is with `Q` and an exception with `E`. Every program ends. -/
def Triple (P : σ → Prop) (m : Program σ ε α) (Q : α → σ → Prop) (E : σ → Prop) : Prop :=
  ∀ s, P s → (∀ s' a, m s = (s', .ok a) → Q a s') ∧ (∀ s' e, m s = (s', .error e) → E s')

namespace Triple
variable {P P' : σ → Prop} {Q : α → σ → Prop} {E : σ → Prop} {m : Program σ ε α}

theorem pure {a : α} (h : ∀ s, P s → Q a s) : Triple P (Pure.pure a : Program σ ε α) Q E := by
  intro s hs
  refine ⟨?_, ?_⟩
  · intro s' a' heq
    cases heq
    exact h s hs
  · intro s' e heq
    cases heq

theorem raise {e : ε} (h : ∀ s, P s → E s) : Triple P (Program.raise e : Program σ ε α) Q E := by
  intro s hs
  refine ⟨?_, ?_⟩
  · intro s' a' heq
    cases heq
  · intro s' e heq
    cases heq
    exact h s hs

theorem modify {f : σ → σ} {Q : Unit → σ → Prop} (h : ∀ s, P s → Q () (f s)) :
    Triple P (Program.modify f : Program σ ε Unit) Q E := by
  intro s hs
  refine ⟨?_, ?_⟩
  · intro s' a' heq
    cases heq
    exact h s hs
  · intro s' e heq
    cases heq

/-- The second program starts where the first ended. -/
theorem bind {R : β → σ → Prop} {f : α → Program σ ε β} (hm : Triple P m Q E)
    (hf : ∀ a, Triple (Q a) (f a) R E) : Triple P (m >>= f) R E := by
  intro s hs
  obtain ⟨hok, herr⟩ := hm s hs
  have hrun : (m >>= f) s = match m s with
      | (s, .ok a) => f a s
      | (s, .error e) => (s, .error e) := rfl
  rw [hrun]
  rcases heq : m s with ⟨s', e | a⟩
  · refine ⟨?_, ?_⟩
    · intro s'' b hb
      cases hb
    · intro s'' e' he
      cases he
      exact herr s' e heq
  · exact hf a s' (hok s' a heq)

/-- The same from one state, where what the first program did there is known. -/
theorem bind_run {s : σ} {f : α → Program σ ε β} {R : β → σ → Prop} (herr : ∀ s' e, m s = (s', .error e) → E s')
    (hok : ∀ s' a, m s = (s', .ok a) → Triple (fun s => s = s') (f a) R E) :
    Triple (fun s' => s' = s) (m >>= f) R E := by
  refine bind (Q := fun a s' => m s = (s', .ok a)) ?_ fun a => ?_
  · intro s' hs
    subst hs
    exact ⟨fun s'' a heq => heq, herr⟩
  · intro s' heq
    exact hok s' a heq s' rfl

/-- A program that starts by reading the state may be reasoned about state by state. -/
theorem get {f : σ → Program σ ε β} {R : β → σ → Prop}
    (h : ∀ s, P s → Triple (fun s' => s' = s) (f s) R E) : Triple P (Program.get >>= f) R E := by
  intro s hs
  exact h s hs s rfl

theorem when {c : Bool} {m : Program σ ε Unit} {Q : Unit → σ → Prop} (hyes : c = true → Triple P m Q E)
    (hno : c = false → ∀ s, P s → Q () s) : Triple P (Program.when c m) Q E := by
  cases c with
  | true => exact hyes rfl
  | false => exact Triple.pure (hno rfl)

theorem weaken {Q' : α → σ → Prop} {E' : σ → Prop} (h : Triple P m Q E) (hP : ∀ s, P' s → P s)
    (hQ : ∀ a s, Q a s → Q' a s) (hE : ∀ s, E s → E' s) : Triple P' m Q' E' := by
  intro s hs
  obtain ⟨hok, herr⟩ := h s (hP s hs)
  exact ⟨fun s' a heq => hQ a s' (hok s' a heq), fun s' e heq => hE s' (herr s' e heq)⟩

/-- What holds of the state either way. -/
theorem state (h : Triple P m Q E) (hQ : ∀ a s, Q a s → E s) {s : σ} (hs : P s) : E (m s).1 := by
  obtain ⟨hok, herr⟩ := h s hs
  rcases heq : m s with ⟨s', e | a⟩
  · exact herr s' e heq
  · exact hQ a s' (hok s' a heq)

theorem onRaise {f : σ → σ} {E' : σ → Prop} (h : Triple P m Q E) (hE : ∀ s, E s → E' (f s)) :
    Triple P (m.onRaise f) Q E' := by
  intro s hs
  obtain ⟨hok, herr⟩ := h s hs
  unfold Program.onRaise
  rcases heq : m s with ⟨s', e | a⟩
  · refine ⟨?_, ?_⟩
    · intro s'' b hb
      cases hb
    · intro s'' e' he
      cases he
      exact hE s' (herr s' e heq)
  · refine ⟨?_, ?_⟩
    · intro s'' b hb
      cases hb
      exact hok s' a heq
    · intro s'' e' he
      cases he

end Triple

/-- The program keeps a property of the state, whether it returns or raises. -/
def Keeps (I : σ → Prop) (m : Program σ ε α) : Prop := Triple I m (fun _ => I) I

namespace Keeps
variable {I : σ → Prop} {m : Program σ ε α}

theorem pure {a : α} : Keeps I (Pure.pure a : Program σ ε α) := Triple.pure fun _ hs => hs

theorem raise {e : ε} : Keeps I (Program.raise e : Program σ ε α) := Triple.raise fun _ hs => hs

theorem modify {f : σ → σ} (h : ∀ s, I s → I (f s)) : Keeps I (Program.modify f : Program σ ε Unit) :=
  Triple.modify h

theorem bind {f : α → Program σ ε β} (hm : Keeps I m) (hf : ∀ a, Keeps I (f a)) : Keeps I (m >>= f) :=
  Triple.bind hm hf

theorem get {f : σ → Program σ ε β} (h : ∀ s, Keeps I (f s)) : Keeps I (Program.get >>= f) := by
  refine Triple.get fun s hs => ?_
  exact (h s).weaken (fun s' heq => heq ▸ hs) (fun _ _ hs => hs) fun _ hs => hs

theorem when {c : Bool} {m : Program σ ε Unit} (h : Keeps I m) : Keeps I (Program.when c m) :=
  Triple.when (fun _ => h) fun _ _ hs => hs

theorem onRaise {f : σ → σ} (h : Keeps I m) (hf : ∀ s, I s → I (f s)) : Keeps I (m.onRaise f) :=
  Triple.onRaise h hf

/-- What a program leaves alone keeps every property it has. -/
theorem of_frame {γ : Type} {g : σ → γ} {P : γ → Prop} (h : ∀ c, Keeps (fun s => g s = c) m) :
    Keeps (fun s => P (g s)) m := by
  intro s hs
  obtain ⟨hok, herr⟩ := h (g s) s rfl
  refine ⟨?_, ?_⟩
  · intro s' a heq
    exact hok s' a heq ▸ hs
  · intro s' e heq
    exact herr s' e heq ▸ hs

end Keeps

/-- Whatever the program raises, from any state, has the property. -/
def Raises (P : ε → Prop) (m : Program σ ε α) : Prop := ∀ s s' e, m s = (s', .error e) → P e

namespace Raises
variable {P : ε → Prop} {m : Program σ ε α}

theorem pure {a : α} : Raises P (Pure.pure a : Program σ ε α) := by
  intro s s' e h
  cases h

theorem raise {e : ε} (h : P e) : Raises P (Program.raise e : Program σ ε α) := by
  intro s s' e' heq
  cases heq
  exact h

theorem modify {f : σ → σ} : Raises P (Program.modify f : Program σ ε Unit) := by
  intro s s' e h
  cases h

theorem bind {f : α → Program σ ε β} (hm : Raises P m) (hf : ∀ a, Raises P (f a)) : Raises P (m >>= f) := by
  intro s s' e h
  rcases heq : m s with ⟨s₁, e' | a⟩
  · rw [bind_error heq] at h
    cases h
    exact hm s s' e heq
  · rw [bind_ok heq] at h
    exact hf a s₁ s' e h

theorem get {f : σ → Program σ ε β} (h : ∀ s, Raises P (f s)) : Raises P (Program.get >>= f) := by
  intro s s' e heq
  exact h s s s' e heq

theorem when {c : Bool} {m : Program σ ε Unit} (h : Raises P m) : Raises P (Program.when c m) := by
  cases c with
  | true => exact h
  | false => exact Raises.pure

end Raises

/-- Whatever the program does, the state it leaves stands so to the one it found. -/
def Moves (R : σ → σ → Prop) (m : Program σ ε α) : Prop := ∀ s, R s (m s).1

namespace Moves
variable {R : σ → σ → Prop} {m : Program σ ε α}

theorem pure (hrefl : ∀ s, R s s) {a : α} : Moves R (Pure.pure a : Program σ ε α) := fun s => hrefl s

theorem raise (hrefl : ∀ s, R s s) {e : ε} : Moves R (Program.raise e : Program σ ε α) := fun s => hrefl s

theorem get (hrefl : ∀ s, R s s) : Moves R (Program.get : Program σ ε σ) := fun s => hrefl s

theorem modify {f : σ → σ} (h : ∀ s, R s (f s)) : Moves R (Program.modify f : Program σ ε Unit) := h

theorem bind (htrans : ∀ {s s' s''}, R s s' → R s' s'' → R s s'') {f : α → Program σ ε β} (hm : Moves R m)
    (hf : ∀ a, Moves R (f a)) : Moves R (m >>= f) := by
  intro s
  have hmoved := hm s
  rcases heq : m s with ⟨s', e | a⟩
  · rw [heq] at hmoved
    rw [bind_error heq]
    exact hmoved
  · rw [heq] at hmoved
    rw [bind_ok heq]
    exact htrans hmoved (hf a s')

theorem attempt (htrans : ∀ {s s' s''}, R s s' → R s' s'' → R s s'') {f : ε → Program σ ε α} (hm : Moves R m)
    (hf : ∀ e, Moves R (f e)) : Moves R (m.attempt f) := by
  intro s
  have hmoved := hm s
  unfold Program.attempt
  rcases heq : m s with ⟨s', e | a⟩
  · rw [heq] at hmoved
    exact htrans hmoved (hf e s')
  · rw [heq] at hmoved
    exact hmoved

end Moves

end PyAppRunner.Base
