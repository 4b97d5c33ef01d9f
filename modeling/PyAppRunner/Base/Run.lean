import Mathlib.Logic.Relation

/-! Machines driven by a list of inputs.

A concurrent component is read here as a machine whose inputs are the calls and
statements of all its clients, in the order in which they take effect: an
interleaving is a list of inputs. A *rule* is a condition on an input in the
state it arrives in; a run is `Admissible` when every input of it meets the rule.
What one input preserves, a whole run preserves (`invariant`). -/
namespace PyAppRunner.Base

/-- What one input does to the state. -/
structure Machine (σ ι : Type) where
  step : ι → σ → σ

namespace Machine
variable {σ ι : Type} (m : Machine σ ι)

def run (s : σ) : List ι → σ
  | [] => s
  | i :: rest => run (m.step i s) rest

/-- Every input of the run meets the rule in the state it arrives in. -/
def Admissible (rule : ι → σ → Prop) (s : σ) : List ι → Prop
  | [] => True
  | i :: rest => rule i s ∧ Admissible rule (m.step i s) rest

instance decidableAdmissible (rule : ι → σ → Prop) [∀ i s, Decidable (rule i s)] :
    (s : σ) → (inputs : List ι) → Decidable (m.Admissible rule s inputs)
  | _, [] => .isTrue trivial
  | s, i :: rest =>
    have := decidableAdmissible rule (m.step i s) rest
    inferInstanceAs (Decidable (rule i s ∧ m.Admissible rule (m.step i s) rest))

theorem run_append (s : σ) (a b : List ι) : m.run s (a ++ b) = m.run (m.run s a) b := by
  induction a generalizing s with
  | nil => rfl
  | cons i rest ih => exact ih _

variable {m}

/-- A run whose inputs meet the rule in every state is admissible. -/
theorem admissible_of_forall {rule : ι → σ → Prop} {inputs : List ι} (h : ∀ i ∈ inputs, ∀ s, rule i s) (s : σ) :
    m.Admissible rule s inputs := by
  induction inputs generalizing s with
  | nil => trivial
  | cons i rest ih =>
    rw [List.forall_mem_cons] at h
    exact ⟨h.1 s, ih h.2 _⟩

theorem Admissible.imp {rule rule' : ι → σ → Prop} (h : ∀ i s, rule i s → rule' i s) {s : σ} {inputs : List ι}
    (hr : m.Admissible rule s inputs) : m.Admissible rule' s inputs := by
  induction inputs generalizing s with
  | nil => trivial
  | cons i rest ih => exact ⟨h i s hr.1, ih hr.2⟩

/-- A condition on the inputs alone, beside a rule. -/
theorem Admissible.and_forall {rule : ι → σ → Prop} {p : ι → Prop} {s : σ} {inputs : List ι}
    (hr : m.Admissible rule s inputs) (hp : ∀ i ∈ inputs, p i) :
    m.Admissible (fun i s => rule i s ∧ p i) s inputs := by
  induction inputs generalizing s with
  | nil => trivial
  | cons i rest ih =>
    rw [List.forall_mem_cons] at hp
    exact ⟨⟨hr.1, hp.1⟩, ih hr.2 hp.2⟩

/-- What every admitted input preserves holds at the end of every admissible run. -/
theorem invariant {rule : ι → σ → Prop} {I : σ → Prop}
    (hstep : ∀ i s, rule i s → I s → I (m.step i s)) {s : σ} (h : I s) {inputs : List ι}
    (hr : m.Admissible rule s inputs) : I (m.run s inputs) := by
  induction inputs generalizing s with
  | nil => exact h
  | cons i rest ih => exact ih (hstep i s hr.1 h) hr.2

/-- The same for a property that needs no rule. -/
theorem invariant_all {I : σ → Prop} (hstep : ∀ i s, I s → I (m.step i s)) {s : σ} (h : I s)
    (inputs : List ι) : I (m.run s inputs) := by
  induction inputs generalizing s with
  | nil => exact h
  | cons i rest ih => exact ih (hstep i s h)

/-- A machine that gets on with every input until it is done is done after as many as its measure. -/
theorem done_of_measure {I done : σ → Prop} {μ : σ → Nat} (hkeep : ∀ i s, I s → I (m.step i s))
    (hstay : ∀ i s, done s → done (m.step i s))
    (hless : ∀ i s, I s → ¬ done s → done (m.step i s) ∨ μ (m.step i s) < μ s)
    (hzero : ∀ s, I s → μ s = 0 → done s) {s : σ} (h : I s) {inputs : List ι}
    (hlong : μ s ≤ inputs.length) : done (m.run s inputs) := by
  induction inputs generalizing s with
  | nil => exact hzero s h (Nat.le_zero.1 hlong)
  | cons i rest ih =>
    by_cases hd : done s
    · exact invariant_all hstay (hstay i s hd) rest
    · obtain hdone | hlt := hless i s h hd
      · exact invariant_all hstay hdone rest
      · apply ih (hkeep i s h)
        rw [List.length_cons] at hlong
        omega

/-- A measure that every input of one kind lowers, and no input raises. -/
theorem countdown {I : σ → Prop} {μ : σ → Nat} {counts : ι → Bool}
    (hstep : ∀ i s, I s → I (m.step i s) ∧ μ (m.step i s) ≤ μ s - if counts i then 1 else 0) {s : σ} (h : I s)
    (inputs : List ι) : μ (m.run s inputs) ≤ μ s - inputs.countP counts := by
  induction inputs generalizing s with
  | nil => exact Nat.le_refl _
  | cons i rest ih =>
    obtain ⟨hnext, hless⟩ := hstep i s h
    have hrest := ih hnext
    rw [List.countP_cons]
    show μ (m.run (m.step i s) rest) ≤ _
    omega

end Machine

end PyAppRunner.Base
