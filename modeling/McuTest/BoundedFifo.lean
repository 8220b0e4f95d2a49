import Mathlib.Data.List.Basic

/-! Machines that answer each operation, what it means that one does the work
of another, and the bounded first-in first-out list as such a machine. -/

namespace Machine

variable {σ τ ι ο : Type*}

def after (step : σ → ι → ο × σ) (s : σ) : List ι → σ
  | [] => s
  | i :: is => after step (step s i).2 is

def answers (step : σ → ι → ο × σ) (s : σ) : List ι → List ο
  | [] => []
  | i :: is => (step s i).1 :: answers step (step s i).2 is

/-- From states that meet `P`, each step of `conc` is one of `abs` under `view`. -/
def Refines (conc : σ → ι → ο × σ) (abs : τ → ι → ο × τ) (P : σ → Prop) (view : σ → τ) : Prop :=
  ∀ s i, P s → P (conc s i).2 ∧ (conc s i).1 = (abs (view s) i).1 ∧
    view (conc s i).2 = (abs (view s) i).2

variable {conc : σ → ι → ο × σ} {abs : τ → ι → ο × τ} {P : σ → Prop} {view : σ → τ}

theorem after_invariant (hkeep : ∀ s i, P s → P (conc s i).2) {s : σ} (hs : P s)
    (is : List ι) : P (after conc s is) := by
  induction is generalizing s with
  | nil => exact hs
  | cons i is ih => exact ih (hkeep s i hs)

theorem Refines.after_view (h : Refines conc abs P view) {s : σ} (hs : P s) (is : List ι) :
    view (after conc s is) = after abs (view s) is := by
  induction is generalizing s with
  | nil => rfl
  | cons i is ih =>
    obtain ⟨hkeep, _, hview⟩ := h s i hs
    have hnext := ih hkeep
    rw [hview] at hnext
    exact hnext

theorem Refines.answers_eq (h : Refines conc abs P view) {s : σ} (hs : P s) (is : List ι) :
    answers conc s is = answers abs (view s) is := by
  induction is generalizing s with
  | nil => rfl
  | cons i is ih =>
    obtain ⟨hkeep, hanswer, hview⟩ := h s i hs
    have hnext := ih hkeep
    rw [hview] at hnext
    simp only [answers, hanswer, hnext]

end Machine

namespace BoundedFifo

inductive Op (α : Type*) where
  | put (a : α)
  | take
  | peek
  deriving DecidableEq

inductive Answer (α β : Type*) where
  | accepted (ok : Bool)
  | taken (a : Option α)
  | seen (b : β)
  deriving DecidableEq

variable {α β : Type*} {cap : Nat} {look : Option α → β}

/-- At most `cap` elements, oldest first. `look` is what `peek` tells of the
oldest one. -/
def step (cap : Nat) (look : Option α → β) (q : List α) : Op α → Answer α β × List α
  | .put a => if q.length < cap then (.accepted true, q ++ [a]) else (.accepted false, q)
  | .take => (.taken q.head?, q.tail)
  | .peek => (.seen (look q.head?), q)

theorem length_step {q : List α} (h : q.length ≤ cap) (op : Op α) :
    (step cap look q op).2.length ≤ cap := by
  cases op with
  | put a =>
    simp only [step]
    split_ifs with hq
    · rw [List.length_append, List.length_singleton]
      exact hq
    · exact h
  | take =>
    have ht : q.tail.length ≤ q.length := by simp
    exact Nat.le_trans ht h
  | peek => exact h

theorem length_after {q : List α} (h : q.length ≤ cap) (ops : List (Op α)) :
    (Machine.after (step cap look) q ops).length ≤ cap :=
  Machine.after_invariant (P := fun q : List α => q.length ≤ cap)
    (fun _ op hq => length_step hq op) h ops

end BoundedFifo
