import Mathlib.Data.List.Induction
import Mathlib.Data.List.Nodup

/-! Lifetimes of resources along a log of actions. An action may use a
resource and may release one. -/

namespace Lifetime

section Log

variable {α : Type*}

/-- `P` holds of every action of the log and of what precedes it. -/
def Throughout (P : List α → α → Prop) (log : List α) : Prop :=
  ∀ pre a post, log = pre ++ a :: post → P pre a

variable {P : List α → α → Prop} {log : List α}

theorem throughout_nil : Throughout P [] :=
  fun pre a post h => by simp at h

theorem throughout_append {as : List α} :
    Throughout P (log ++ as) ↔
      Throughout P log ∧ Throughout (fun pre a => P (log ++ pre) a) as := by
  constructor
  · intro h
    refine ⟨fun pre a post he => ?_, fun pre a post he => ?_⟩
    · exact h pre a (post ++ as) (by simp [he])
    · exact h (log ++ pre) a post (by simp [he])
  · rintro ⟨hlog, has⟩ pre a post he
    rcases List.append_eq_append_iff.mp he with ⟨mid, rfl, hmid⟩ | ⟨mid, hmid, hpost⟩
    · exact has mid a post hmid
    · cases mid with
      | nil =>
        have hfirst := has [] a post hpost.symm
        simpa [hmid] using hfirst
      | cons b mid =>
        obtain ⟨rfl, _⟩ := List.cons.inj hpost
        exact hlog pre a mid hmid

theorem throughout_append_singleton {a : α} :
    Throughout P (log ++ [a]) ↔ Throughout P log ∧ P log a := by
  rw [throughout_append]
  refine and_congr_right fun _ => ⟨fun h => ?_, fun h pre b post he => ?_⟩
  · simpa using h [] a [] rfl
  · obtain ⟨rfl, hb⟩ := List.append_eq_singleton_iff.mp he.symm |>.resolve_right (by simp)
    obtain ⟨rfl, _⟩ := List.cons.inj hb
    simpa using h

theorem Throughout.append {as : List α} (h : Throughout P log) (has : ∀ a ∈ as, ∀ pre, P pre a) :
    Throughout P (log ++ as) := by
  refine throughout_append.mpr ⟨h, fun pre a post he => ?_⟩
  exact has a (by simp [he]) _

end Log

variable {α ρ : Type*} (uses frees : α → Option ρ)

def freed (log : List α) : List ρ :=
  log.filterMap frees

def UsesHeld (pre : List α) (a : α) : Prop :=
  ∀ p, uses a = some p → p ∉ freed frees pre

/-- No action uses a released resource and none is released twice. -/
def Disciplined (log : List α) : Prop :=
  Throughout (UsesHeld uses frees) log ∧ (freed frees log).Nodup

variable {uses frees}

@[simp] theorem freed_nil : freed frees [] = [] := rfl

@[simp] theorem freed_append (l l' : List α) :
    freed frees (l ++ l') = freed frees l ++ freed frees l' := by
  simp [freed]

theorem freed_singleton_of_some {a : α} {p : ρ} (h : frees a = some p) :
    freed frees [a] = [p] := by
  simp [freed, h]

theorem freed_singleton_of_none {a : α} (h : frees a = none) : freed frees [a] = [] := by
  simp [freed, h]

theorem disciplined_nil : Disciplined uses frees [] :=
  ⟨throughout_nil, List.nodup_nil⟩

theorem disciplined_append_singleton {log : List α} {a : α} :
    Disciplined uses frees (log ++ [a]) ↔
      Disciplined uses frees log ∧ (∀ p, uses a = some p → p ∉ freed frees log) ∧
        ∀ p, frees a = some p → p ∉ freed frees log := by
  have hfrees : (freed frees (log ++ [a])).Nodup ↔
      (freed frees log).Nodup ∧ ∀ p, frees a = some p → p ∉ freed frees log := by
    rw [freed_append]
    cases h : frees a with
    | none => simp [freed_singleton_of_none h]
    | some p =>
      rw [freed_singleton_of_some h, List.nodup_append]
      simp only [List.nodup_cons, List.not_mem_nil, not_false_eq_true, List.nodup_nil, and_self,
        true_and, List.mem_singleton, forall_eq, Option.some.injEq, forall_eq']
      exact and_congr_right fun _ => ⟨fun h hm => h p hm rfl, fun h q hq he => h (he ▸ hq)⟩
  rw [Disciplined, hfrees, throughout_append_singleton]
  exact and_and_and_comm

theorem Disciplined.of_append {l l' : List α} (h : Disciplined uses frees (l ++ l')) :
    Disciplined uses frees l := by
  induction l' using List.reverseRecOn with
  | nil => simpa using h
  | append_singleton l' a ih =>
    rw [← List.append_assoc] at h
    exact ih (disciplined_append_singleton.mp h).1

theorem disciplined_append_of_held {l l' : List α} (h : Disciplined uses frees l)
    (hfree : ∀ a ∈ l', frees a = none)
    (huse : ∀ a ∈ l', ∀ p, uses a = some p → p ∉ freed frees l) :
    Disciplined uses frees (l ++ l') ∧ freed frees (l ++ l') = freed frees l := by
  induction l' using List.reverseRecOn with
  | nil => simpa using h
  | append_singleton l' a ih =>
    obtain ⟨hd, hf⟩ := ih (fun b hb => hfree b (by simp [hb])) (fun b hb => huse b (by simp [hb]))
    have ha := hfree a (by simp)
    rw [← List.append_assoc]
    refine ⟨disciplined_append_singleton.mpr ⟨hd, ?_, by simp [ha]⟩, ?_⟩
    · rw [hf]
      exact huse a (by simp)
    · rw [freed_append, hf, freed_singleton_of_none ha, List.append_nil]

end Lifetime
