import Mathlib.Data.List.Nodup

/-! Hand-over of items under back-pressure. A sender offers items in order to
a bounded queue, keeps an item that is refused and offers it again before any
newer one; a consumer takes items from the queue and frees them. -/

namespace Handover

structure State (α : Type*) where
  offered : List α
  held : Option α
  accepted : List α
  queue : List α
  freed : List α

variable {α : Type*}

def empty : State α :=
  ⟨[], none, [], [], []⟩

inductive Step (cap : Nat) (s : State α) : State α → Prop where
  | offerAccept (x : α) (hnew : x ∉ s.offered) (hheld : s.held = none)
      (hroom : s.queue.length < cap) :
      Step cap s { s with
        offered := s.offered ++ [x], accepted := s.accepted ++ [x], queue := s.queue ++ [x] }
  | offerRefuse (x : α) (hnew : x ∉ s.offered) (hheld : s.held = none)
      (hfull : cap ≤ s.queue.length) :
      Step cap s { s with offered := s.offered ++ [x], held := some x }
  | againAccept (x : α) (hheld : s.held = some x) (hroom : s.queue.length < cap) :
      Step cap s { s with held := none, accepted := s.accepted ++ [x], queue := s.queue ++ [x] }
  | againRefuse (x : α) (hheld : s.held = some x) (hfull : cap ≤ s.queue.length) : Step cap s s
  | giveUp : Step cap s { s with held := none }
  | take (x : α) (rest : List α) (hq : s.queue = x :: rest) :
      Step cap s { s with queue := rest, freed := s.freed ++ [x] }

/-- Every accepted item is freed or queued, in the order of acceptance, which
is the order of the first offers; the held item is the last one offered. -/
structure Inv (s : State α) : Prop where
  conserved : s.freed ++ s.queue = s.accepted
  nodup : s.offered.Nodup
  sub : s.accepted.Sublist s.offered
  held : ∀ x, s.held = some x → ∃ xs, s.offered = xs ++ [x] ∧ s.accepted.Sublist xs

theorem inv_empty : Inv (empty : State α) :=
  ⟨rfl, List.nodup_nil, List.Sublist.refl _, fun x h => by simp [empty] at h⟩

theorem nodup_append_singleton {l : List α} {x : α} (h : l.Nodup) (hx : x ∉ l) :
    (l ++ [x]).Nodup := by
  simpa only [List.concat_eq_append] using List.Nodup.concat hx h

theorem Inv.step {cap : Nat} {s t : State α} (h : Inv s) (hs : Step cap s t) : Inv t := by
  cases hs with
  | offerAccept x hnew hheld _ =>
    refine ⟨?_, nodup_append_singleton h.nodup hnew, h.sub.append_right [x], ?_⟩
    · simp only [← h.conserved, List.append_assoc]
    · intro y hy
      simp [hheld] at hy
  | offerRefuse x hnew hheld _ =>
    refine ⟨h.conserved, nodup_append_singleton h.nodup hnew,
      h.sub.trans (List.sublist_append_left _ _), ?_⟩
    intro y hy
    obtain rfl : x = y := Option.some.inj hy
    exact ⟨s.offered, rfl, h.sub⟩
  | againAccept x hheld _ =>
    obtain ⟨xs, hx, hsub⟩ := h.held x hheld
    refine ⟨?_, h.nodup, ?_, fun y hy => by simp at hy⟩
    · simp only [← h.conserved, List.append_assoc]
    · simp only [hx]
      exact hsub.append_right [x]
  | againRefuse => exact h
  | giveUp => exact ⟨h.conserved, h.nodup, h.sub, fun y hy => by simp at hy⟩
  | take x rest hq =>
    refine ⟨?_, h.nodup, h.sub, h.held⟩
    rw [← h.conserved, hq]
    simp only [List.append_assoc, List.singleton_append]

variable {s : State α}

theorem Inv.accepted_nodup (h : Inv s) : s.accepted.Nodup :=
  h.nodup.sublist h.sub

theorem Inv.mem_accepted (h : Inv s) {x : α} : x ∈ s.accepted ↔ x ∈ s.freed ∨ x ∈ s.queue := by
  rw [← h.conserved, List.mem_append]

theorem Inv.exactly_once [DecidableEq α] (h : Inv s) {x : α} (hx : x ∈ s.accepted) :
    (s.queue.count x = 1 ∧ s.freed.count x = 0) ∨ (s.queue.count x = 0 ∧ s.freed.count x = 1) := by
  have hc : s.accepted.count x = 1 := List.count_eq_one_of_mem h.accepted_nodup hx
  rw [← h.conserved, List.count_append] at hc
  omega

theorem Inv.held_not_accepted (h : Inv s) {x : α} (hx : s.held = some x) : x ∉ s.accepted := by
  obtain ⟨xs, he, hsub⟩ := h.held x hx
  have hnd := h.nodup
  rw [he, List.nodup_append] at hnd
  intro hm
  exact hnd.2.2 x (hsub.subset hm) x (by simp) rfl

end Handover
