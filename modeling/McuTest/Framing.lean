import Mathlib.Data.List.Basic

/-! Self-delimiting frames: the length of a frame can be read off its first
elements, so a stream is cut into frames in at most one way. -/

structure Framing (α : Type*) where
  size : List α → Option Nat
  size_append : ∀ xs ys n, size xs = some n → size (xs ++ ys) = some n
  size_pos : ∀ xs n, size xs = some n → 0 < n

namespace Framing

variable {α : Type*} (F : Framing α)

def IsFrame (xs : List α) : Prop :=
  F.size xs = some xs.length

instance (xs : List α) : Decidable (F.IsFrame xs) :=
  inferInstanceAs (Decidable (_ = _))

variable {F} {xs ys : List α}

theorem IsFrame.ne_nil (h : F.IsFrame xs) : xs ≠ [] := by
  rintro rfl
  exact Nat.lt_irrefl _ (F.size_pos [] 0 h)

theorem IsFrame.append_inj {us vs : List α} (hx : F.IsFrame xs) (hy : F.IsFrame ys)
    (h : xs ++ us = ys ++ vs) : xs = ys ∧ us = vs := by
  have hxs := F.size_append xs us _ hx
  have hys := F.size_append ys vs _ hy
  rw [h, hys] at hxs
  exact List.append_inj h (Option.some.inj hxs).symm

theorem flatten_inj {fs gs : List (List α)} (hf : ∀ x ∈ fs, F.IsFrame x)
    (hg : ∀ y ∈ gs, F.IsFrame y) (h : fs.flatten = gs.flatten) : fs = gs := by
  induction fs generalizing gs with
  | nil =>
    cases gs with
    | nil => rfl
    | cons y gs =>
      have hy := (hg y (by simp)).ne_nil
      simp [hy] at h
  | cons x fs ih =>
    have hx := hf x (by simp)
    cases gs with
    | nil => simp [hx.ne_nil] at h
    | cons y gs =>
      have hy := hg y (by simp)
      obtain ⟨rfl, hrest⟩ := hx.append_inj hy h
      rw [ih (fun z hz => hf z (List.mem_cons_of_mem x hz))
        (fun z hz => hg z (List.mem_cons_of_mem x hz)) hrest]

/-- A cutting of a stream of frames is the one into frames exactly when each
piece is a frame. -/
theorem eq_frames_iff {pieces fs : List (List α)} (hf : ∀ x ∈ fs, F.IsFrame x)
    (h : pieces.flatten = fs.flatten) : pieces = fs ↔ ∀ x ∈ pieces, F.IsFrame x :=
  ⟨fun he => he ▸ hf, fun hp => flatten_inj hp hf h⟩

end Framing
