import Mathlib.Data.List.Nodup
import Mathlib.Data.List.Range

/-! Positions of a circular array of `n` slots between the last index read
and the last index written. One slot is always left free. -/

namespace Cyclic

def next (n i : Nat) : Nat :=
  (i + 1) % n

def count (n o i : Nat) : Nat :=
  (i + n - o) % n

def positions (n o i : Nat) : List Nat :=
  (List.range (count n o i)).map fun k => (o + 1 + k) % n

variable {n o i : Nat}

theorem next_lt (hn : 0 < n) : next n i < n :=
  Nat.mod_lt _ hn

theorem next_eq_ite (hi : i < n) : next n i = if i + 1 = n then 0 else i + 1 := by
  unfold next
  split_ifs with h
  · rw [h, Nat.mod_self]
  · exact Nat.mod_eq_of_lt (by omega)

theorem count_eq_ite (ho : o < n) (hi : i < n) :
    count n o i = if o ≤ i then i - o else i + n - o := by
  unfold count
  split_ifs with h
  · rw [show i + n - o = (i - o) + n by omega, Nat.add_mod_right]
    exact Nat.mod_eq_of_lt (by omega)
  · exact Nat.mod_eq_of_lt (by omega)

theorem count_lt (hn : 0 < n) : count n o i < n :=
  Nat.mod_lt _ hn

theorem count_eq_zero_iff (ho : o < n) (hi : i < n) : count n o i = 0 ↔ i = o := by
  rw [count_eq_ite ho hi]
  split_ifs <;> omega

theorem next_eq_iff_count (ho : o < n) (hi : i < n) : next n i = o ↔ count n o i + 1 = n := by
  rw [next_eq_ite hi, count_eq_ite ho hi]
  split_ifs <;> omega

theorem count_push (ho : o < n) (hi : i < n) (h : next n i ≠ o) :
    count n o (next n i) = count n o i + 1 := by
  have hne : next n i ≠ o := h
  rw [next_eq_ite hi] at hne
  rw [count_eq_ite ho (next_lt (by omega)), count_eq_ite ho hi, next_eq_ite hi]
  split_ifs at * <;> omega

theorem count_pop (ho : o < n) (hi : i < n) (h : i ≠ o) :
    count n o i = count n (next n o) i + 1 := by
  rw [count_eq_ite (next_lt (by omega)) hi, count_eq_ite ho hi, next_eq_ite ho]
  split_ifs at * <;> omega

theorem position_count (ho : o < n) (hi : i < n) : (o + 1 + count n o i) % n = next n i := by
  rw [count_eq_ite ho hi]
  unfold next
  split_ifs with h
  · rw [show o + 1 + (i - o) = i + 1 by omega]
  · rw [show o + 1 + (i + n - o) = i + 1 + n by omega, Nat.add_mod_right]

theorem length_positions : (positions n o i).length = count n o i := by
  simp [positions]

theorem positions_self (ho : o < n) : positions n o o = [] := by
  have h : count n o o = 0 := (count_eq_zero_iff ho ho).mpr rfl
  simp [positions, h]

theorem positions_push (ho : o < n) (hi : i < n) (h : next n i ≠ o) :
    positions n o (next n i) = positions n o i ++ [next n i] := by
  simp only [positions, count_push ho hi h, List.range_succ, List.map_append, List.map_cons,
    List.map_nil, position_count ho hi]

theorem positions_pop (ho : o < n) (hi : i < n) (h : i ≠ o) :
    positions n o i = next n o :: positions n (next n o) i := by
  simp only [positions, count_pop ho hi h, List.range_succ_eq_map, List.map_cons, List.map_map]
  congr 1
  apply List.map_congr_left
  intro k _
  simp only [Function.comp, next, Nat.succ_eq_add_one, Nat.add_assoc, Nat.mod_add_mod]
  congr 1
  omega

theorem lt_of_mem_positions {k : Nat} (hn : 0 < n) (h : k ∈ positions n o i) : k < n := by
  obtain ⟨j, _, rfl⟩ := List.mem_map.mp h
  exact Nat.mod_lt _ hn

theorem position_injOn {a b : Nat} (hab : a < b) (hb : b < n) : (o + 1 + a) % n ≠ (o + 1 + b) % n := by
  intro he
  have hd : n ∣ (o + 1 + b) - (o + 1 + a) :=
    Nat.dvd_of_mod_eq_zero (Nat.sub_mod_eq_zero_of_mod_eq he.symm)
  have hz := Nat.eq_zero_of_dvd_of_lt hd (by omega)
  omega

theorem next_not_mem_positions (ho : o < n) (hi : i < n) (h : next n i ≠ o) :
    next n i ∉ positions n o i := by
  intro hm
  obtain ⟨k, hk, he⟩ := List.mem_map.mp hm
  rw [← position_count ho hi] at he
  have hfull : count n o i + 1 ≠ n := fun hc => h ((next_eq_iff_count ho hi).mpr hc)
  have hlt : count n o i < n := count_lt (by omega)
  exact position_injOn (List.mem_range.mp hk) hlt he

end Cyclic
