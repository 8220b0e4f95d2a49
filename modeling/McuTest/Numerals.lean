import Mathlib.Data.List.Induction
import Mathlib.Data.Nat.Digits.Lemmas

/-! Numbers as text in a base of up to 36, padded with zeros, and lists of
them with a separator between. -/

namespace Numerals

/-- `0` to `9`, then `A` to `Z`. -/
def digit (d : Nat) : UInt8 :=
  UInt8.ofNat (if d < 10 then 48 + d else 55 + d)

def digitValue (c : UInt8) : Option Nat :=
  if 48 ≤ c.toNat ∧ c.toNat < 58 then some (c.toNat - 48)
  else if 65 ≤ c.toNat ∧ c.toNat < 91 then some (c.toNat - 55)
  else none

/-- The digits from the highest on; 0 has one. -/
def digits (base n : Nat) : List Nat :=
  if n = 0 then [0] else (Nat.digits base n).reverse

def padded (base width n : Nat) : List Nat :=
  List.replicate (width - (digits base n).length) 0 ++ digits base n

def numeral (base width n : Nat) : List UInt8 :=
  (padded base width n).map digit

def readFrom (base acc : Nat) : List UInt8 → Option Nat
  | [] => some acc
  | c :: cs =>
    match digitValue c with
    | some d => if d < base then readFrom base (acc * base + d) cs else none
    | none => none

def read (base : Nat) (text : List UInt8) : Option Nat :=
  if text = [] then none else readFrom base 0 text

/-- Numbers of one base and width, with the separator `sep` between them. -/
def fields (base width : Nat) (sep : UInt8) (ns : List Nat) : List UInt8 :=
  [sep].intercalate (ns.map (numeral base width))

def readFields (base : Nat) (sep : UInt8) (text : List UInt8) : Option (List Nat) :=
  (text.splitOn sep).mapM (read base)

variable {base width n : Nat}

theorem digitValue_digit {d : Nat} (hd : d < 36) : digitValue (digit d) = some d := by
  have hsize : (if d < 10 then 48 + d else 55 + d) < 256 := by split_ifs <;> omega
  have hnat : (digit d).toNat = if d < 10 then 48 + d else 55 + d := Nat.mod_eq_of_lt hsize
  unfold digitValue
  rw [hnat]
  by_cases hten : d < 10
  · rw [if_pos hten, if_pos (by omega)]
    exact congrArg some (by omega)
  · rw [if_neg hten, if_neg (by omega), if_pos (by omega)]
    exact congrArg some (by omega)

theorem digits_lt (hb : 1 < base) : ∀ d ∈ digits base n, d < base := by
  intro d hd
  by_cases hn : n = 0
  · obtain rfl : d = 0 := by simpa [digits, hn] using hd
    omega
  · rw [digits, if_neg hn, List.mem_reverse] at hd
    exact Nat.digits_lt_base hb hd

theorem padded_lt (hb : 1 < base) : ∀ d ∈ padded base width n, d < base := by
  intro d hd
  rcases List.mem_append.mp hd with hd | hd
  · rw [List.eq_of_mem_replicate hd]
    omega
  · exact digits_lt hb d hd

theorem digits_length_le {k : Nat} (hb : 1 < base) (hk : 0 < k) (hn : n < base ^ k) :
    (digits base n).length ≤ k := by
  by_cases hz : n = 0
  · rw [digits, if_pos hz]
    exact hk
  · rw [digits, if_neg hz, List.length_reverse]
    exact (Nat.digits_length_le_iff hb n).mpr hn

theorem numeral_length :
    (numeral base width n).length = max width (digits base n).length := by
  simp only [numeral, padded, List.length_map, List.length_append, List.length_replicate]
  omega

theorem numeral_length_le {k : Nat} (hb : 1 < base) (hk : 0 < k) (hn : n < base ^ k) :
    (numeral base width n).length ≤ max width k := by
  have hlen := digits_length_le hb hk hn
  rw [numeral_length]
  omega

theorem numeral_length_eq (hb : 1 < base) (hw : 0 < width) (hn : n < base ^ width) :
    (numeral base width n).length = width := by
  have hlen := digits_length_le hb hw hn
  rw [numeral_length]
  omega

theorem digitValue_of_mem (hb : 1 < base) (hb' : base ≤ 36) {c : UInt8}
    (hc : c ∈ numeral base width n) : ∃ d, digitValue c = some d := by
  obtain ⟨d, hd, rfl⟩ := List.mem_map.mp hc
  exact ⟨d, digitValue_digit (Nat.lt_of_lt_of_le (padded_lt hb d hd) hb')⟩

theorem not_mem_numeral (hb : 1 < base) (hb' : base ≤ 36) {c : UInt8} (hc : digitValue c = none) :
    c ∉ numeral base width n := by
  intro hmem
  obtain ⟨d, hd⟩ := digitValue_of_mem hb hb' hmem
  rw [hc] at hd
  simp at hd

theorem not_mem_fields (hb : 1 < base) (hb' : base ≤ 36) {c sep : UInt8}
    (hc : digitValue c = none) (hne : c ≠ sep) (ns : List Nat) : c ∉ fields base width sep ns := by
  unfold fields
  induction ns with
  | nil => simp
  | cons n ns ih =>
    have hn : c ∉ numeral base width n := not_mem_numeral hb hb' hc
    cases ns with
    | nil => simpa using hn
    | cons m ns =>
      rw [List.map_cons, List.map_cons, List.intercalate_cons_cons]
      simp only [List.mem_append, List.mem_singleton, not_or]
      exact ⟨⟨hn, hne⟩, ih⟩

theorem fields_length_lt {k : Nat} {sep : UInt8} {ns : List Nat} (hns : ns ≠ [])
    (hk : ∀ n ∈ ns, (numeral base width n).length ≤ k) :
    (fields base width sep ns).length < (k + 1) * ns.length := by
  unfold fields
  induction ns with
  | nil => exact absurd rfl hns
  | cons n ns ih =>
    have hn := hk n (by simp)
    cases ns with
    | nil =>
      rw [List.map_cons, List.map_nil, List.intercalate_singleton]
      simpa using Nat.lt_succ_of_le hn
    | cons m ns =>
      have hrest := ih (by simp) fun i hi => hk i (List.mem_cons_of_mem n hi)
      rw [List.map_cons, List.map_cons, List.intercalate_cons_cons]
      simp only [List.length_append, List.length_cons, List.length_nil, List.map_cons,
        Nat.mul_add] at hrest ⊢
      omega

example : numeral 16 2 10 = [48, 65] := by decide

end Numerals
