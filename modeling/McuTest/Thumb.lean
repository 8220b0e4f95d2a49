import McuTest.Words
import Mathlib.Logic.Function.Basic

/-! A fragment of the Thumb instruction set: word stores, comparisons and
branches on the signed order. -/

namespace Thumb

open Words

/-- The condition suffixes; `lt` reads the flags N and V. -/
inductive Cond where
  | al
  | lt
  deriving DecidableEq

/-- A branch names its target by the index of the instruction. `it` only
declares the condition that the next instruction has. -/
inductive Instr where
  | ldr (rd : Fin 16) (value : Word)
  | mov (rd : Fin 16) (imm : Word)
  | cmp (rn rm : Fin 16)
  | it (cond : Cond)
  | strPost (cond : Cond) (rt rn : Fin 16) (imm : Word)
  | b (cond : Cond) (target : Nat)
  deriving DecidableEq

structure State where
  regs : Fin 16 → Word
  negative : Bool := false
  overflow : Bool := false
  pc : Nat := 0
  mem : Memory

namespace State

def setReg (s : State) (r : Fin 16) (v : Word) : State :=
  { s with regs := Function.update s.regs r v }

def next (s : State) : State :=
  { s with pc := s.pc + 1 }

def passes (s : State) : Cond → Bool
  | .al => true
  | .lt => s.negative != s.overflow

end State

def exec (s : State) : Instr → State
  | .ldr rd value => (s.setReg rd value).next
  | .mov rd imm => (s.setReg rd imm).next
  | .cmp rn rm =>
    { s.next with
      negative := (s.regs rn - s.regs rm).msb
      overflow := BitVec.ssubOverflow (s.regs rn) (s.regs rm) }
  | .it _ => s.next
  | .strPost cond rt rn imm =>
    if s.passes cond then
      ({ s with mem := store s.mem (s.regs rn) (s.regs rt) }.setReg rn (s.regs rn + imm)).next
    else s.next
  | .b cond target => if s.passes cond then { s with pc := target } else s.next

/-- A program ends where it runs past its last instruction. -/
def run (prog : List Instr) : Nat → State → Option State
  | 0, _ => none
  | fuel + 1, s =>
    match prog[s.pc]? with
    | none => some s
    | some i => run prog fuel (exec s i)

variable {prog : List Instr} {s t : State} {fuel : Nat}

theorem run_step {i : Instr} (hi : prog[s.pc]? = some i) :
    run prog (fuel + 1) s = run prog fuel (exec s i) := by
  rw [run, hi]

theorem run_end (hs : prog[s.pc]? = none) : run prog (fuel + 1) s = some s := by
  rw [run, hs]

def Instr.isBranch : Instr → Bool
  | .b _ _ => true
  | _ => false

theorem exec_pc {i : Instr} (hi : i.isBranch = false) : (exec s i).pc = s.pc + 1 := by
  cases i with
  | strPost cond rt rn imm =>
    simp only [exec]
    split <;> rfl
  | b cond target => simp [Instr.isBranch] at hi
  | _ => rfl

/-- Instructions that do not branch run one after the other. -/
theorem run_block (fuel : Nat) {block rest : List Instr} (hprog : prog.drop s.pc = block ++ rest)
    (hblock : ∀ i ∈ block, i.isBranch = false) :
    run prog (fuel + block.length) s = run prog fuel (block.foldl exec s) ∧
      prog.drop (block.foldl exec s).pc = rest := by
  induction block generalizing s with
  | nil => exact ⟨rfl, hprog⟩
  | cons i block ih =>
    have hi : prog[s.pc]? = some i := by
      rw [← Nat.add_zero s.pc, ← List.getElem?_drop, hprog]
      rfl
    have hpc := exec_pc (s := s) (hblock i (List.mem_cons_self))
    have hdrop : prog.drop (exec s i).pc = block ++ rest := by
      rw [hpc, ← List.drop_drop, hprog]
      rfl
    obtain ⟨hrun, hrest⟩ := ih hdrop fun j hj => hblock j (List.mem_cons_of_mem i hj)
    refine ⟨?_, hrest⟩
    rw [List.length_cons, ← Nat.add_assoc, run_step hi, hrun]
    rfl

/-- N and V of a comparison together tell the signed order. -/
theorem msb_sub_bne_ssubOverflow (x y : Word) :
    ((x - y).msb != BitVec.ssubOverflow x y) = x.slt y := by
  have hx := x.isLt
  have hy := y.isLt
  rw [BitVec.slt_eq_decide, Bool.eq_iff_iff, bne_iff_ne, ne_eq, Bool.eq_iff_iff]
  simp only [BitVec.msb_eq_decide, BitVec.ssubOverflow, BitVec.toInt_eq_toNat_cond,
    BitVec.toNat_sub, Bool.or_eq_true, decide_eq_true_eq]
  split <;> split <;> omega

/-- Below 2^31 it is the order of addresses. -/
theorem passes_lt_of_cmp {rn rm : Fin 16} (hn : (s.regs rn).toNat < 2 ^ 31)
    (hm : (s.regs rm).toNat < 2 ^ 31) :
    (exec s (.cmp rn rm)).passes .lt = true ↔ (s.regs rn).toNat < (s.regs rm).toNat := by
  have hflags : (exec s (.cmp rn rm)).passes .lt = (s.regs rn).slt (s.regs rm) :=
    msb_sub_bne_ssubOverflow _ _
  rw [hflags, BitVec.slt_iff_toInt_lt, BitVec.toInt_eq_toNat_of_lt (by omega),
    BitVec.toInt_eq_toNat_of_lt (by omega)]
  omega

end Thumb
