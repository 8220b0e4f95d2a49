import Mathlib.Algebra.Group.Nat.Defs
import Mathlib.Logic.Function.Iterate

/-! The software timers of swtimer.c. -/

namespace McuTest

structure SwTimer where
  timeoutTicks : UInt32 := 0
  startTicks : UInt32 := 0
  deriving DecidableEq

/-- The static variables of swtimer.c. -/
structure SwTicks where
  ticks : UInt32 := 0
  msPerTick : UInt32 := 100
  deriving DecidableEq

namespace SwTimer

def tick (m : SwTicks) : SwTicks :=
  { m with ticks := m.ticks + 1 }

def setMsPerTick (m : SwTicks) (ms : UInt32) : SwTicks :=
  { m with msPerTick := ms }

def setTimeout (m : SwTicks) (ms : UInt32) : SwTimer where
  startTicks := m.ticks
  timeoutTicks := ms / m.msPerTick

def isTimedOut (m : SwTicks) (t : SwTimer) : Bool :=
  m.ticks - t.startTicks ≥ t.timeoutTicks

variable (m : SwTicks) (n : Nat) (ms : UInt32)

@[simp] theorem tick_iterate_msPerTick : (tick^[n] m).msPerTick = m.msPerTick := by
  induction n with
  | zero => rfl
  | succ n ih => rw [Function.iterate_succ_apply', tick, ih]

theorem tick_iterate_ticks : (tick^[n] m).ticks = m.ticks + UInt32.ofNat n := by
  induction n with
  | zero => simp
  | succ n ih =>
    rw [Function.iterate_succ_apply', tick, ih]
    simp [UInt32.add_assoc]

/-- The timer counts the ticks since it was set modulo 2^32. -/
theorem isTimedOut_iterate :
    isTimedOut (tick^[n] m) (setTimeout m ms) = true ↔
      ms.toNat / m.msPerTick.toNat ≤ n % 2 ^ 32 := by
  have hdiff : (tick^[n] m).ticks - m.ticks = UInt32.ofNat n := by
    rw [tick_iterate_ticks, UInt32.add_comm, UInt32.add_sub_cancel]
  simp [isTimedOut, setTimeout, hdiff, UInt32.le_iff_toNat_le]

/-- No timer expires before its `timeoutTicks`, however often the counter has wrapped. -/
theorem le_of_isTimedOut (h : isTimedOut (tick^[n] m) (setTimeout m ms) = true) :
    ms.toNat / m.msPerTick.toNat ≤ n :=
  Nat.le_trans ((isTimedOut_iterate m n ms).mp h) (Nat.mod_le n _)

/-- The quotient is rounded down, so a timer is never late, and early by less
than one tick. -/
theorem isTimedOut_iff_lt (hp : 0 < m.msPerTick) (hn : n < 2 ^ 32) :
    isTimedOut (tick^[n] m) (setTimeout m ms) = true ↔
      ms.toNat < (n + 1) * m.msPerTick.toNat := by
  have hpos : 0 < m.msPerTick.toNat := UInt32.lt_iff_toNat_lt.mp hp
  rw [isTimedOut_iterate, Nat.mod_eq_of_lt hn, ← Nat.lt_succ_iff]
  exact Nat.div_lt_iff_lt_mul hpos

/-- After `n` ticks of `msPerTick` a timer set to `ms` is timed out exactly if
they make up `ms`. -/
def ExpiresOnTime (m : SwTicks) (msPerTick ms : UInt32) (n : Nat) : Prop :=
  isTimedOut (tick^[n] (setMsPerTick m msPerTick)) (setTimeout (setMsPerTick m msPerTick) ms) =
    true ↔ ms.toNat ≤ n * msPerTick.toNat

theorem expiresOnTime_tick_iff {m : SwTicks} {msPerTick ms : UInt32} {n : Nat}
    (hp : 0 < msPerTick) (hn : n < 2 ^ 32) :
    ExpiresOnTime m msPerTick ms n ↔
      ¬(n * msPerTick.toNat < ms.toNat ∧ ms.toNat < (n + 1) * msPerTick.toNat) := by
  have hpos : 0 < msPerTick.toNat := UInt32.lt_iff_toNat_lt.mp hp
  have hout : isTimedOut (tick^[n] (setMsPerTick m msPerTick))
      (setTimeout (setMsPerTick m msPerTick) ms) = true ↔
        ms.toNat < (n + 1) * msPerTick.toNat :=
    isTimedOut_iff_lt (setMsPerTick m msPerTick) n ms hp hn
  have hsucc : (n + 1) * msPerTick.toNat = n * msPerTick.toNat + msPerTick.toNat :=
    Nat.succ_mul n msPerTick.toNat
  rw [ExpiresOnTime, hout]
  omega

theorem mod_eq_zero_of_onTime {p ms : Nat} (hp : 0 < p)
    (h : ¬(ms / p * p < ms ∧ ms < (ms / p + 1) * p)) : ms % p = 0 := by
  have hlt : ms < (ms / p + 1) * p := (Nat.div_lt_iff_lt_mul hp).mp (Nat.lt_succ_self _)
  have hle : ms ≤ ms / p * p := by
    by_contra hgt
    exact h ⟨Nat.lt_of_not_le hgt, hlt⟩
  have hdiv := Nat.div_add_mod' ms p
  omega

/-- Of the timers of one period just those set to a multiple of it expire on
time; any other one does so one tick early. -/
theorem expiresOnTime_iff (m : SwTicks) (msPerTick ms : UInt32) (hp : 0 < msPerTick) :
    ((∀ n < 2 ^ 32, ExpiresOnTime m msPerTick ms n) ↔ ms % msPerTick = 0) ∧
    ∀ n < 2 ^ 32, ExpiresOnTime m msPerTick ms n ↔
      ¬(n * msPerTick.toNat < ms.toNat ∧ ms.toNat < (n + 1) * msPerTick.toNat) := by
  have hpos : 0 < msPerTick.toNat := UInt32.lt_iff_toNat_lt.mp hp
  have hmod : ms % msPerTick = 0 ↔ ms.toNat % msPerTick.toNat = 0 := by
    rw [← UInt32.toNat_inj, UInt32.toNat_mod]
    rfl
  refine ⟨?_, fun n hn => expiresOnTime_tick_iff hp hn⟩
  rw [hmod]
  constructor
  · intro hall
    have hn : ms.toNat / msPerTick.toNat < 2 ^ 32 :=
      Nat.lt_of_le_of_lt (Nat.div_le_self _ _) ms.toNat_lt
    apply mod_eq_zero_of_onTime hpos
    exact (expiresOnTime_tick_iff hp hn).mp (hall _ hn)
  · intro hzero n hn
    apply (expiresOnTime_tick_iff hp hn).mpr
    rintro ⟨hlow, hhigh⟩
    obtain ⟨k, hk⟩ := Nat.dvd_of_mod_eq_zero hzero
    rw [Nat.mul_comm] at hk
    rw [hk] at hlow hhigh
    have hnk : n < k := Nat.lt_of_mul_lt_mul_right hlow
    have hkn : k < n + 1 := Nat.lt_of_mul_lt_mul_right hhigh
    omega

/-- The counter wraps 96 ticks after the timer is set. -/
def nearWrap : SwTicks where
  ticks := 4294967200
  msPerTick := 10

theorem expiresOnTime_iff_five_seconds :
    isTimedOut (tick^[499] nearWrap) (setTimeout nearWrap 5000) = false ∧
      isTimedOut (tick^[500] nearWrap) (setTimeout nearWrap 5000) = true := by
  have hall := (expiresOnTime_iff nearWrap 10 5000 (by decide)).1.mpr (by decide)
  have hbefore := (hall 499 (by decide)).not.mpr (by decide)
  have hafter := (hall 500 (by decide)).mpr (by decide)
  exact ⟨Bool.eq_false_iff.mpr hbefore, hafter⟩

/-- A timer of 15 ms expires after one tick of 10 ms. -/
theorem not_expiresOnTime :
    ¬∀ (m : SwTicks) (msPerTick ms : UInt32) (n : Nat), 0 < msPerTick → n < 2 ^ 32 →
      ExpiresOnTime m msPerTick ms n := by
  intro hall
  have hearly := (hall {} 10 15 1 (by decide) (by decide)).mp (by decide)
  simp at hearly

end SwTimer

end McuTest
