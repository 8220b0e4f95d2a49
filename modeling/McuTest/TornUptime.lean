import McuTest.Texts
import McuTest.Uptime

/-! The uptime report with SysTick interrupts between the reads of `upTime`.
Hours, minutes and seconds are arguments of one call, and each reads `upTime` for
itself. -/

namespace McuTest

inductive Operand where
  | hours
  | minutes
  | seconds
  deriving DecidableEq

def Operand.value (upTime : UInt32) : Operand → Nat
  | .hours => (upTime / 3600).toNat
  | .minutes => (upTime / 60 % 60).toNat
  | .seconds => (upTime % 60).toNat

/-- `upTime` as an operand reads it. C leaves open in which order the operands
are evaluated; the number says how many ticks go by before each. One that is not
listed comes last. -/
def readAt (c : Clock) : List (Nat × Operand) → Operand → UInt32
  | [], _ => c.upTime
  | (n, o') :: reads, o =>
    if o = o' then (sysTickHandler^[n] c).upTime else readAt (sysTickHandler^[n] c) reads o

def uptimeArgs (c : Clock) (reads : List (Nat × Operand)) : List Nat :=
  [Operand.hours, .minutes, .seconds].map fun o => o.value (readAt c reads o)

def ticksOf (reads : List (Nat × Operand)) : Nat :=
  (reads.map Prod.fst).sum

theorem elapsed_iterate (c : Clock) (n : Nat) :
    (sysTickHandler^[n] c).elapsed = c.elapsed + n := by
  induction n with
  | zero => rfl
  | succ n ih =>
    rw [Function.iterate_succ_apply']
    change (sysTickHandler^[n] c).elapsed + 1 = c.elapsed + (n + 1)
    rw [ih, Nat.add_assoc]

variable {c : Clock} {reads : List (Nat × Operand)}

theorem Clock.Counts.iterate (h : c.Counts) (n : Nat) : (sysTickHandler^[n] c).Counts := by
  induction n with
  | zero => exact h
  | succ n ih =>
    rw [Function.iterate_succ_apply']
    exact ih.tick

/-- Within less than a second `upTime` goes up by one at the most. -/
theorem upTime_iterate (h : c.Counts) {n : Nat} (hn : n < 100) :
    (sysTickHandler^[n] c).upTime = c.upTime ∨ (sysTickHandler^[n] c).upTime = c.upTime + 1 := by
  have hup := h.upTime
  have hafter := (h.iterate n).upTime
  rw [elapsed_iterate] at hafter
  have hnext : (c.upTime + 1).toNat = (c.upTime.toNat + 1) % 2 ^ 32 := UInt32.toNat_add _ _
  simp only [← UInt32.toNat_inj, hafter, hnext, hup]
  omega

theorem exists_readAt (c : Clock) (reads : List (Nat × Operand)) (o : Operand) :
    ∃ n ≤ ticksOf reads, readAt c reads o = (sysTickHandler^[n] c).upTime := by
  induction reads generalizing c with
  | nil => exact ⟨0, Nat.le_refl 0, rfl⟩
  | cons r reads ih =>
    obtain ⟨k, o'⟩ := r
    have hsum : ticksOf ((k, o') :: reads) = k + ticksOf reads := List.sum_cons
    by_cases ho : o = o'
    · refine ⟨k, by omega, ?_⟩
      simp only [readAt, if_pos ho]
    · obtain ⟨n, hn, hread⟩ := ih (sysTickHandler^[k] c)
      refine ⟨n + k, by omega, ?_⟩
      simp only [readAt, if_neg ho]
      rw [hread, Function.iterate_add_apply]

/-- Without ticks in between, the report is the one of the main loop's statement. -/
theorem uptimeArgs_uninterrupted (hn : ticksOf reads = 0) :
    uptimeArgs c reads = hoursMinutesSeconds c.upTime := by
  have hall (o : Operand) : readAt c reads o = c.upTime := by
    obtain ⟨n, hle, hread⟩ := exists_readAt c reads o
    obtain rfl : n = 0 := by omega
    exact hread
  simp only [uptimeArgs, hall]
  rfl

theorem readAt_cases (h : c.Counts) (hn : ticksOf reads < 100) (o : Operand) :
    readAt c reads o = c.upTime ∨ readAt c reads o = c.upTime + 1 := by
  obtain ⟨n, hle, hread⟩ := exists_readAt c reads o
  rw [hread]
  exact upTime_iterate h (by omega)

section Mixed

variable {u a b d v : UInt32}

theorem args_eq_iff : [Operand.hours.value a, Operand.minutes.value b, Operand.seconds.value d] =
    hoursMinutesSeconds v ↔ a.toNat / 3600 = v.toNat / 3600 ∧
      b.toNat / 60 % 60 = v.toNat / 60 % 60 ∧ d.toNat % 60 = v.toNat % 60 := by
  simp [hoursMinutesSeconds, Operand.value]

theorem toNat_next (hu : (u + 1).toNat ≠ 0) : (u + 1).toNat = u.toNat + 1 := by
  have hlt := u.toNat_lt
  have hnext : (u + 1).toNat = (u.toNat + 1) % 2 ^ 32 := UInt32.toNat_add _ _
  omega

/-- Where `f` is kept from `u` to the next second if `p`, and changed if not. -/
theorem eq_iff_kept_or {p : Prop} {f : UInt32 → Nat} (hkept : p → f (u + 1) = f u)
    (hmoved : ¬p → f (u + 1) ≠ f u) (ha : a = u ∨ a = u + 1) (hv : v = u ∨ v = u + 1) :
    f a = f v ↔ p ∨ a = v := by
  by_cases hp : p
  · have hf := hkept hp
    refine iff_of_true ?_ (.inl hp)
    rcases ha with rfl | rfl <;> rcases hv with rfl | rfl <;> simp only [hf]
  · have hf := hmoved hp
    constructor
    · intro he
      rcases ha with rfl | rfl <;> rcases hv with rfl | rfl
      · exact .inr rfl
      · exact absurd he.symm hf
      · exact absurd he hf
      · exact .inr rfl
    · intro h
      rw [h.resolve_left hp]

theorem hours_moved (hu : (u + 1).toNat % 3600 = 0) : (u + 1).toNat / 3600 ≠ u.toNat / 3600 := by
  by_cases hz : (u + 1).toNat = 0
  · have hlt := u.toNat_lt
    have hnext : (u + 1).toNat = (u.toNat + 1) % 2 ^ 32 := UInt32.toNat_add _ _
    omega
  · have hone := toNat_next hz
    omega

theorem minutes_moved (hu : (u + 1).toNat % 60 = 0) :
    (u + 1).toNat / 60 % 60 ≠ u.toNat / 60 % 60 := by
  by_cases hz : (u + 1).toNat = 0
  · have hlt := u.toNat_lt
    have hnext : (u + 1).toNat = (u.toNat + 1) % 2 ^ 32 := UInt32.toNat_add _ _
    have hlast : u.toNat = 2 ^ 32 - 1 := by omega
    rw [hz, hlast]
    decide
  · have hone := toNat_next hz
    omega

theorem seconds_moved : (u + 1).toNat % 60 ≠ u.toNat % 60 := by
  have hlt := u.toNat_lt
  have hnext : (u + 1).toNat = (u.toNat + 1) % 2 ^ 32 := UInt32.toNat_add _ _
  omega

theorem hours_kept (hu : (u + 1).toNat % 3600 ≠ 0) : (u + 1).toNat / 3600 = u.toNat / 3600 := by
  have hone := toNat_next (u := u) fun hz => hu (by rw [hz])
  omega

theorem minutes_kept (hu : (u + 1).toNat % 60 ≠ 0) :
    (u + 1).toNat / 60 % 60 = u.toNat / 60 % 60 := by
  have hone := toNat_next (u := u) fun hz => hu (by rw [hz])
  omega

/-- Of two seconds on end, the seconds always tell which it was, the minutes at
the end of a minute only and the hours at the end of an hour. -/
theorem args_iff (ha : a = u ∨ a = u + 1) (hb : b = u ∨ b = u + 1) (hd : d = u ∨ d = u + 1)
    (hv : v = u ∨ v = u + 1) :
    [Operand.hours.value a, Operand.minutes.value b, Operand.seconds.value d] =
      hoursMinutesSeconds v ↔
        ((u + 1).toNat % 3600 ≠ 0 ∨ a = v) ∧ ((u + 1).toNat % 60 ≠ 0 ∨ b = v) ∧ d = v := by
  have hours := eq_iff_kept_or (f := fun x => x.toNat / 3600) hours_kept
    (fun hu => hours_moved (not_not.mp hu)) ha hv
  have minutes := eq_iff_kept_or (f := fun x => x.toNat / 60 % 60) minutes_kept
    (fun hu => minutes_moved (not_not.mp hu)) hb hv
  have seconds := eq_iff_kept_or (p := False) (f := fun x => x.toNat % 60) False.elim
    (fun _ => seconds_moved) hd hv
  rw [false_or] at seconds
  rw [args_eq_iff, hours, minutes, seconds]

end Mixed

/-- If less than a second goes by between the reads, the uptime reported is that
of a moment among them exactly if no minute ends, or the reads of minutes and
seconds agree and, where an hour ends too, that of the hours with them. -/
theorem uptime_whole_iff (t : Nat) {reads : List (Nat × Operand)} (hn : ticksOf reads < 100) :
    let c := sysTickHandler^[t] {}
    let r := readAt c reads
    (∃ n ≤ ticksOf reads,
        uptimeArgs c reads = hoursMinutesSeconds (sysTickHandler^[n] c).upTime) ↔
      (c.upTime + 1).toNat % 60 ≠ 0 ∨
        r .minutes = r .seconds ∧ ((c.upTime + 1).toNat % 3600 ≠ 0 ∨ r .hours = r .minutes) := by
  intro c r
  have hcounts : c.Counts := counts_iterate t
  have hhours : r .hours = c.upTime ∨ r .hours = c.upTime + 1 := readAt_cases hcounts hn _
  have hminutes : r .minutes = c.upTime ∨ r .minutes = c.upTime + 1 := readAt_cases hcounts hn _
  have hseconds : r .seconds = c.upTime ∨ r .seconds = c.upTime + 1 := readAt_cases hcounts hn _
  have hargs : uptimeArgs c reads = [Operand.hours.value (r .hours),
    Operand.minutes.value (r .minutes), Operand.seconds.value (r .seconds)] := rfl
  constructor
  · rintro ⟨n, hle, he⟩
    have hv := upTime_iterate hcounts (n := n) (by omega)
    rw [hargs, args_iff hhours hminutes hseconds hv] at he
    obtain ⟨h₁, h₂ | h₂, h₃⟩ := he
    · exact .inl h₂
    · exact .inr ⟨h₂.trans h₃.symm, h₁.imp_right fun h₁ => h₁.trans h₂.symm⟩
  · intro hwhole
    obtain ⟨k, hk, hread⟩ := exists_readAt c reads .seconds
    change r .seconds = (sysTickHandler^[k] c).upTime at hread
    refine ⟨k, hk, ?_⟩
    rw [hargs, ← hread, args_iff hhours hminutes hseconds hseconds]
    rcases hwhole with hno | ⟨h₁, h₂⟩
    · have hno' : (c.upTime + 1).toNat % 3600 ≠ 0 := by omega
      exact ⟨.inl hno', .inl hno, rfl⟩
    · exact ⟨h₂.imp_right fun h₂ => h₂.trans h₁, .inr h₁, rfl⟩

def tornReads : List (Nat × Operand) :=
  [(0, .seconds), (1, .minutes), (0, .hours)]

/-- The first minute ends between the reads of the seconds and the minutes. -/
theorem uptime_whole_iff_torn :
    ∃ c : Clock, c.upTime = 59 ∧ uptimeArgs c tornReads = [0, 1, 59] ∧
      ¬∃ n ≤ 1, uptimeArgs c tornReads = hoursMinutesSeconds (sysTickHandler^[n] c).upTime := by
  have hiff := @uptime_whole_iff 5999 tornReads (by decide)
  have hcounts := counts_iterate 5999
  have helapsed := elapsed_iterate {} 5999
  generalize sysTickHandler^[5999] {} = c at hiff hcounts helapsed
  have helapsed : c.elapsed = 5999 := helapsed
  have hfirst : c.upTime = 59 := by
    rw [← UInt32.toNat_inj, hcounts.upTime, helapsed]
    rfl
  have hlater : (sysTickHandler c).upTime = 60 := by
    have hnext : (sysTickHandler c).elapsed = c.elapsed + 1 := rfl
    rw [← UInt32.toNat_inj, hcounts.tick.upTime, hnext, helapsed]
    rfl
  have hseconds : readAt c tornReads .seconds = 59 := by
    simpa [readAt, tornReads] using hfirst
  have hminutes : readAt c tornReads .minutes = 60 := by
    simpa [readAt, tornReads] using hlater
  have hhours : readAt c tornReads .hours = 60 := by
    simpa [readAt, tornReads] using hlater
  refine ⟨c, hfirst, ?_, fun hwhole => ?_⟩
  · simp only [uptimeArgs, List.map_cons, List.map_nil, hseconds, hminutes, hhours]
    decide
  · rcases hiff.mp hwhole with hno | ⟨hsame, _⟩
    · rw [hfirst] at hno
      exact hno rfl
    · rw [hminutes, hseconds] at hsame
      exact absurd hsame (by decide)

end McuTest
