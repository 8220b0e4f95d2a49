import McuTest.LoopCalls

/-! What `SysTickHandler` counts, and the times that the calls of the loop
carry: those of umqtt in milliseconds, those of the uptime reports in seconds. -/

namespace McuTest

/-- The counters tell the ticks since reset, as far as 32 bits go. -/
structure Clock.Counts (c : Clock) : Prop where
  ticks : c.timers.ticks.toNat = c.elapsed % 2 ^ 32
  msTicks : c.msTicks.toNat = 10 * c.elapsed % 2 ^ 32
  subseconds : c.subseconds.toNat = c.elapsed % 100
  upTime : c.upTime.toNat = c.elapsed / 100 % 2 ^ 32

theorem counts_reset : ({} : Clock).Counts where
  ticks := rfl
  msTicks := rfl
  subseconds := rfl
  upTime := rfl

theorem Clock.Counts.carries_iff {c : Clock} (h : c.Counts) :
    c.subseconds + 1 = ticksPerSecond ↔ (c.elapsed + 1) % 100 = 0 := by
  have hsub := h.subseconds
  have hsize : (c.subseconds + 1).toNat = c.subseconds.toNat + 1 := by
    rw [UInt32.toNat_add]
    exact Nat.mod_eq_of_lt (by rw [hsub]; change c.elapsed % 100 + 1 < 2 ^ 32; omega)
  rw [← UInt32.toNat_inj, hsize, hsub]
  change c.elapsed % 100 + 1 = 100 ↔ _
  omega

theorem Clock.Counts.tick {c : Clock} (h : c.Counts) : (sysTickHandler c).Counts where
  ticks := by
    change (c.timers.ticks + 1).toNat = (c.elapsed + 1) % 2 ^ 32
    rw [UInt32.toNat_add, h.ticks]
    exact Nat.mod_add_mod _ _ _
  msTicks := by
    change (c.msTicks + 10).toNat = 10 * (c.elapsed + 1) % 2 ^ 32
    rw [UInt32.toNat_add, h.msTicks]
    exact Nat.mod_add_mod _ _ _
  subseconds := by
    change (if c.subseconds + 1 = ticksPerSecond then 0 else c.subseconds + 1).toNat =
      (c.elapsed + 1) % 100
    have hsub := h.subseconds
    split_ifs with hcarry
    · exact (h.carries_iff.mp hcarry).symm
    · have hno := mt h.carries_iff.mpr hcarry
      rw [UInt32.toNat_add, hsub]
      change (c.elapsed % 100 + 1) % 2 ^ 32 = (c.elapsed + 1) % 100
      omega
  upTime := by
    change (if c.subseconds + 1 = ticksPerSecond then c.upTime + 1 else c.upTime).toNat =
      (c.elapsed + 1) / 100 % 2 ^ 32
    have hup := h.upTime
    split_ifs with hcarry
    · have hfull := h.carries_iff.mp hcarry
      rw [UInt32.toNat_add, hup]
      change (c.elapsed / 100 % 2 ^ 32 + 1) % 2 ^ 32 = (c.elapsed + 1) / 100 % 2 ^ 32
      omega
    · have hno := mt h.carries_iff.mpr hcarry
      rw [hup]
      congr 1
      omega

theorem counts_iterate (n : Nat) : (sysTickHandler^[n] {}).Counts := by
  induction n with
  | zero => exact counts_reset
  | succ n ih =>
    rw [Function.iterate_succ_apply']
    exact ih.tick

/-- What a call tells of the time, if it is made at the tick `t`. -/
def MainCall.OnTime (t : Nat) : MainCall → Prop
  | .umqttRun ms _ => ms.toNat = 10 * t % 2 ^ 32
  | .umqttPublish (.uptime seconds) => seconds.toNat = t / 100 % 2 ^ 32
  | _ => True

variable {s s' : Main}

structure TimesOk (s : Main) : Prop where
  clock : s.clock.Counts
  past : ∀ x ∈ s.calls, x.1 ≤ s.clock.elapsed
  sorted : s.calls.Pairwise fun x y => x.1 ≤ y.1
  onTime : ∀ x ∈ s.calls, x.2.OnTime x.1

theorem issues_onTime (h : s.clock.Counts) (ans : Answers) {c : MainCall}
    (hc : s.issues ans = some c) : c.OnTime s.clock.elapsed := by
  cases hpc : s.pc <;> simp only [Main.issues, hpc, reduceCtorEq, Option.some.injEq] at hc
  case umqttRun =>
    subst c
    exact h.msTicks
  case publishUptime =>
    subst c
    exact h.upTime
  case testReport =>
    split at hc
    · obtain rfl := Option.some.inj hc
      trivial
    · simp at hc
  all_goals
    subst c
    trivial

theorem TimesOk.exec (h : TimesOk s) (ans : Answers) : TimesOk (exec s ans) := by
  have hclock : (McuTest.exec s ans).clock = s.clock := exec_clock s ans
  have hnew : ∀ x ∈ (s.issues ans).toList.map fun c => (s.clock.elapsed, c),
      x.1 = s.clock.elapsed ∧ x.2.OnTime x.1 := by
    intro x hx
    obtain ⟨c, hc, rfl⟩ := List.mem_map.mp hx
    exact ⟨rfl, issues_onTime h.clock ans (Option.mem_toList.mp hc)⟩
  refine ⟨hclock ▸ h.clock, ?_, ?_, ?_⟩
  · intro x hx
    rw [exec_calls] at hx
    rw [hclock]
    rcases List.mem_append.mp hx with hx | hx
    · exact h.past x hx
    · exact (hnew x hx).1.le
  · rw [exec_calls, List.pairwise_append]
    refine ⟨h.sorted, ?_, fun x hx y hy => (h.past x hx).trans (hnew y hy).1.ge⟩
    cases s.issues ans with
    | none => exact List.Pairwise.nil
    | some c => exact List.pairwise_singleton _ _
  · intro x hx
    rw [exec_calls] at hx
    rcases List.mem_append.mp hx with hx | hx
    · exact h.onTime x hx
    · exact (hnew x hx).2

theorem TimesOk.step (h : TimesOk s) {e : LoopEvent} (he : loopStep s e = some s') :
    TimesOk s' := by
  rcases loopStep_cases he with ⟨ans, _, rfl⟩ | ⟨_, net, clock, hclock, rfl⟩
  · exact h.exec ans
  · rcases hclock with rfl | rfl
    · exact { h with }
    · exact ⟨h.clock.tick, fun x hx => Nat.le_succ_of_le (h.past x hx), h.sorted, h.onTime⟩

theorem timesOk_init (n : Nat) : TimesOk (Main.init (sysTickHandler^[n] {})) where
  clock := { counts_iterate n with }
  past := fun x hx => by simp [Main.init] at hx
  sorted := List.Pairwise.nil
  onTime := fun x hx => by simp [Main.init] at hx

theorem timesOk_run (n : Nat) {es : List LoopEvent}
    (hr : Runs.run loopStep (Main.init (sysTickHandler^[n] {})) es = some s) : TimesOk s :=
  Runs.run_invariant' (fun _ _ _ h he => TimesOk.step h he) (timesOk_init n) hr

/-- Whenever the loop was entered and whatever comes in between, umqtt is told
ten milliseconds for each tick since reset, and the uptime reports tell the
whole seconds among them. -/
theorem calls_on_time (n : Nat) {es : List LoopEvent}
    (hr : Runs.run loopStep (Main.init (sysTickHandler^[n] {})) es = some s) :
    s.calls.Pairwise (fun x y => x.1 ≤ y.1) ∧ ∀ x ∈ s.calls, x.2.OnTime x.1 := by
  have hok := timesOk_run n hr
  exact ⟨hok.sorted, hok.onTime⟩

theorem calls_on_time_reported :
    ∃ s : Main, Runs.run loopStep (Main.init (sysTickHandler^[3] {}))
        (announcedSession.map .main) = some s ∧
      (503, .umqttRun 5030 .ok) ∈ s.calls ∧ (503, .umqttPublish (.uptime 5)) ∈ s.calls ∧
        ∀ x ∈ s.calls, x.2.OnTime x.1 := by
  have hfacts : (Runs.run mainStep (Main.init (sysTickHandler^[3] {})) announcedSession).map
      (fun s => (decide ((503, .umqttRun 5030 .ok) ∈ s.calls),
        decide ((503, .umqttPublish (.uptime 5)) ∈ s.calls))) = some (true, true) := by
    decide +kernel
  obtain ⟨s, hs, hcalls⟩ := Option.map_eq_some_iff.mp hfacts
  obtain ⟨hrun, hreport⟩ := Prod.mk.inj hcalls
  rw [← run_loopStep_main] at hs
  exact ⟨s, hs, of_decide_eq_true hrun, of_decide_eq_true hreport, (calls_on_time 3 hs).2⟩

end McuTest
