import McuTest.Session

/-! The least time between two attempts to connect and between two uptime
reports, in ticks that do not wrap. -/

namespace McuTest

/-- Any two times of the list, which is in order, are `d` ticks apart. -/
def Spaced (d : Nat) (times : List Nat) : Prop :=
  times.Pairwise fun a b => a + d ≤ b

theorem spaced_append_singleton {d t : Nat} {times : List Nat} :
    Spaced d (times ++ [t]) ↔ Spaced d times ∧ ∀ a ∈ times, a + d ≤ t := by
  simp [Spaced, List.pairwise_append]

/-- The timer was set to `ms` at the tick `a`. -/
def Clock.Armed (c : Clock) (t : SwTimer) (ms : UInt32) (a : Nat) : Prop :=
  ∃ m n, t = SwTimer.setTimeout m ms ∧ c.timers = SwTimer.tick^[n] m ∧ c.elapsed = a + n

section Timers

variable {c : Clock} {t : SwTimer} {ms : UInt32} {a : Nat}

theorem armed_setTimeout (c : Clock) (ms : UInt32) :
    c.Armed (SwTimer.setTimeout c.timers ms) ms c.elapsed :=
  ⟨c.timers, 0, rfl, rfl, rfl⟩

theorem Clock.Armed.tick (h : c.Armed t ms a) : (sysTickHandler c).Armed t ms a := by
  obtain ⟨m, n, ht, hc, he⟩ := h
  refine ⟨m, n + 1, ht, ?_, ?_⟩
  · rw [Function.iterate_succ_apply', ← hc]
    rfl
  · rw [sysTickHandler, he, Nat.add_assoc]

theorem Clock.Armed.elapsed_of_isTimedOut (h : c.Armed t ms a)
    (hp : c.timers.msPerTick = msPerTick) (hout : SwTimer.isTimedOut c.timers t = true) :
    a + ms.toNat / msPerTick.toNat ≤ c.elapsed := by
  obtain ⟨m, n, rfl, hc, he⟩ := h
  rw [hc] at hout hp
  have hn := SwTimer.le_of_isTimedOut m n ms hout
  rw [SwTimer.tick_iterate_msPerTick] at hp
  rw [hp] at hn
  omega

/-- The timer was set to `ms` no sooner than at any of the times. -/
def Clock.SetAfter (c : Clock) (t : SwTimer) (ms : UInt32) (times : List Nat) : Prop :=
  ∃ a, c.Armed t ms a ∧ ∀ x ∈ times, x ≤ a

variable {times : List Nat}

theorem setAfter_setTimeout (ms : UInt32) (h : ∀ x ∈ times, x ≤ c.elapsed) :
    c.SetAfter (SwTimer.setTimeout c.timers ms) ms times :=
  ⟨c.elapsed, armed_setTimeout c ms, h⟩

theorem Clock.SetAfter.tick (h : c.SetAfter t ms times) : (sysTickHandler c).SetAfter t ms times := by
  obtain ⟨a, harmed, hle⟩ := h
  exact ⟨a, harmed.tick, hle⟩

theorem Clock.SetAfter.elapsed_of_isTimedOut (h : c.SetAfter t ms times)
    (hp : c.timers.msPerTick = msPerTick) (hout : SwTimer.isTimedOut c.timers t = true) :
    ∀ x ∈ times, x + ms.toNat / msPerTick.toNat ≤ c.elapsed := by
  obtain ⟨a, harmed, hle⟩ := h
  intro x hx
  have hfired := harmed.elapsed_of_isTimedOut hp hout
  have hxa := hle x hx
  omega

end Timers

open MainCall

def MainCall.triggers : MainCall → Bool
  | .reportTimedOut => true
  | _ => false

def Main.times (s : Main) (p : MainCall → Bool) : List Nat :=
  (s.calls.filter fun x => p x.2).map Prod.fst

/-- `STATE_WAIT_IP` up to `net_Connect`. -/
def Main.ready (s : Main) : Prop :=
  s.pc = .setWaitIp ∨
    s.runState = .waitIp ∧ s.pc ≠ .testRet ∧ s.pc ≠ .setWaitNet ∧ s.pc ≠ .setRecovery

/-- `STATE_DELAY`, from where `errorTimer` is set. -/
def Main.waiting (s : Main) : Prop :=
  s.pc = .setDelay ∨ s.runState = .delay

variable {s s' : Main} {start : Nat}

theorem exec_times (s : Main) (ans : Answers) (p : MainCall → Bool) :
    (exec s ans).times p =
      s.times p ++ if (s.issues ans).any p then [s.clock.elapsed] else [] := by
  rw [Main.times, exec_calls, List.filter_append, List.map_append]
  congr 1
  cases s.issues ans with
  | none => rfl
  | some c => cases hp : p c <;> simp [hp]

theorem issues_dials (ans : Answers) : (s.issues ans).any dials = true ↔ s.pc = .netConnect := by
  cases hpc : s.pc <;> simp only [Main.issues, hpc]
  case testReport => split <;> simp [dials]
  all_goals simp [dials]

theorem issues_triggers (ans : Answers) :
    (s.issues ans).any triggers = true ↔
      s.pc = .testReport ∧ SwTimer.isTimedOut s.clock.timers s.upTimeReportTimer = true := by
  cases hpc : s.pc <;> simp only [Main.issues, hpc]
  case testReport => split <;> simp_all [triggers]
  all_goals simp [triggers]

theorem exec_waiting (ans : Answers) (h : s.placed) (hw : (exec s ans).waiting) :
    s.pc = .armError ∧ (exec s ans).errorTimer = SwTimer.setTimeout s.clock.timers 3000 ∨
      s.waiting ∧ s.pc ≠ .netConnect ∧ (exec s ans).errorTimer = s.errorTimer := by
  unfold Main.placed at h
  cases hpc : s.pc <;> rw [hpc] at h <;> simp only [exec, hpc] at hw ⊢
  case armError => exact .inl ⟨trivial, trivial⟩
  case setDelay => exact .inr ⟨.inl hpc, by simp, rfl⟩
  all_goals
    right
    repeat' split
    all_goals
      simp_all [Main.waiting, Main.goto, Main.setState, Main.call, Main.setWorld, Pc.states]

theorem exec_ready (ans : Answers) (h : s.placed) (hr : (exec s ans).ready) :
    s.ready ∧ s.pc ≠ .netConnect ∨
      s.waiting ∧ SwTimer.isTimedOut s.clock.timers s.errorTimer = true ∧ s.pc = .testError := by
  unfold Main.placed at h
  cases hpc : s.pc <;> rw [hpc] at h <;> simp only [exec, hpc] at hr
  case testError =>
    have hd : s.runState = .delay := by simpa [Pc.states] using h
    split at hr
    · rename_i hout
      exact .inr ⟨.inr hd, hout, rfl⟩
    · simp [Main.ready, Main.goto, hd] at hr
  case setWaitIp => exact .inl ⟨.inl hpc, by simp⟩
  all_goals
    left
    repeat' split at hr
    all_goals
      simp_all [Main.ready, Main.goto, Main.setState, Main.call, Main.setWorld, Pc.states]

theorem exec_upTimeReportTimer (s : Main) (ans : Answers) :
    (exec s ans).upTimeReportTimer =
      if s.pc = .armReport then SwTimer.setTimeout s.clock.timers 5000
      else s.upTimeReportTimer := by
  cases hpc : s.pc <;> simp only [exec, hpc, reduceCtorEq, if_false, if_true] <;> repeat' split
  all_goals rfl

/-- `start` is the tick at which the report timer was first set. Between the
check of a report timer and its setting, nothing is known of the timer. -/
structure RateInv (start : Nat) (s : Main) : Prop where
  placed : s.placed
  period : s.clock.timers.msPerTick = msPerTick
  connectsPast : ∀ t ∈ s.times dials, t ≤ s.clock.elapsed
  reportsPast : ∀ t ∈ start :: s.times triggers, t ≤ s.clock.elapsed
  connects : Spaced 300 (s.times dials)
  reports : Spaced 500 (start :: s.times triggers)
  ready : s.ready → ∀ t ∈ s.times dials, t + 300 ≤ s.clock.elapsed
  waiting : s.waiting → s.clock.SetAfter s.errorTimer 3000 (s.times dials)
  armed : s.pc ≠ .armReport → s.clock.SetAfter s.upTimeReportTimer 5000 (start :: s.times triggers)

theorem rateInv_init (clock : Clock) : RateInv clock.elapsed (Main.init clock) where
  placed := (loopOk_init clock).placed
  period := rfl
  connectsPast := by simp [Main.times, Main.init]
  reportsPast := by simp [Main.times, Main.init]
  connects := List.Pairwise.nil
  reports := List.pairwise_singleton _ _
  ready := fun _ => by simp [Main.times, Main.init]
  waiting := by simp [Main.waiting, Main.init]
  armed := fun _ => setAfter_setTimeout 5000 (by simp [Main.times, Main.init])

theorem times_dials (ans : Answers) :
    (exec s ans).times dials =
      if s.pc = .netConnect then s.times dials ++ [s.clock.elapsed] else s.times dials := by
  rw [exec_times]
  by_cases hpc : s.pc = .netConnect
  · rw [if_pos ((issues_dials ans).mpr hpc), if_pos hpc]
  · rw [if_neg (fun h => hpc ((issues_dials ans).mp h)), if_neg hpc, List.append_nil]

theorem times_triggers (ans : Answers) :
    (exec s ans).times triggers =
      if s.pc = .testReport ∧ SwTimer.isTimedOut s.clock.timers s.upTimeReportTimer = true then
        s.times triggers ++ [s.clock.elapsed]
      else s.times triggers := by
  rw [exec_times]
  by_cases hout : s.pc = .testReport ∧
      SwTimer.isTimedOut s.clock.timers s.upTimeReportTimer = true
  · rw [if_pos ((issues_triggers ans).mpr hout), if_pos hout]
  · rw [if_neg (fun h => hout ((issues_triggers ans).mp h)), if_neg hout, List.append_nil]

namespace RateInv

theorem exec_connects (h : RateInv start s) (ans : Answers) :
    Spaced 300 ((exec s ans).times dials) ∧
      ∀ t ∈ (exec s ans).times dials, t ≤ s.clock.elapsed := by
  rw [times_dials]
  split
  · rename_i hpc
    have hw : s.runState = .waitIp := by
      have hplaced := h.placed
      simpa [Main.placed, hpc, Pc.states] using hplaced
    have hready : s.ready := .inr ⟨hw, by simp [hpc]⟩
    refine ⟨spaced_append_singleton.mpr ⟨h.connects, h.ready hready⟩, fun t ht => ?_⟩
    rcases List.mem_append.mp ht with ht | ht
    · exact h.connectsPast t ht
    · exact (List.mem_singleton.mp ht).le
  · exact ⟨h.connects, h.connectsPast⟩

theorem exec_reports (h : RateInv start s) (ans : Answers) :
    Spaced 500 (start :: (exec s ans).times triggers) ∧
      ∀ t ∈ start :: (exec s ans).times triggers, t ≤ s.clock.elapsed := by
  rw [times_triggers]
  split
  · rename_i hout
    have hset := h.armed (by simp [hout.1])
    have hfired : ∀ t ∈ start :: s.times triggers, t + 500 ≤ s.clock.elapsed :=
      hset.elapsed_of_isTimedOut h.period hout.2
    rw [← List.cons_append]
    refine ⟨spaced_append_singleton.mpr ⟨h.reports, hfired⟩, fun t ht => ?_⟩
    rcases List.mem_append.mp ht with ht | ht
    · exact h.reportsPast t ht
    · exact (List.mem_singleton.mp ht).le
  · exact ⟨h.reports, h.reportsPast⟩

theorem exec_rested (h : RateInv start s) (ans : Answers) (hr : (exec s ans).ready) :
    ∀ t ∈ (exec s ans).times dials, t + 300 ≤ s.clock.elapsed := by
  rcases exec_ready ans h.placed hr with ⟨hready, hpc⟩ | ⟨hwait, hout, hpc⟩
  · rw [times_dials, if_neg hpc]
    exact h.ready hready
  · rw [times_dials, if_neg (by simp [hpc])]
    exact (h.waiting hwait).elapsed_of_isTimedOut h.period hout

theorem exec_errorTimer (h : RateInv start s) (ans : Answers) (hw : (exec s ans).waiting) :
    s.clock.SetAfter (exec s ans).errorTimer 3000 ((exec s ans).times dials) := by
  rcases exec_waiting ans h.placed hw with ⟨hpc, htimer⟩ | ⟨hwait, hpc, htimer⟩
  · rw [times_dials, if_neg (by simp [hpc]), htimer]
    exact setAfter_setTimeout 3000 h.connectsPast
  · rw [times_dials, if_neg hpc, htimer]
    exact h.waiting hwait

theorem exec_reportTimer (h : RateInv start s) (ans : Answers)
    (hpc' : (exec s ans).pc ≠ .armReport) :
    s.clock.SetAfter (exec s ans).upTimeReportTimer 5000
      (start :: (exec s ans).times triggers) := by
  have hsilent : ¬(s.pc = .testReport ∧
      SwTimer.isTimedOut s.clock.timers s.upTimeReportTimer = true) := by
    rintro ⟨hpc, hout⟩
    exact hpc' (by simp [exec, hpc, hout, Main.call])
  rw [exec_upTimeReportTimer, times_triggers, if_neg hsilent]
  split
  · exact setAfter_setTimeout 5000 h.reportsPast
  · rename_i hpc
    exact h.armed hpc

theorem tick (h : RateInv start s) : RateInv start { s with clock := sysTickHandler s.clock } where
  placed := h.placed
  period := h.period
  connectsPast := fun t ht => (h.connectsPast t ht).trans (Nat.le_succ _)
  reportsPast := fun t ht => (h.reportsPast t ht).trans (Nat.le_succ _)
  connects := h.connects
  reports := h.reports
  ready := fun hr t ht => (h.ready hr t ht).trans (Nat.le_succ _)
  waiting := fun hw => (h.waiting hw).tick
  armed := fun hpc => (h.armed hpc).tick

theorem step (h : RateInv start s) {e : LoopEvent} (he : loopStep s e = some s') :
    RateInv start s' := by
  rcases loopStep_cases he with ⟨ans, _, rfl⟩ | ⟨_, net, clock, hclock, rfl⟩
  · have hc := exec_clock s ans
    obtain ⟨hconn, hconnPast⟩ := h.exec_connects ans
    obtain ⟨hrep, hrepPast⟩ := h.exec_reports ans
    exact {
      placed := exec_placed ans h.placed
      period := hc ▸ h.period
      connectsPast := hc ▸ hconnPast
      reportsPast := hc ▸ hrepPast
      connects := hconn
      reports := hrep
      ready := fun hr => hc ▸ h.exec_rested ans hr
      waiting := fun hw => hc ▸ h.exec_errorTimer ans hw
      armed := fun hpc => hc ▸ h.exec_reportTimer ans hpc }
  · rcases hclock with rfl | rfl
    · exact { h with }
    · exact { h.tick with }

end RateInv

/-- Attempts to connect are 3 s apart, and uptime reports are 5 s apart from
each other and from the start. -/
theorem rates_limited (clock : Clock) {es : List LoopEvent} {s : Main}
    (hr : Runs.run loopStep (Main.init clock) es = some s) :
    Spaced 300 (s.times dials) ∧ Spaced 500 (clock.elapsed :: s.times triggers) := by
  have h : RateInv clock.elapsed s :=
    Runs.run_invariant' (fun _ _ _ h he => RateInv.step h he) (rateInv_init clock) hr
  exact ⟨h.connects, h.reports⟩

def reportsAndReconnect : List MainEvent :=
  List.replicate 7 (MainEvent.exec { ipAddr := 1 }) ++ [MainEvent.lwip (.connected 0)] ++
    List.replicate 8 (MainEvent.exec {}) ++ [MainEvent.exec { err := .connected }] ++
      List.replicate 500 MainEvent.sysTick ++ List.replicate 11 (MainEvent.exec {}) ++
        List.replicate 500 MainEvent.sysTick ++ List.replicate 14 (MainEvent.exec { err := .other 1 }) ++
          List.replicate 300 MainEvent.sysTick ++ List.replicate 11 (MainEvent.exec { ipAddr := 1 })

/-- The counter of the timers wraps after 700 ticks. -/
theorem rates_limited_across_wrap :
    ∃ s : Main, Runs.run loopStep (Main.init { timers := { ticks := 4294966596 } })
        (reportsAndReconnect.map .main) = some s ∧
      s.times dials = [0, 1300] ∧ s.times triggers = [500, 1000] ∧
        Spaced 300 (s.times dials) ∧ Spaced 500 (0 :: s.times triggers) := by
  have hfacts : (Runs.run mainStep (Main.init { timers := { ticks := 4294966596 } })
      reportsAndReconnect).map (fun s => (s.times dials, s.times triggers)) =
        some ([0, 1300], [500, 1000]) := by
    decide +kernel
  obtain ⟨s, hs, hf⟩ := Option.map_eq_some_iff.mp hfacts
  obtain ⟨hdials, htriggers⟩ := Prod.mk.inj hf
  rw [← run_loopStep_main] at hs
  exact ⟨s, hs, hdials, htriggers, rates_limited _ hs⟩

end McuTest
