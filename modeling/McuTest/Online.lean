import McuTest.PcbSlots
import McuTest.Recovery

/-! From a successful `net_Connect` to the announcement, as long as nothing fails. -/

namespace McuTest

open Progress

/-- Nothing fails: umqtt accepts what it is asked for and has the acknowledgement
of the broker, and lwIP does not lose the connection. -/
def Succeeds (s : Main) : MainEvent → Prop
  | .exec ans =>
    (s.pc = .umqttConnect ∨ s.pc = .umqttRun → ans.err = .ok) ∧
      (s.pc = .getConnectedStatus → ans.err = .connected)
  | .lwip le => le.loses = false
  | .transport _ | .sysTick => True

instance (s : Main) : (e : MainEvent) → Decidable (Succeeds s e)
  | .exec ans =>
    inferInstanceAs (Decidable ((s.pc = .umqttConnect ∨ s.pc = .umqttRun → ans.err = .ok) ∧
      (s.pc = .getConnectedStatus → ans.err = .connected)))
  | .lwip le => inferInstanceAs (Decidable (le.loses = false))
  | .transport _ | .sysTick => isTrue trivial

theorem Succeeds.quiet {s : Main} {e : MainEvent} (h : Succeeds s e) :
    ∀ le, e = .lwip le → le.loses = false := by
  rintro le rfl
  exact h

/-- Between the successful `net_Connect` and the announcement. -/
def Main.joining (s : Main) : Prop :=
  s.runState = .waitIp ∧ (s.pc = .testRet ∧ s.ret = 0 ∨ s.pc = .setWaitNet) ∨
  s.runState = .waitNet ∧ (s.pc ∈ [.top, .dispatch, .testConnected, .umqttConnect, .setWaitMqtt] ∨
    s.pc = .testConnectErr ∧ s.err = .ok) ∨
  s.runState = .waitMqtt ∧ (s.pc ∈ [.top, .dispatch, .getConnectedStatus, .testStatus, .setRunMqtt,
    .umqttRun, .testReport, .armReport, .publishUptime] ∨ s.pc = .testRunErr ∧ s.err = .ok) ∨
  s.runState = .runMqtt ∧ s.pc ∈ [.umqttSubscribe, .publishStatus, .publishMac, .publishIp]

/-- A bound on the statements until the last message of the announcement. -/
def Main.toAnnounce (s : Main) : Nat :=
  match s.pc with
  | .testRet => 16
  | .setWaitNet => 15
  | .top => if s.runState = .waitNet then 14 else 8
  | .dispatch => if s.runState = .waitNet then 13 else 7
  | .testConnected => 12
  | .umqttConnect => 11
  | .testConnectErr => 10
  | .setWaitMqtt => 9
  | .getConnectedStatus => 6
  | .testStatus => if s.err = .connected then 5 else 15
  | .setRunMqtt => 4
  | .umqttSubscribe => 3
  | .publishStatus => 2
  | .publishMac => 1
  | .publishIp => 0
  | .umqttRun => 14
  | .testRunErr => 13
  | .testReport => 12
  | .armReport => 11
  | .publishUptime => 10
  | _ => 16

variable {s s' : Main}

theorem exec_joining {ans : Answers} (hj : s.joining) (hcalm : s.disconnected = false)
    (hok : Succeeds s (.exec ans)) (hpc : s.pc ≠ .publishIp) :
    (exec s ans).joining ∧ (exec s ans).net = s.net ∧
      (s.world.inst.isConnected = true → (exec s ans).toAnnounce < s.toAnnounce) := by
  obtain ⟨hrun, hstatus⟩ := hok
  simp only [Main.joining, List.mem_cons, List.not_mem_nil, or_false] at hj
  rcases hj with ⟨hr, ⟨hs, hret⟩ | hs⟩ | ⟨hr, (hs | hs | hs | hs | hs) | ⟨hs, herr⟩⟩ |
    ⟨hr, (hs | hs | hs | hs | hs | hs | hs | hs | hs) | ⟨hs, herr⟩⟩ | ⟨hr, hs | hs | hs | hs⟩
  all_goals
    simp only [exec, hs]
    repeat' split
  all_goals
    simp_all [Main.joining, Main.toAnnounce, Main.goto, Main.setState, Main.call, Net.isConnected,
      Main.world]

/-- The connection is not lost, and the loop is on its way to the announcement. -/
structure Joining (s : Main) : Prop extends LoopOk s where
  calm : s.disconnected = false
  joining : s.joining

theorem disconnected_keeps (h : LoopOk s) {e : MainEvent} (he : mainStep s e = some s')
    (hno : ∀ ans, e ≠ .exec ans) (hl : ∀ le, e = .lwip le → le.loses = false) :
    s'.disconnected = s.disconnected := by
  rcases control_step h he with ⟨ans, rfl, _⟩ | ⟨le, rfl, hlost, _⟩ | hsame
  · exact absurd rfl (hno ans)
  · simp [hl le rfl] at hlost
  · exact congrArg Control.flag hsame

theorem Joining.step (h : Joining s) (hpc : s.pc ≠ .publishIp) {e : MainEvent}
    (hok : Succeeds s e) (he : mainStep s e = some s') : Joining s' := by
  have hloop := h.toLoopOk.step he
  rcases e.exec_or with ⟨ans, rfl⟩ | ⟨hno, _⟩
  · obtain ⟨_, rfl⟩ := mainStep_exec he
    obtain ⟨hnext, hnet, _⟩ := exec_joining h.joining h.calm hok hpc
    refine { hloop with calm := ?_, joining := hnext }
    rw [Main.disconnected, Main.world, hnet]
    exact h.calm
  · have hflag := disconnected_keeps h.toLoopOk he hno hok.quiet
    obtain ⟨net, clock, _, rfl⟩ := mainStep_interrupt he hno
    exact { hloop with calm := hflag.trans h.calm, joining := h.joining }

theorem linked_interrupt (h : LoopOk s) {e : MainEvent} (he : mainStep s e = some s')
    (hno : ∀ ans, e ≠ .exec ans) (hl : ∀ le, e = .lwip le → le.loses = false)
    (hlinked : s.world.inst.isConnected = true) : s'.world.inst.isConnected = true := by
  rcases mainStep_world he with ⟨d, hd, hnet⟩ | ⟨_, hinst, _⟩
  · rw [(netStep_pcbs (by decide) h.netOk hnet 0).2]
    cases drives_of_netEvent he hd with
    | connect ans => exact absurd rfl (hno ans)
    | disconnect ans => exact absurd rfl (hno ans)
    | write => exact hlinked
    | read => exact hlinked
    | lwip le =>
      have hkept := hl le rfl
      cases le <;> simp_all [World.isConnectedAfter, LwipEvent.loses]
  · rw [hinst]
    exact hlinked

theorem toAnnounce_eq_zero (h : s.toAnnounce = 0) : s.pc = .publishIp := by
  cases hs : s.pc <;> simp only [Main.toAnnounce, hs] at h
  case publishIp => rfl
  all_goals
    (try split at h) <;> simp at h

theorem toAnnounce_le (s : Main) : s.toAnnounce ≤ 16 := by
  cases hs : s.pc <;> simp only [Main.toAnnounce, hs] <;> (try split) <;> simp

theorem leads_announce :
    Leads mainStep MainEvent.isExec Succeeds 16
      (fun s => Joining s ∧ s.world.inst.isConnected = true) (fun s => s.pc = .publishIp) := by
  apply leads_of_rank (fun s => Joining s ∧ s.world.inst.isConnected = true) Main.toAnnounce
  · exact fun s _ hzero => toAnnounce_eq_zero hzero
  · intro s e t h hpc hok he
    obtain ⟨hjoining, hlinked⟩ := h
    have hnext := hjoining.step hpc hok he
    rcases e.exec_or with ⟨ans, rfl⟩ | ⟨hno, hcount⟩
    · obtain ⟨_, rfl⟩ := mainStep_exec he
      obtain ⟨_, hnet, hrank⟩ := exec_joining hjoining.joining hjoining.calm hok hpc
      refine ⟨⟨hnext, ?_⟩, hrank hlinked⟩
      rw [Main.world, hnet]
      exact hlinked
    · have hkeep := linked_interrupt hjoining.toLoopOk he hno hok.quiet hlinked
      obtain ⟨net, clock, _, rfl⟩ := mainStep_interrupt he hno
      rw [hcount]
      exact ⟨⟨hnext, hkeep⟩, Nat.le_refl _⟩
  · exact fun s h => ⟨h, toAnnounce_le s⟩

/-- A connection that lwIP establishes and nothing disturbs is announced, whether
or not the loop has asked for it in the meantime. -/
theorem goes_online (clock : Clock) {es es₁ es₂ : List MainEvent} {t₁ t₂ : Main}
    (hr : Runs.run mainStep (Main.init clock) es = some s) (hj : s.joining)
    (hcalm : s.disconnected = false) (h₁ : Runs.run mainStep s es₁ = some t₁)
    (hlinked : t₁.world.inst.isConnected = true) (h₂ : Runs.run mainStep t₁ es₂ = some t₂)
    (hok : Runs.AllSteps mainStep Succeeds s (es₁ ++ es₂)) (hn : 16 ≤ es₂.countP MainEvent.isExec) :
    ComesBy mainStep (fun v => v.pc = .publishIp) s (es₁ ++ es₂) := by
  obtain ⟨hok₁, hok₂⟩ := (allSteps_append h₁).mp hok
  have hstart : Joining s := { loopOk_run hr with calm := hcalm, joining := hj }
  have hwaits : Joining t₁ ∨ ComesBy mainStep (fun v => v.pc = .publishIp) s es₁ :=
    stays_or_comesBy (fun _ _ _ h hpc hok he => Joining.step h hpc hok he) hstart hok₁ h₁
  rcases hwaits with hjoining | hcomes
  · exact (leads_announce t₁ t₂ es₂ ⟨hjoining, hlinked⟩ hok₂ h₂ hn).comesBy.after h₁
  · exact hcomes.append es₂

def dialedSession : List MainEvent :=
  List.replicate 5 (MainEvent.exec { ipAddr := 1 })

def establishedSession : List MainEvent :=
  [MainEvent.exec {}, MainEvent.exec {}, MainEvent.lwip (.connected 0)]

def greetedSession : List MainEvent :=
  List.replicate 8 (MainEvent.exec {}) ++ MainEvent.exec { err := .connected } ::
    List.replicate 7 (MainEvent.exec {})

theorem goes_online_first :
    ∃ s : Main, Runs.run mainStep (Main.init {}) dialedSession = some s ∧ s.joining ∧
      ComesBy mainStep (fun v => v.pc = .publishIp) s (establishedSession ++ greetedSession) := by
  have hfacts : (Runs.run mainStep (Main.init {}) dialedSession).bind (fun s =>
      (Runs.run mainStep s establishedSession).bind fun t₁ =>
        (Runs.run mainStep t₁ greetedSession).map fun _ =>
          (s.runState, s.pc, s.ret, s.disconnected, t₁.world.inst.isConnected)) =
      some (.waitIp, .testRet, 0, false, true) := by
    decide +kernel
  have hok : Runs.AllSteps mainStep Succeeds (Main.init {})
      (dialedSession ++ (establishedSession ++ greetedSession)) := by
    decide +kernel
  obtain ⟨s, hs, hf⟩ := Option.bind_eq_some_iff.mp hfacts
  obtain ⟨t₁, h₁, hf⟩ := Option.bind_eq_some_iff.mp hf
  obtain ⟨t₂, h₂, hf⟩ := Option.map_eq_some_iff.mp hf
  simp only [Prod.mk.injEq] at hf
  obtain ⟨hstate, hpc, hret, hcalm, hlinked⟩ := hf
  have hjoining : s.joining := .inl ⟨hstate, .inl ⟨hpc, hret⟩⟩
  refine ⟨s, hs, hjoining, ?_⟩
  exact goes_online {} hs hjoining hcalm h₁ hlinked h₂ ((allSteps_append hs).mp hok).2 (by decide)

/-- `STATE_WAIT_MQTT` and `STATE_RUN_MQTT`, as long as umqtt reports no error. -/
def Main.running (s : Main) : Prop :=
  s.runState = .waitMqtt ∧ s.pc ∈ [.top, .dispatch, .getConnectedStatus, .testStatus, .setRunMqtt] ∨
  s.runState = .runMqtt ∧
    s.pc ∈ [.top, .dispatch, .umqttSubscribe, .publishStatus, .publishMac, .publishIp] ∨
  (s.runState = .waitMqtt ∨ s.runState = .runMqtt) ∧
    (s.pc ∈ [.umqttRun, .testReport, .armReport, .publishUptime] ∨
      s.pc = .testRunErr ∧ s.err = .ok)

/-- A bound on the statements until the next uptime report, once its timer has expired. -/
def Main.toReport (s : Main) : Nat :=
  match s.pc with
  | .top => if s.runState = .waitMqtt then 13 else 6
  | .dispatch => if s.runState = .waitMqtt then 12 else 5
  | .getConnectedStatus => 11
  | .testStatus => 10
  | .setRunMqtt => 9
  | .umqttSubscribe => 8
  | .publishStatus => 7
  | .publishMac => 6
  | .publishIp => 5
  | .umqttRun => 4
  | .testRunErr => 3
  | .testReport => 2
  | .armReport => 1
  | _ => 0

/-- umqtt runs without an error, and lwIP does not lose the connection. -/
def RunsOn (s : Main) : MainEvent → Prop
  | .exec ans => s.pc = .umqttRun → ans.err = .ok
  | .lwip le => le.loses = false
  | .transport _ | .sysTick => True

instance (s : Main) : (e : MainEvent) → Decidable (RunsOn s e)
  | .exec ans => inferInstanceAs (Decidable (s.pc = .umqttRun → ans.err = .ok))
  | .lwip le => inferInstanceAs (Decidable (le.loses = false))
  | .transport _ | .sysTick => isTrue trivial

theorem RunsOn.quiet {e : MainEvent} (h : RunsOn s e) : ∀ le, e = .lwip le → le.loses = false := by
  rintro le rfl
  exact h

theorem exec_running {ans : Answers} (hj : s.running) (hcalm : s.disconnected = false)
    (hok : RunsOn s (.exec ans)) (hpc : s.pc ≠ .publishUptime) :
    (exec s ans).running ∧ (exec s ans).net = s.net ∧
      ((s.pc = .testReport → SwTimer.isTimedOut s.clock.timers s.upTimeReportTimer = true) →
        (exec s ans).toReport < s.toReport) := by
  simp only [Main.running, List.mem_cons, List.not_mem_nil, or_false] at hj
  rcases hj with ⟨hr, hs | hs | hs | hs | hs⟩ | ⟨hr, hs | hs | hs | hs | hs | hs⟩ |
    ⟨hr | hr, (hs | hs | hs | hs) | ⟨hs, herr⟩⟩
  all_goals
    simp only [exec, hs]
    repeat' split
  all_goals
    simp_all [Main.running, Main.toReport, Main.goto, Main.setState, Main.call, RunsOn]

theorem running_step (h : LoopOk s) (hrun : s.running) (hcalm : s.disconnected = false)
    (hpc : s.pc ≠ .publishUptime) {e : MainEvent} (hok : RunsOn s e)
    (he : mainStep s e = some s') : s'.running ∧ s'.disconnected = false := by
  rcases e.exec_or with ⟨ans, rfl⟩ | ⟨hno, _⟩
  · obtain ⟨_, rfl⟩ := mainStep_exec he
    obtain ⟨hnext, hnet, _⟩ := exec_running hrun hcalm hok hpc
    refine ⟨hnext, ?_⟩
    rw [Main.disconnected, Main.world, hnet]
    exact hcalm
  · have hflag := disconnected_keeps h he hno hok.quiet
    obtain ⟨net, clock, _, rfl⟩ := mainStep_interrupt he hno
    exact ⟨hrun, hflag.trans hcalm⟩

/-- Where it is not just being set, the report timer was set at the tick `a`. -/
structure Running (a : Nat) (s : Main) : Prop extends LoopOk s where
  calm : s.disconnected = false
  running : s.running
  period : s.clock.timers.msPerTick = msPerTick
  armed : s.pc ≠ .armReport → s.pc ≠ .publishUptime → s.clock.Armed s.upTimeReportTimer 5000 a

theorem Running.step {a : Nat} (h : Running a s) (hpc : s.pc ≠ .publishUptime) {e : MainEvent}
    (hok : RunsOn s e) (he : mainStep s e = some s') : Running a s' := by
  have hloop := h.toLoopOk.step he
  obtain ⟨hnext, hcalm⟩ := running_step h.toLoopOk h.running h.calm hpc hok he
  refine { hloop with
    calm := hcalm
    running := hnext
    period := period_step h.period he
    armed := fun hset hout => ?_ }
  rcases e.exec_or with ⟨ans, rfl⟩ | ⟨hno, _⟩
  · obtain ⟨_, rfl⟩ := mainStep_exec he
    have harm : s.pc ≠ .armReport := fun hs => hout (by simp [exec, hs])
    rw [exec_upTimeReportTimer, if_neg harm, exec_clock]
    exact h.armed harm hpc
  · obtain ⟨net, clock, hclock, rfl⟩ := mainStep_interrupt he hno
    rcases hclock with rfl | rfl
    · exact h.armed hset hout
    · exact (h.armed hset hout).tick

theorem Running.toReport_eq_zero {a : Nat} (h : Running a s) (hz : s.toReport = 0) :
    s.pc = .publishUptime := by
  have hrun := h.running
  simp only [Main.running, List.mem_cons, List.not_mem_nil, or_false] at hrun
  rcases hrun with ⟨hr, hs | hs | hs | hs | hs⟩ | ⟨hr, hs | hs | hs | hs | hs | hs⟩ |
    ⟨_, (hs | hs | hs | hs) | ⟨hs, _⟩⟩
  all_goals
    simp_all [Main.toReport]

theorem toReport_le (s : Main) : s.toReport ≤ 13 := by
  cases hs : s.pc <;> simp only [Main.toReport, hs] <;> (try split) <;> simp

theorem leads_report (a : Nat) :
    Leads mainStep MainEvent.isExec (fun s e => RunsOn s e ∧ s.clock.elapsed < a + 2 ^ 32) 13
      (fun s => Running a s ∧ a + 500 ≤ s.clock.elapsed) (fun s => s.pc = .publishUptime) := by
  apply leads_of_rank (fun s => Running a s ∧ a + 500 ≤ s.clock.elapsed) Main.toReport
  · exact fun s h hzero => h.1.toReport_eq_zero hzero
  · intro s e t h hpc hok he
    obtain ⟨hrun, hlow⟩ := h
    have hnext := hrun.step hpc hok.1 he
    refine ⟨⟨hnext, hlow.trans (mainStep_elapsed he)⟩, ?_⟩
    rcases e.exec_or with ⟨ans, rfl⟩ | ⟨hno, hcount⟩
    · obtain ⟨_, rfl⟩ := mainStep_exec he
      refine (exec_running hrun.running hrun.calm hok.1 hpc).2.2 fun htest => ?_
      have harmed := hrun.armed (by simp [htest]) hpc
      exact harmed.isTimedOut hrun.period hlow hok.2
    · obtain ⟨net, clock, _, rfl⟩ := mainStep_interrupt he hno
      rw [hcount]
      exact Nat.le_refl _
  · exact fun s h => ⟨h, toReport_le s⟩

/-- The report timer runs from the start of the loop on. -/
theorem running_of_run {clock : Clock} {es : List MainEvent}
    (hr : Runs.run mainStep (Main.init clock) es = some s) (hrun : s.running)
    (hcalm : s.disconnected = false) :
    ∃ a, clock.elapsed ≤ a ∧ a ≤ s.clock.elapsed ∧ Running a s := by
  have hloop := loopOk_run hr
  rw [← run_loopStep_main] at hr
  have hrate : RateInv clock.elapsed s :=
    Runs.run_invariant' (fun _ _ _ h he => RateInv.step h he) (rateInv_init clock) hr
  by_cases hpc : s.pc = .armReport
  · have hpast := hrate.reportsPast clock.elapsed (by simp)
    exact ⟨clock.elapsed, Nat.le_refl _, hpast, { hloop with
      calm := hcalm
      running := hrun
      period := hrate.period
      armed := fun hne => absurd hpc hne }⟩
  · obtain ⟨a, harmed, hle⟩ := hrate.armed hpc
    have hpast : a ≤ s.clock.elapsed := by
      obtain ⟨_, n, _, _, he⟩ := harmed
      omega
    exact ⟨a, hle _ (by simp), hpast, { hloop with
      calm := hcalm
      running := hrun
      period := hrate.period
      armed := fun _ _ => harmed }⟩

theorem leads_report_run {a : Nat} {es : List MainEvent} {t : Main} (h : Running a s)
    (hlow : a + 500 ≤ s.clock.elapsed) (hr : Runs.run mainStep s es = some t)
    (hok : Runs.AllSteps mainStep RunsOn s es) (hn : 13 ≤ es.countP MainEvent.isExec)
    (hwrap : t.clock.elapsed < a + 2 ^ 32) :
    ComesBy mainStep (fun v => v.pc = .publishUptime) s es := by
  have hsoon := allSteps_soon hr hok hwrap
  exact (leads_report a s t es ⟨h, hlow⟩ hsoon hr hn).comesBy

/-- As long as nothing fails an uptime report is made at the latest 13 statements
after 500 ticks have gone by. -/
theorem reports_due (clock : Clock) {es es₁ es₂ : List MainEvent} {t₁ t₂ : Main}
    (hr : Runs.run mainStep (Main.init clock) es = some s) (hrun : s.running)
    (hcalm : s.disconnected = false) (h₁ : Runs.run mainStep s es₁ = some t₁)
    (h₂ : Runs.run mainStep t₁ es₂ = some t₂) (hok : Runs.AllSteps mainStep RunsOn s (es₁ ++ es₂))
    (hn₁ : s.clock.elapsed + 500 ≤ t₁.clock.elapsed) (hn₂ : 13 ≤ es₂.countP MainEvent.isExec)
    (hwrap : t₂.clock.elapsed < clock.elapsed + 2 ^ 32) :
    ComesBy mainStep (fun v => v.pc = .publishUptime) s (es₁ ++ es₂) := by
  obtain ⟨hok₁, hok₂⟩ := (allSteps_append h₁).mp hok
  obtain ⟨a, hlow, hhigh, hrunning⟩ := running_of_run hr hrun hcalm
  have hwaits : Running a t₁ ∨ ComesBy mainStep (fun v => v.pc = .publishUptime) s es₁ :=
    stays_or_comesBy (fun _ _ _ h hpc hok he => Running.step h hpc hok he) hrunning hok₁ h₁
  rcases hwaits with hstill | hcomes
  · exact (leads_report_run hstill (by omega) h₂ hok₂ hn₂ (by omega)).after h₁
  · exact hcomes.append es₂

def runningSession : List MainEvent :=
  dialedSession ++ (establishedSession ++ greetedSession)

theorem reports_due_first :
    ∃ s : Main, Runs.run mainStep (Main.init {}) runningSession = some s ∧ s.running ∧
      ComesBy mainStep (fun v => v.pc = .publishUptime) s
        (List.replicate 500 .sysTick ++ List.replicate 13 (.exec {})) := by
  have hfacts : (Runs.run mainStep (Main.init {}) runningSession).bind (fun s =>
      (Runs.run mainStep s (List.replicate 500 .sysTick)).bind fun t₁ =>
        (Runs.run mainStep t₁ (List.replicate 13 (.exec {}))).map fun t₂ =>
          ((s.runState, s.pc, s.err, s.disconnected),
            s.clock.elapsed, t₁.clock.elapsed, t₂.clock.elapsed)) =
      some ((.runMqtt, .testRunErr, .ok, false), 0, 500, 500) := by
    decide +kernel
  have hok : Runs.AllSteps mainStep RunsOn (Main.init {}) (runningSession ++
      (List.replicate 500 MainEvent.sysTick ++ List.replicate 13 (MainEvent.exec {}))) := by
    decide +kernel
  obtain ⟨s, hs, hf⟩ := Option.bind_eq_some_iff.mp hfacts
  obtain ⟨t₁, h₁, hf⟩ := Option.bind_eq_some_iff.mp hf
  obtain ⟨t₂, h₂, hf⟩ := Option.map_eq_some_iff.mp hf
  simp only [Prod.mk.injEq] at hf
  obtain ⟨⟨hstate, hpc, herr, hcalm⟩, hn, hn₁, hn₂⟩ := hf
  have hrun : s.running := .inr (.inr ⟨.inr hstate, .inr ⟨hpc, herr⟩⟩)
  refine ⟨s, hs, hrun, ?_⟩
  exact reports_due {} hs hrun hcalm h₁ h₂ ((allSteps_append hs).mp hok).2 (by omega) (by decide)
    (by change t₂.clock.elapsed < 0 + 2 ^ 32; omega)

end McuTest
