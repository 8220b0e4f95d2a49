import McuTest.Online

/-! No state of the loop is a dead end: from wherever it stands, it gets back to
its reports once net_Connect, lwIP and umqtt work. -/

namespace McuTest

open Progress

/-- lwIP has an address and does not lose the connection, and neither
`net_Connect` nor umqtt fails. -/
def Works (s : Main) : MainEvent → Prop
  | .exec ans =>
    (s.pc = .getIpAddr → ans.ipAddr ≠ 0) ∧
      (s.pc = .netConnect → ans.avail = true ∧ ans.connErr = .ok) ∧
        (s.pc = .umqttConnect ∨ s.pc = .umqttRun → ans.err = .ok)
  | .lwip le => le.loses = false
  | .transport _ | .sysTick => True

instance (s : Main) : (e : MainEvent) → Decidable (Works s e)
  | .exec ans =>
    inferInstanceAs (Decidable ((s.pc = .getIpAddr → ans.ipAddr ≠ 0) ∧
      (s.pc = .netConnect → ans.avail = true ∧ ans.connErr = .ok) ∧
        (s.pc = .umqttConnect ∨ s.pc = .umqttRun → ans.err = .ok)))
  | .lwip le => inferInstanceAs (Decidable (le.loses = false))
  | .transport _ | .sysTick => isTrue trivial

variable {s s' : Main} {e : MainEvent}

theorem Works.quiet (h : Works s e) : ∀ le, e = .lwip le → le.loses = false := by
  rintro le rfl
  exact h

theorem Works.losesNone (h : Works s e) : LosesNone s e :=
  fun le hle _ => h.quiet le hle

theorem Works.addressed (h : Works s e) : Addressed s e := by
  rintro ans rfl hpc
  exact h.1 hpc

theorem Works.runsOn (h : Works s e) : RunsOn s e := by
  cases e with
  | exec ans => exact fun hpc => h.2.2 (.inr hpc)
  | lwip le => exact h
  | transport te => trivial
  | sysTick => trivial

/-- After a `net_Connect` that succeeded. -/
def Main.underway (s : Main) : Prop :=
  s.runState = .waitIp ∧ (s.pc = .testRet ∧ s.ret = 0 ∨ s.pc = .setWaitNet) ∨
  s.runState = .waitNet ∧ (s.pc ∈ [.top, .dispatch, .testConnected, .umqttConnect, .setWaitMqtt] ∨
    s.pc = .testConnectErr ∧ s.err = .ok) ∨
  s.running

/-- A bound on the statements until `STATE_WAIT_MQTT`, once the connection is established. -/
def Main.toRun (s : Main) : Nat :=
  match s.pc with
  | .testRet => 8
  | .setWaitNet => 7
  | .top => if s.runState = .waitNet then 6 else 0
  | .dispatch => if s.runState = .waitNet then 5 else 0
  | .testConnected => 4
  | .umqttConnect => 3
  | .testConnectErr => 2
  | .setWaitMqtt => 1
  | _ => 0

structure Underway (s : Main) : Prop extends LoopOk s where
  calm : s.disconnected = false
  underway : s.underway

theorem exec_underway {ans : Answers} (hd : s.underway) (hcalm : s.disconnected = false)
    (hok : Works s (.exec ans)) (hpc : s.pc ≠ .publishUptime) :
    (exec s ans).underway ∧ (exec s ans).net = s.net ∧
      (s.world.inst.isConnected = true → ¬s.running → (exec s ans).toRun < s.toRun) := by
  rcases hd with hd | hd | hrun
  · obtain ⟨hr, ⟨hs, hret⟩ | hs⟩ := hd
    all_goals
      simp_all [exec, Main.underway, Main.toRun, Main.goto, Main.setState]
  · obtain ⟨_, _, herr⟩ := hok
    simp only [List.mem_cons, List.not_mem_nil, or_false] at hd
    obtain ⟨hr, (hs | hs | hs | hs | hs) | ⟨hs, herr'⟩⟩ := hd
    all_goals
      simp only [exec, hs]
      repeat' split
    all_goals
      simp_all [Main.underway, Main.running, Main.toRun, Main.goto, Main.setState, Main.call,
        Net.isConnected, Main.world]
  · obtain ⟨hnext, hnet, _⟩ := exec_running hrun hcalm hok.runsOn hpc
    exact ⟨.inr (.inr hnext), hnet, fun _ hno => absurd hrun hno⟩

theorem Underway.step (h : Underway s) (hpc : s.pc ≠ .publishUptime) (hok : Works s e)
    (he : mainStep s e = some s') : Underway s' := by
  have hloop := h.toLoopOk.step he
  rcases e.exec_or with ⟨ans, rfl⟩ | ⟨hno, _⟩
  · obtain ⟨_, rfl⟩ := mainStep_exec he
    obtain ⟨hnext, hnet, _⟩ := exec_underway h.underway h.calm hok hpc
    refine { hloop with calm := ?_, underway := hnext }
    rw [Main.disconnected, Main.world, hnet]
    exact h.calm
  · have hflag := disconnected_keeps h.toLoopOk he hno hok.quiet
    obtain ⟨net, clock, _, rfl⟩ := mainStep_interrupt he hno
    exact { hloop with calm := hflag.trans h.calm, underway := h.underway }

theorem Underway.running_of_toRun (h : Underway s) (hz : s.toRun = 0) : s.running := by
  rcases h.underway with hd | hd | hrun
  · obtain ⟨_, ⟨hs, _⟩ | hs⟩ := hd <;> simp [Main.toRun, hs] at hz
  · simp only [List.mem_cons, List.not_mem_nil, or_false] at hd
    obtain ⟨hr, (hs | hs | hs | hs | hs) | ⟨hs, _⟩⟩ := hd <;> simp [Main.toRun, hs, hr] at hz
  · exact hrun

theorem toRun_le (s : Main) : s.toRun ≤ 8 := by
  cases hs : s.pc <;> simp only [Main.toRun, hs] <;> (try split) <;> simp

theorem leads_run :
    Leads mainStep MainEvent.isExec Works 8
      (fun s => Underway s ∧ s.world.inst.isConnected = true)
      (fun s => Underway s ∧ s.running) := by
  apply leads_of_rank (fun s => Underway s ∧ s.world.inst.isConnected = true) Main.toRun
  · exact fun s h hzero => ⟨h.1, h.1.running_of_toRun hzero⟩
  · intro s e t h hq hok he
    obtain ⟨hunder, hlinked⟩ := h
    have hrun : ¬s.running := fun hrun => hq ⟨hunder, hrun⟩
    have hpc : s.pc ≠ .publishUptime := by
      rintro hs
      have hplaced := hunder.placed
      have hwhere := hunder.underway
      simp [Main.underway, Main.running, hs] at hwhere hrun
      tauto
    have hnext := hunder.step hpc hok he
    rcases e.exec_or with ⟨ans, rfl⟩ | ⟨hno, hcount⟩
    · obtain ⟨_, rfl⟩ := mainStep_exec he
      obtain ⟨_, hnet, hrank⟩ := exec_underway hunder.underway hunder.calm hok hpc
      refine ⟨⟨hnext, ?_⟩, hrank hlinked hrun⟩
      rw [Main.world, hnet]
      exact hlinked
    · have hkeep := linked_interrupt hunder.toLoopOk he hno hok.quiet hlinked
      obtain ⟨net, clock, _, rfl⟩ := mainStep_interrupt he hno
      rw [hcount]
      exact ⟨⟨hnext, hkeep⟩, Nat.le_refl _⟩
  · exact fun s h => ⟨h, toRun_le s⟩

variable {a start : Nat}

theorem Returning.dials (h : Returning a s) {ans : Answers} (hpc : s.pc = .netConnect)
    (hok : Works s (.exec ans)) (hnext : LoopOk (exec s ans)) : Underway (exec s ans) := by
  have hr : s.runState = .waitIp := by
    have hplaced := h.placed
    simpa [Main.placed, hpc, Pc.states] using hplaced
  have hidle : s.phase = .idle := by simp [Main.phase, hpc]
  have hzero : (exec s ans).ret = 0 := by
    have hret := (connect_ret s.world ans).1.mpr (hok.2.1 hpc)
    simpa [exec, hpc, Main.call, Main.setWorld] using hret
  have hcalm := h.quiet hidle
  refine { hnext with calm := ?_, underway := .inl ⟨?_, .inl ⟨?_, hzero⟩⟩ }
  · rw [Main.disconnected, exec_connect_app ans hpc]
    exact hcalm
  · simpa [exec, hpc, Main.call, Main.setWorld] using hr
  · simp [exec, hpc, Main.call]

/-- The way to `net_Connect` and from there on is not left before the report. -/
theorem settled_step (h : Returning a s ∨ Underway s) (hpc : s.pc ≠ .publishUptime)
    (hok : Works s e) (he : mainStep s e = some s') : Returning a s' ∨ Underway s' := by
  rcases h with h | h
  · by_cases hdial : s.pc = .netConnect
    · rcases e.exec_or with ⟨ans, rfl⟩ | ⟨hno, _⟩
      · have hnext := h.toLoopOk.step he
        obtain ⟨_, rfl⟩ := mainStep_exec he
        exact .inr (h.dials hdial hok hnext)
      · exact .inl (h.interrupt hok.losesNone he hno)
    · exact .inl (h.step hdial hok.losesNone he)
  · exact .inr (h.step hpc hok he)

/-- In `STATE_DELAY` with the flag set since its last test. -/
def Main.late (s : Main) : Prop :=
  s.runState = .delay ∧ s.disconnected = true ∧ s.pc ∈ [.testDelay, .dispatch, .testError, .setWaitIp]

/-- On the way to `net_Connect`, with no loss of a connection to be noticed. -/
def Main.away (s : Main) : Prop :=
  (s.phase = .idle ∨ s.phase = .closed) ∧ (s.phase = .idle → s.disconnected = false) ∧
    s.pc ≠ .armError

theorem whereabouts (h : s.placed) :
    s.failing ∨ s.pc = .armError ∨ s.late ∨ s.away ∨ s.disconnected = false ∧ s.underway := by
  unfold Main.placed at h
  cases hf : s.disconnected <;> cases hs : s.pc <;> rw [hs] at h
  all_goals
    simp only [Pc.states, List.mem_cons, List.not_mem_nil, or_false] at h
    simp only [Main.failing, Main.late, Main.away, Main.phase, Main.underway, Main.running, hs, hf]
    simp
  all_goals grind

/-- A bound on the statements until a set flag is tested or the delay is over. -/
def Main.toNotice (s : Main) : Nat :=
  match s.pc with
  | .testDelay => 4
  | .dispatch => 3
  | .testError => 2
  | .setWaitIp => 1
  | _ => 0

theorem toNotice_le (s : Main) : s.toNotice ≤ 4 := by
  cases hs : s.pc <;> simp [Main.toNotice, hs]

theorem exec_late (ans : Answers) (h : s.late) :
    ((exec s ans).late ∨ (exec s ans).failing ∨ (exec s ans).away) ∧
      (exec s ans).toNotice < s.toNotice := by
  obtain ⟨hr, hf, hs⟩ := h
  simp only [List.mem_cons, List.not_mem_nil, or_false] at hs
  rcases hs with hs | hs | hs | hs
  all_goals
    simp only [exec, hs]
    repeat' split
  all_goals
    simp_all [Main.late, Main.toNotice, Main.failing, Main.away, Main.phase, Main.goto,
      Main.setState, Main.disconnected, Main.world]

/-- What holds of the timers of the loop from the tick `start` of its beginning on. -/
structure Kept (start : Nat) (s : Main) : Prop extends LoopOk s where
  period : s.clock.timers.msPerTick = msPerTick
  past : start ≤ s.clock.elapsed
  armed : s.waiting → ∃ a, start ≤ a ∧ a ≤ s.clock.elapsed ∧ s.clock.Armed s.errorTimer 3000 a

theorem Kept.step (h : Kept start s) (he : mainStep s e = some s') : Kept start s' := by
  have hloop := h.toLoopOk.step he
  refine { hloop with
    period := period_step h.period he
    past := h.past.trans (mainStep_elapsed he)
    armed := fun hw => ?_ }
  rcases e.exec_or with ⟨ans, rfl⟩ | ⟨hno, _⟩
  · obtain ⟨_, rfl⟩ := mainStep_exec he
    rw [exec_clock]
    rcases exec_waiting ans h.placed hw with ⟨_, htimer⟩ | ⟨hwait, _, htimer⟩
    · rw [htimer]
      exact ⟨s.clock.elapsed, h.past, Nat.le_refl _, armed_setTimeout s.clock 3000⟩
    · rw [htimer]
      exact h.armed hwait
  · obtain ⟨net, clock, hclock, rfl⟩ := mainStep_interrupt he hno
    obtain ⟨a, hstart, hpast, harmed⟩ := h.armed hw
    rcases hclock with rfl | rfl
    · exact ⟨a, hstart, hpast, harmed⟩
    · exact ⟨a, hstart, hpast.trans (Nat.le_succ _), harmed.tick⟩

theorem kept_init (clock : Clock) : Kept clock.elapsed (Main.init clock) :=
  { loopOk_init clock with
    period := rfl
    past := Nat.le_refl _
    armed := fun hw => by simp [Main.waiting, Main.init] at hw }

theorem Kept.returning (h : Kept start s) (haway : s.away) : ∃ a, start ≤ a ∧ Returning a s := by
  obtain ⟨hphase, hquiet, hset⟩ := haway
  by_cases hw : s.waiting
  · obtain ⟨a, hstart, hpast, harmed⟩ := h.armed hw
    exact ⟨a, hstart, { h with
      away := hphase
      quiet := hquiet
      set := hset
      past := hpast
      armed := fun _ => harmed }⟩
  · exact ⟨s.clock.elapsed, h.past, { h with
      away := hphase
      quiet := hquiet
      set := hset
      past := Nat.le_refl _
      armed := fun hwait => absurd hwait hw }⟩

theorem Kept.closing (h : Kept start s) (hpc : s.pc = .netDisconnect ∨ s.pc = .armError) :
    Closing start s :=
  { h with at_ := hpc }

/-- On the way to `net_Connect` or past it. -/
def Settled (start : Nat) (s : Main) : Prop :=
  (∃ a, start ≤ a ∧ Returning a s) ∨ Underway s

theorem leads_notice :
    Leads mainStep MainEvent.isExec Works 4 (fun s => Kept start s ∧ s.late)
      (fun s => Kept start s ∧ (s.failing ∨ s.away)) := by
  apply leads_of_rank (fun s => Kept start s ∧ (s.late ∨ s.failing ∨ s.away)) Main.toNotice
  · rintro s ⟨hkept, ⟨hr, hf, hs⟩ | hdone⟩ hzero
    · simp only [List.mem_cons, List.not_mem_nil, or_false] at hs
      rcases hs with hs | hs | hs | hs <;> simp [Main.toNotice, hs] at hzero
    · exact ⟨hkept, hdone⟩
  · rintro s e t ⟨hkept, hplace⟩ hq hok he
    have hlate : s.late := hplace.resolve_right fun hdone => hq ⟨hkept, hdone⟩
    have hnext := hkept.step he
    rcases e.exec_or with ⟨ans, rfl⟩ | ⟨hno, hcount⟩
    · obtain ⟨_, rfl⟩ := mainStep_exec he
      obtain ⟨hplace, hrank⟩ := exec_late ans hlate
      exact ⟨⟨hnext, hplace⟩, hrank⟩
    · have hflag := disconnected_keeps hkept.toLoopOk he hno hok.quiet
      obtain ⟨net, clock, _, rfl⟩ := mainStep_interrupt he hno
      rw [hcount]
      exact ⟨⟨hnext, .inl ⟨hlate.1, hflag.trans hlate.2.1, hlate.2.2⟩⟩, Nat.le_refl _⟩
  · exact fun s h => ⟨⟨h.1, .inl h.2⟩, toNotice_le s⟩

theorem leads_settled_of_closing :
    Leads mainStep MainEvent.isExec Works 2
      (fun s => Kept start s ∧ (s.pc = .netDisconnect ∨ s.pc = .armError)) (Settled start) :=
  (leads_returning Works start).mono (fun _ h => h.1.closing h.2) (fun _ h => .inl h) (Nat.le_refl _)

theorem leads_settled_of_failing :
    Leads mainStep MainEvent.isExec Works 22 (fun s => Kept start s ∧ s.failing)
      (Settled start) := by
  have hdisconnect : Leads mainStep MainEvent.isExec Works 20 (fun s => Kept start s ∧ s.failing)
      (fun s => Kept start s ∧ (s.pc = .netDisconnect ∨ s.pc = .armError)) :=
    ((leads_disconnect Works).keeping (I := Kept start) fun _ _ _ h he => h.step he).mono
      (fun _ h => ⟨⟨h.1.toLoopOk, h.2⟩, h.1⟩) (fun _ h => ⟨h.2, .inl h.1⟩) (Nat.le_refl _)
  exact hdisconnect.trans leads_settled_of_closing

/-- Wherever the loop stands, 26 statements settle it. -/
theorem leads_settled : Leads mainStep MainEvent.isExec Works 26 (Kept start) (Settled start) := by
  have haway : Leads mainStep MainEvent.isExec Works 22 (fun s => Kept start s ∧ s.away)
      (Settled start) :=
    leads_of_imp fun _ h => .inl (h.1.returning h.2)
  have hlate : Leads mainStep MainEvent.isExec Works 26 (fun s => Kept start s ∧ s.late)
      (Settled start) := by
    have hnoticed : Leads mainStep MainEvent.isExec Works 22
        (fun s => Kept start s ∧ (s.failing ∨ s.away)) (Settled start) :=
      (leads_settled_of_failing.or haway).mono
        (fun s h => h.2.imp (And.intro h.1) (And.intro h.1)) (fun _ h => h) (Nat.le_refl _)
    exact leads_notice.trans hnoticed
  intro s t es hkept hok hr hn
  rcases whereabouts hkept.placed with hs | hs | hs | hs | hs
  · exact (leads_settled_of_failing s t es ⟨hkept, hs⟩ hok hr (by omega)).mono (fun _ h => h) (by omega)
  · exact (leads_settled_of_closing s t es ⟨hkept, .inr hs⟩ hok hr (by omega)).mono (fun _ h => h) (by omega)
  · exact hlate s t es ⟨hkept, hs⟩ hok hr hn
  · exact meets_here (.inl (hkept.returning hs))
  · exact meets_here (.inr { hkept with calm := hs.1, underway := hs.2 })

theorem leads_underway (a : Nat) :
    Leads mainStep MainEvent.isExec (fun s e => Works s e ∧ s.clock.elapsed < a + 2 ^ 32) 12
      (fun s => Returning a s ∧ a + 300 ≤ s.clock.elapsed) Underway := by
  have hok (s : Main) (e : MainEvent) (h : Works s e ∧ s.clock.elapsed < a + 2 ^ 32) :
      (LosesNone s e ∧ Addressed s e) ∧ s.clock.elapsed < a + 2 ^ 32 :=
    ⟨⟨h.1.losesNone, h.1.addressed⟩, h.2⟩
  have hdial := (leads_dial a).of_ok hok
  refine hdial.trans (m := 1) ?_
  apply leads_of_rank (fun s => Returning a s ∧ s.pc = .netConnect ∨ Underway s)
    fun s => if s.pc = .netConnect then 1 else 0
  · rintro s (⟨_, hpc⟩ | h) hzero
    · simp [hpc] at hzero
    · exact h
  · intro s e t h hq hok he
    obtain ⟨hret, hpc⟩ := h.resolve_right hq
    rcases e.exec_or with ⟨ans, rfl⟩ | ⟨hno, hcount⟩
    · have hnext := hret.toLoopOk.step he
      obtain ⟨_, rfl⟩ := mainStep_exec he
      have hleft : (exec s ans).pc ≠ .netConnect := by simp [exec, hpc, Main.call]
      refine ⟨.inr (hret.dials hpc hok.1 hnext), ?_⟩
      simp [hleft, hpc, MainEvent.isExec]
    · have hstay := hret.interrupt hok.1.losesNone he hno
      have hpc' : t.pc = .netConnect := (mainStep_control he hno).1.trans hpc
      refine ⟨.inl ⟨hstay, hpc'⟩, ?_⟩
      simp [hcount, hpc, hpc']
  · intro s h
    refine ⟨.inl h, ?_⟩
    simp [h.2]

/-- A run of at least so many statements and ticks. -/
structure Lasts (statements ticks : Nat) (s : Main) (es : List MainEvent) (t : Main) : Prop where
  run : Runs.run mainStep s es = some t
  statements : statements ≤ es.countP MainEvent.isExec
  ticks : s.clock.elapsed + ticks ≤ t.clock.elapsed

section Stages

variable {es es₁ es₂ es₃ : List MainEvent} {t t₁ t₂ t₃ : Main}

theorem settles (hkept : Kept start s) (h₁ : Lasts 26 0 s es₁ t₁) (h₂ : Lasts 0 300 t₁ es₂ t₂)
    (hok : Runs.AllSteps mainStep Works s (es₁ ++ es₂)) :
    ((∃ a, start ≤ a ∧ a + 300 ≤ t₂.clock.elapsed ∧ Returning a t₂) ∨ Underway t₂) ∨
      ComesBy mainStep (fun v => v.pc = .publishUptime) s (es₁ ++ es₂) := by
  obtain ⟨hok₁, hok₂⟩ := (allSteps_append h₁.run).mp hok
  have hsettled : Settled start t₁ ∨ ComesBy mainStep (fun v => v.pc = .publishUptime) s es₁ := by
    refine leads_settled.lasts ?_ hkept hok₁ h₁.run h₁.statements
    rintro u e v (⟨a, hstart, hret⟩ | hunder) hpc hok he
    · exact (settled_step (.inl hret) hpc hok he).imp_left fun h => ⟨a, hstart, h⟩
    · exact .inr (hunder.step hpc hok he)
  rcases hsettled with (⟨a, hstart, hret⟩ | hunder) | hcomes
  · have hstill : (Returning a t₂ ∨ Underway t₂) ∨
        ComesBy mainStep (fun v => v.pc = .publishUptime) t₁ es₂ :=
      stays_or_comesBy (fun _ _ _ h hpc hok he => settled_step h hpc hok he) (.inl hret) hok₂ h₂.run
    rcases hstill with (hret₂ | hunder) | hcomes
    · have hlow : a + 300 ≤ t₂.clock.elapsed := by
        have hpast := hret.past
        have hticks := h₂.ticks
        omega
      exact .inl (.inl ⟨a, hstart, hlow, hret₂⟩)
    · exact .inl (.inr hunder)
    · exact .inr (hcomes.after h₁.run)
  · have hstill := stays_or_comesBy (fun _ _ _ h hpc hok he => Underway.step h hpc hok he) hunder
      hok₂ h₂.run
    exact hstill.imp .inr fun hcomes => hcomes.after h₁.run
  · exact .inr (hcomes.append es₂)

theorem dials_again
    (h : (∃ a, start ≤ a ∧ a + 300 ≤ s.clock.elapsed ∧ Returning a s) ∨ Underway s)
    (hr : Lasts 12 0 s es t) (hok : Runs.AllSteps mainStep Works s es)
    (hwrap : t.clock.elapsed < start + 2 ^ 32) :
    Underway t ∨ ComesBy mainStep (fun v => v.pc = .publishUptime) s es := by
  rcases h with ⟨a, hstart, hlow, hret⟩ | hunder
  · have hsoon := allSteps_soon hr.run hok (a := a) (by omega)
    exact (leads_underway a).lasts (fun _ _ _ h hpc hok he => h.step hpc hok.1 he) ⟨hret, hlow⟩
      hsoon hr.run hr.statements
  · exact stays_or_comesBy (fun _ _ _ h hpc hok he => Underway.step h hpc hok he) hunder hok hr.run

theorem reports_again {clock : Clock}
    (hr : Runs.run mainStep (Main.init clock) es = some s) (hunder : Underway s)
    (hlinked : s.world.inst.isConnected = true) (h₁ : Lasts 8 0 s es₁ t₁)
    (h₂ : Lasts 0 500 t₁ es₂ t₂) (h₃ : Lasts 13 0 t₂ es₃ t₃)
    (hok : Runs.AllSteps mainStep Works s (es₁ ++ (es₂ ++ es₃)))
    (hwrap : t₃.clock.elapsed < clock.elapsed + 2 ^ 32) :
    ComesBy mainStep (fun v => v.pc = .publishUptime) s (es₁ ++ (es₂ ++ es₃)) := by
  obtain ⟨hok₁, hok'⟩ := (allSteps_append h₁.run).mp hok
  obtain ⟨hok₂, hok₃⟩ := (allSteps_append h₂.run).mp
    (allSteps_imp (fun _ _ h => Works.runsOn h) hok')
  have hruns : (Underway t₁ ∧ t₁.running) ∨
      ComesBy mainStep (fun v => v.pc = .publishUptime) s es₁ := by
    refine leads_run.lasts ?_ ⟨hunder, hlinked⟩ hok₁ h₁.run h₁.statements
    rintro u e v ⟨hu, hrun⟩ hpc hok he
    exact ⟨hu.step hpc hok he, (running_step hu.toLoopOk hrun hu.calm hpc hok.runsOn he).1⟩
  rcases hruns with ⟨hunder₁, hrun⟩ | hcomes
  · have hreach : Runs.run mainStep (Main.init clock) (es ++ es₁) = some t₁ := by
      rw [History.run_append, hr]
      exact h₁.run
    obtain ⟨a, hstart, hpast, hrunning⟩ := running_of_run hreach hrun hunder₁.calm
    have hwaits : Running a t₂ ∨ ComesBy mainStep (fun v => v.pc = .publishUptime) t₁ es₂ :=
      stays_or_comesBy (fun _ _ _ h hpc hok he => Running.step h hpc hok he) hrunning hok₂ h₂.run
    have hreport : ComesBy mainStep (fun v => v.pc = .publishUptime) t₁ (es₂ ++ es₃) := by
      rcases hwaits with hstill | hcomes
      · have hticks := h₂.ticks
        exact (leads_report_run hstill (by omega) h₃.run hok₃ h₃.statements (by omega)).after h₂.run
      · exact hcomes.append es₃
    exact hreport.after h₁.run
  · exact hcomes.append _

end Stages

/-- From any state it can get into, and whatever has happened before, the loop gets
to an uptime report once everything works. -/
theorem stabilizes (clock : Clock) {es es₁ es₂ es₃ es₄ es₅ es₆ : List MainEvent}
    {t₁ t₂ t₃ t₄ t₅ t₆ : Main} (hr : Runs.run mainStep (Main.init clock) es = some s)
    (h₁ : Lasts 26 0 s es₁ t₁) (h₂ : Lasts 0 300 t₁ es₂ t₂) (h₃ : Lasts 12 0 t₂ es₃ t₃)
    (hlinked : t₃.world.inst.isConnected = true) (h₄ : Lasts 8 0 t₃ es₄ t₄)
    (h₅ : Lasts 0 500 t₄ es₅ t₅) (h₆ : Lasts 13 0 t₅ es₆ t₆)
    (hok : Runs.AllSteps mainStep Works s ((es₁ ++ es₂) ++ (es₃ ++ (es₄ ++ (es₅ ++ es₆)))))
    (hwrap : t₆.clock.elapsed < clock.elapsed + 2 ^ 32) :
    ComesBy mainStep (fun v => v.pc = .publishUptime) s
      ((es₁ ++ es₂) ++ (es₃ ++ (es₄ ++ (es₅ ++ es₆)))) := by
  have hkept : Kept clock.elapsed s :=
    Runs.run_invariant' (fun _ _ _ h he => Kept.step h he) (kept_init clock) hr
  have hrun₂ : Runs.run mainStep s (es₁ ++ es₂) = some t₂ := by
    rw [History.run_append, h₁.run]
    exact h₂.run
  obtain ⟨hok₂, hok⟩ := (allSteps_append hrun₂).mp hok
  obtain ⟨hok₃, hok⟩ := (allSteps_append h₃.run).mp hok
  rcases settles hkept h₁ h₂ hok₂ with hsettled | hcomes
  · have hrest : t₃.clock.elapsed < clock.elapsed + 2 ^ 32 := by
      have h₄ := h₄.ticks
      have h₅ := h₅.ticks
      have h₆ := h₆.ticks
      omega
    rcases dials_again hsettled h₃ hok₃ hrest with hunder | hcomes
    · have hreach : Runs.run mainStep (Main.init clock) (es ++ ((es₁ ++ es₂) ++ es₃)) = some t₃ := by
        rw [History.run_append, hr, Option.bind_some, History.run_append, hrun₂]
        exact h₃.run
      exact ((reports_again hreach hunder hlinked h₄ h₅ h₆ hok hwrap).after h₃.run).after hrun₂
    · exact (hcomes.append _).after hrun₂
  · exact hcomes.append _

def redialSession : List MainEvent :=
  List.replicate 14 (MainEvent.exec { ipAddr := 1 }) ++ [MainEvent.lwip (.connected 1)]

/-- After the loss of a session: recovery, delay, a new session and its first report. -/
def againSession : List MainEvent :=
  (List.replicate 26 (.exec {}) ++ List.replicate 300 .sysTick) ++ (redialSession ++
    (List.replicate 8 (.exec {}) ++ (List.replicate 500 .sysTick ++ List.replicate 13 (.exec {}))))

theorem stabilizes_lost_session :
    ∃ s : Main, Runs.run mainStep (Main.init {}) lostSession = some s ∧
      ComesBy mainStep (fun v => v.pc = .publishUptime) s againSession := by
  have hfacts : (Runs.run mainStep (Main.init {}) lostSession).bind (fun s =>
      (Runs.run mainStep s (List.replicate 26 (.exec {}))).bind fun t₁ =>
      (Runs.run mainStep t₁ (List.replicate 300 .sysTick)).bind fun t₂ =>
      (Runs.run mainStep t₂ redialSession).bind fun t₃ =>
      (Runs.run mainStep t₃ (List.replicate 8 (.exec {}))).bind fun t₄ =>
      (Runs.run mainStep t₄ (List.replicate 500 .sysTick)).bind fun t₅ =>
      (Runs.run mainStep t₅ (List.replicate 13 (.exec {}))).map fun t₆ =>
        ((decide (Runs.AllSteps mainStep Works s againSession), t₃.world.inst.isConnected),
          [s, t₁, t₂, t₃, t₄, t₅, t₆].map fun t => t.clock.elapsed)) =
      some ((true, true), [0, 0, 300, 300, 300, 800, 800]) := by
    decide +kernel
  obtain ⟨s, hs, hf⟩ := Option.bind_eq_some_iff.mp hfacts
  obtain ⟨t₁, h₁, hf⟩ := Option.bind_eq_some_iff.mp hf
  obtain ⟨t₂, h₂, hf⟩ := Option.bind_eq_some_iff.mp hf
  obtain ⟨t₃, h₃, hf⟩ := Option.bind_eq_some_iff.mp hf
  obtain ⟨t₄, h₄, hf⟩ := Option.bind_eq_some_iff.mp hf
  obtain ⟨t₅, h₅, hf⟩ := Option.bind_eq_some_iff.mp hf
  obtain ⟨t₆, h₆, hf⟩ := Option.map_eq_some_iff.mp hf
  simp only [Prod.mk.injEq, decide_eq_true_eq, List.map_cons, List.map_nil, List.cons.injEq,
    and_true] at hf
  obtain ⟨⟨hok, hlinked⟩, hn, hn₁, hn₂, hn₃, hn₄, hn₅, hn₆⟩ := hf
  refine ⟨s, hs, ?_⟩
  exact stabilizes {} hs ⟨h₁, by decide, by omega⟩ ⟨h₂, Nat.zero_le _, by omega⟩
    ⟨h₃, by decide, by omega⟩ hlinked ⟨h₄, by decide, by omega⟩ ⟨h₅, Nat.zero_le _, by omega⟩
    ⟨h₆, by decide, by omega⟩ hok (by change t₆.clock.elapsed < 0 + 2 ^ 32; omega)

end McuTest
