import McuTest.CallProtocol

/-! Publishing against the MQTT session. `STATE_WAIT_MQTT` falls through into
the uptime report, and an error of `umqtt_Run` does not skip it. -/

namespace McuTest

open History Lifetime MainCall

/-- Since the last successful `umqtt_Connect` umqtt has said that it is
connected, there has been no `umqtt_Disconnect`, and `umqtt_Run` has not failed. -/
def Working (calls : List MainCall) : Prop :=
  ∃ mid, since joins calls = some (.umqttConnect .ok, mid) ∧
    .umqttGetConnectedStatus .connected ∈ mid ∧ .umqttDisconnect ∉ mid ∧
      ∀ ms err, .umqttRun ms err ∈ mid → err = .ok

def MainCall.publishes : MainCall → Bool
  | .umqttPublish _ | .reportTimedOut => true
  | _ => false

/-- umqtt publishes, and the loop consumes an uptime report, only in a session
that works. -/
def PublishesInSession (calls : List MainCall) : Prop :=
  Throughout (fun pre c => publishes c = true → Working pre) calls

/-- A check of the report timer that comes out true is made in `STATE_RUN_MQTT`. -/
def ReportsWhenRunning (s : Main) : LoopEvent → Prop
  | .main (.exec _) =>
    s.pc = .testReport → SwTimer.isTimedOut s.clock.timers s.upTimeReportTimer = true →
      s.runState = .runMqtt
  | _ => True

instance (s : Main) : (e : LoopEvent) → Decidable (ReportsWhenRunning s e)
  | .main (.exec _) =>
    inferInstanceAs (Decidable (s.pc = .testReport →
      SwTimer.isTimedOut s.clock.timers s.upTimeReportTimer = true → s.runState = .runMqtt))
  | .main (.transport _) | .main (.lwip _) | .main .sysTick | .network _ => isTrue trivial

variable {s s' : Main} {calls mid : List MainCall} {q : Session}

theorem any_fails : mid.any fails = false ↔ ∀ ms err, .umqttRun ms err ∈ mid → err = .ok := by
  rw [List.any_eq_false]
  constructor
  · intro h ms err hm
    simpa [fails] using h _ hm
  · intro h c hc
    cases c <;> simp [fails]
    exact h _ _ hc

theorem OpenSession.working_iff {g f : Bool} {n : Nat} (h : OpenSession g n f calls) :
    Working calls ↔ g = true ∧ f = false := by
  obtain ⟨mid, hs, hd, rfl, _, rfl⟩ := h
  rw [any_greets, any_fails]
  constructor
  · rintro ⟨mid', hs', hg, _, hf⟩
    obtain rfl := (Prod.mk.inj (Option.some.inj (hs.symm.trans hs'))).2
    exact ⟨hg, hf⟩
  · rintro ⟨hg, hf⟩
    exact ⟨mid, hs, hg, hd, hf⟩

theorem Working.append (h : Working calls) : Working (calls ++ [.reportTimedOut]) := by
  obtain ⟨mid, hs, hg, hd, hf⟩ := h
  exact ⟨mid ++ [.reportTimedOut], by simp [hs, joins], by simp [hg], by simp [hd], by simpa using hf⟩

theorem working_reporting (h : q.Remembers calls) (hr : s.runState ∈ Pc.testReport.states)
    (hq : q ∈ if s.runState = .recovery then [.lost] else s.runState.sessions) :
    Working calls ↔ s.runState = .runMqtt := by
  simp only [Pc.states, List.mem_cons, List.not_mem_nil, or_false] at hr
  rcases hr with hr | hr | hr <;> simp [hr, AppState.sessions] at hq <;> subst q
  · rw [OpenSession.working_iff h, hr]
    simp
  · rw [OpenSession.working_iff h, hr]
    simp
  · obtain ⟨g, h⟩ := h
    rw [h.working_iff, hr]
    simp

structure SessionInv (s : Main) : Prop extends CallsOk s where
  reporting : s.pc = .armReport ∨ s.pc = .publishUptime →
    ∃ pre, s.called = pre ++ [.reportTimedOut]

theorem sessionInv_init (clock : Clock) : SessionInv (Main.init clock) :=
  { callsOk_init clock with reporting := by simp [Main.init] }

theorem exec_reporting (ans : Answers)
    (hpc : (exec s ans).pc = .armReport ∨ (exec s ans).pc = .publishUptime) :
    s.pc = .testReport ∧ (exec s ans).called = s.called ++ [.reportTimedOut] ∨
      s.pc = .armReport ∧ (exec s ans).called = s.called := by
  rw [exec_called]
  cases hs : s.pc <;> simp only [exec, hs] at hpc <;> simp only [Main.issues, hs]
  case testReport =>
    split at hpc
    · rename_i hout
      exact .inl ⟨trivial, by rw [if_pos hout]; rfl⟩
    · simp [Main.goto] at hpc
  case armReport => exact .inr ⟨trivial, List.append_nil _⟩
  all_goals
    repeat' split at hpc
    all_goals simp [Main.goto, Main.setState, Main.call, Main.setWorld] at hpc

theorem SessionInv.step (h : SessionInv s) {e : LoopEvent} (he : loopStep s e = some s') :
    SessionInv s' := by
  refine ⟨h.toCallsOk.step he, ?_⟩
  rcases loopStep_cases he with ⟨ans, _, rfl⟩ | ⟨_, net, clock, _, rfl⟩
  · intro hpc
    rcases exec_reporting ans hpc with ⟨_, hcalled⟩ | ⟨hs, hcalled⟩
    · exact ⟨s.called, hcalled⟩
    · rw [hcalled]
      exact h.reporting (.inl hs)
  · exact h.reporting

theorem publishing_step (h : SessionInv s) (hp : PublishesInSession s.called) (ans : Answers)
    {c : MainCall} (hc : s.issues ans = some c) :
    (publishes c = true → Working s.called) ↔ ReportsWhenRunning s (.main (.exec ans)) := by
  obtain ⟨q, hq, hr⟩ := h.session
  have hrem := remembers_of_run hr
  have hplaced := h.placed
  unfold Main.placed at hplaced
  have hrunning : s.sessions = [.running] → Working s.called := by
    intro hs
    rw [hs, List.mem_singleton] at hq
    subst q
    exact (OpenSession.working_iff hrem).mpr ⟨rfl, rfl⟩
  cases hpc : s.pc <;> simp only [Main.issues, hpc, reduceCtorEq, Option.some.injEq] at hc <;>
    simp only [ReportsWhenRunning, hpc, reduceCtorEq, forall_true_left, false_imp_iff, iff_true]
  case testReport =>
    split at hc
    · rename_i hout
      obtain rfl := Option.some.inj hc
      rw [hpc] at hplaced
      simp only [Main.sessions, hpc] at hq
      simpa [publishes, hout] using working_reporting hrem hplaced hq
    · simp at hc
  case publishUptime =>
    intro _
    obtain ⟨pre, hcalled⟩ := h.reporting (.inr hpc)
    rw [hcalled] at hp ⊢
    have hlast := (throughout_append_singleton.mp hp).2 rfl
    exact hlast.append
  case publishStatus => exact fun _ => hrunning (by simp [Main.sessions, hpc])
  case publishMac => exact fun _ => hrunning (by simp [Main.sessions, hpc])
  case publishIp => exact fun _ => hrunning (by simp [Main.sessions, hpc])
  all_goals
    subst c
    simp [publishes]

theorem reportsWhenRunning_of_silent {ans : Answers} (hc : s.issues ans = none) :
    ReportsWhenRunning s (.main (.exec ans)) := by
  intro hpc hout
  simp [Main.issues, hpc, hout] at hc

theorem publishesInSession_step (h : SessionInv s) (hp : PublishesInSession s.called)
    {e : LoopEvent} (he : loopStep s e = some s') :
    PublishesInSession s'.called ↔ ReportsWhenRunning s e := by
  rcases loopStep_cases he with ⟨ans, rfl, rfl⟩ | ⟨hno, net, clock, _, rfl⟩
  · rw [exec_called]
    cases hc : s.issues ans with
    | none =>
      rw [Option.toList_none, List.append_nil]
      exact iff_of_true hp (reportsWhenRunning_of_silent hc)
    | some c =>
      rw [Option.toList_some, PublishesInSession, throughout_append_singleton]
      rw [← publishing_step h hp ans hc]
      exact and_iff_right hp
  · refine iff_of_true hp ?_
    cases e with
    | main e =>
      cases e with
      | exec ans => exact absurd rfl (hno ans)
      | _ => trivial
    | network net => trivial

theorem publishesInSession_prefix {e : LoopEvent} (he : loopStep s e = some s')
    (h : PublishesInSession s'.called) : PublishesInSession s.called := by
  rcases loopStep_cases he with ⟨ans, _, rfl⟩ | ⟨_, net, clock, _, rfl⟩
  · rw [exec_called] at h
    exact (throughout_append.mp h).1
  · exact h

/-- The calls publish only in a session that works exactly if every check of
the report timer that comes out true is made in `STATE_RUN_MQTT`. -/
theorem publishesInSession_iff (clock : Clock) {es : List LoopEvent} {s : Main}
    (hr : Runs.run loopStep (Main.init clock) es = some s) :
    PublishesInSession s.called ↔ Runs.AllSteps loopStep ReportsWhenRunning (Main.init clock) es :=
  Runs.run_iff_allSteps (fun _ _ _ h he => SessionInv.step h he)
    (fun _ _ _ h hp he => publishesInSession_step h hp he)
    (fun _ _ _ _ he h => publishesInSession_prefix he h) (sessionInv_init clock) throughout_nil hr

def reportInSession : List MainEvent :=
  List.replicate 500 MainEvent.sysTick ++ List.replicate 7 (MainEvent.exec { ipAddr := 1 }) ++
    [MainEvent.lwip (.connected 0)] ++ List.replicate 8 (MainEvent.exec {}) ++
      [MainEvent.exec { err := .connected }] ++ List.replicate 11 (MainEvent.exec {})

theorem publishesInSession_iff_reported :
    ∃ s : Main, Runs.run loopStep (Main.init {}) (reportInSession.map .main) = some s ∧
      .umqttPublish (.uptime 5) ∈ s.called ∧ PublishesInSession s.called := by
  have hfacts : (Runs.run mainStep (Main.init {}) reportInSession).map (fun s =>
      decide (.umqttPublish (.uptime 5) ∈ s.called)) = some true := by
    decide +kernel
  obtain ⟨s, hs, hf⟩ := Option.map_eq_some_iff.mp hfacts
  rw [← run_loopStep_main] at hs
  have hok : Runs.AllSteps loopStep ReportsWhenRunning (Main.init {})
      (reportInSession.map .main) := by
    decide +kernel
  exact ⟨s, hs, of_decide_eq_true hf, (publishesInSession_iff {} hs).mpr hok⟩

/-- 5 s after the start umqtt is not yet connected; the report is made nevertheless. -/
def reportBeforeSession : List MainEvent :=
  List.replicate 500 MainEvent.sysTick ++ List.replicate 7 (MainEvent.exec { ipAddr := 1 }) ++
    [MainEvent.lwip (.connected 0)] ++ List.replicate 8 (MainEvent.exec {}) ++
      [MainEvent.exec { err := .other 1 }] ++ List.replicate 6 (MainEvent.exec {})

theorem not_publishesInSession :
    ¬∀ (clock : Clock) (es : List LoopEvent) (s : Main),
      Runs.run loopStep (Main.init clock) es = some s → PublishesInSession s.called := by
  intro hall
  have hfacts : (Runs.run mainStep (Main.init {}) reportBeforeSession).map (fun s => s.called) =
      some [.netConnect 0, .netIsConnected true, .umqttConnect .ok,
        .umqttGetConnectedStatus (.other 1), .umqttRun 5000 .ok, .reportTimedOut,
        .umqttPublish (.uptime 5)] := by
    decide +kernel
  obtain ⟨s, hs, hcalled⟩ := Option.map_eq_some_iff.mp hfacts
  rw [← run_loopStep_main] at hs
  have hpub := hall {} _ s hs
  rw [hcalled] at hpub
  obtain ⟨mid, hsince, hgreeted, _⟩ := hpub [.netConnect 0, .netIsConnected true, .umqttConnect .ok,
    .umqttGetConnectedStatus (.other 1), .umqttRun 5000 .ok, .reportTimedOut] _ [] rfl rfl
  obtain ⟨_, _, pre, hpre⟩ := since_eq_some_iff.mp hsince
  have hmem := List.mem_append_right pre (List.mem_cons_of_mem (.umqttConnect .ok) hgreeted)
  rw [← hpre] at hmem
  simp at hmem

end McuTest
