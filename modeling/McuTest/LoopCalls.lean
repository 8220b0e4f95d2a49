import McuTest.History
import McuTest.LoopInvariant

/-! The calls that the main loop makes, whatever the network does. -/

namespace McuTest

variable {s s' : Main}

/-- Between two statements the whole state of the network may become any other:
a connection is up or gone, and `netWasDisconnected` is set. -/
inductive LoopEvent where
  | main (e : MainEvent)
  | network (net : Transport netclientQueueSize App)

def loopStep (s : Main) : LoopEvent → Option Main
  | .main e => mainStep s e
  | .network net => some { s with net := net }

theorem run_loopStep_main (s : Main) (es : List MainEvent) :
    Runs.run loopStep s (es.map .main) = Runs.run mainStep s es := by
  induction es generalizing s with
  | nil => rfl
  | cons e es ih =>
    simp only [List.map_cons, Runs.run, loopStep, ih]

theorem loopStep_cases {e : LoopEvent} (he : loopStep s e = some s') :
    (∃ ans, e = .main (.exec ans) ∧ s' = exec s ans) ∨
      (∀ ans, e ≠ .main (.exec ans)) ∧ ∃ net clock,
        (clock = s.clock ∨ clock = sysTickHandler s.clock) ∧
          s' = { s with net := net, clock := clock } := by
  cases e with
  | network net =>
    obtain rfl := Option.some.inj he
    exact .inr ⟨by simp, net, s.clock, .inl rfl, rfl⟩
  | main e =>
    cases e with
    | exec ans => exact .inl ⟨ans, rfl, (mainStep_exec he).2⟩
    | transport e =>
      simp only [loopStep, mainStep, Option.ite_none_right_eq_some, Option.map_eq_some_iff] at he
      obtain ⟨_, t, _, rfl⟩ := he
      exact .inr ⟨by simp, t, s.clock, .inl rfl, rfl⟩
    | lwip e =>
      obtain ⟨w, _, rfl⟩ := Option.map_eq_some_iff.mp he
      exact .inr ⟨by simp, { s.net with world := w }, s.clock, .inl rfl, rfl⟩
    | sysTick =>
      obtain rfl := Option.some.inj he
      exact .inr ⟨by simp, s.net, sysTickHandler s.clock, .inr rfl, rfl⟩

theorem mainStep_interrupt {e : MainEvent} (he : mainStep s e = some s')
    (hx : ∀ ans, e ≠ .exec ans) :
    ∃ net clock, (clock = s.clock ∨ clock = sysTickHandler s.clock) ∧
      s' = { s with net := net, clock := clock } := by
  have hloop : loopStep s (.main e) = some s' := he
  rcases loopStep_cases hloop with ⟨ans, hans, _⟩ | ⟨_, hkeep⟩
  · exact absurd (LoopEvent.main.inj hans) (hx ans)
  · exact hkeep

def Main.issues (s : Main) (ans : Answers) : Option MainCall :=
  match s.pc with
  | .netConnect =>
    some (.netConnect (Net.connect s.world .inst serverAddr serverPort ans.avail ans.connErr
      ans.closeErr).1)
  | .testConnected => some (.netIsConnected (Net.isConnected s.world .inst))
  | .umqttConnect => some (.umqttConnect ans.err)
  | .getConnectedStatus => some (.umqttGetConnectedStatus ans.err)
  | .umqttSubscribe => some .umqttSubscribe
  | .publishStatus => some (.umqttPublish .status)
  | .publishMac => some (.umqttPublish .mac)
  | .publishIp => some (.umqttPublish (.ip s.ipAddr))
  | .umqttRun => some (.umqttRun s.clock.msTicks ans.err)
  | .testReport =>
    if SwTimer.isTimedOut s.clock.timers s.upTimeReportTimer then some .reportTimedOut else none
  | .publishUptime => some (.umqttPublish (.uptime s.clock.upTime))
  | .umqttDisconnect => some .umqttDisconnect
  | .netDisconnect => some .netDisconnect
  | _ => none

def Main.called (s : Main) : List MainCall :=
  s.calls.map Prod.snd

theorem exec_calls (s : Main) (ans : Answers) :
    (exec s ans).calls = s.calls ++ (s.issues ans).toList.map fun c => (s.clock.elapsed, c) := by
  cases hpc : s.pc <;> simp only [exec, Main.issues, hpc] <;> repeat' split
  all_goals simp [Main.goto, Main.setState, Main.call, Main.setWorld]

theorem exec_called (s : Main) (ans : Answers) :
    (exec s ans).called = s.called ++ (s.issues ans).toList := by
  rw [Main.called, exec_calls, List.map_append, List.map_map]
  exact congrArg _ (List.map_id _)

theorem exec_clock (s : Main) (ans : Answers) : (exec s ans).clock = s.clock := by
  cases hpc : s.pc <;> simp only [exec, hpc] <;> repeat' split
  all_goals rfl

theorem placed_loopStep {e : LoopEvent} (h : s.placed) (he : loopStep s e = some s') :
    s'.placed := by
  rcases loopStep_cases he with ⟨ans, _, rfl⟩ | ⟨_, net, clock, _, rfl⟩
  · exact exec_placed ans h
  · exact h

/-- A first session, up to its first uptime report. -/
def announcedSession : List MainEvent :=
  List.replicate 500 MainEvent.sysTick ++ List.replicate 7 (MainEvent.exec { ipAddr := 0x0B00000A }) ++
    [MainEvent.lwip (.connected 0)] ++ List.replicate 8 (MainEvent.exec {}) ++
      [MainEvent.exec { err := .connected }] ++ List.replicate 11 (MainEvent.exec {})

end McuTest
