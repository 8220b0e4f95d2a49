import McuTest.History
import McuTest.LoopCalls

/-! The order of the calls of the main loop, as a protocol of sessions, and
that the loop keeps to it. -/

namespace McuTest

/-- `dialed` after a `net_Connect` that returned 0, `online` once it is up,
`joined` after a `umqtt_Connect` that succeeded, `greeted` once umqtt says that
it is connected, `running` when the subscription is made. In `refused` and
`lost` there is nothing left but to disconnect. -/
inductive Session where
  | closed
  | dialed
  | online
  | joined
  | greeted
  | running
  | lost
  | refused
  | leaving
  deriving DecidableEq

def Session.step : Session → MainCall → Option Session
  | .closed, .netConnect ret => some (if ret = 0 then .dialed else .refused)
  | .closed, .umqttDisconnect => some .leaving
  | .dialed, .netIsConnected up => some (if up then .online else .dialed)
  | .dialed, .umqttDisconnect => some .leaving
  | .online, .umqttConnect err => some (if err = .ok then .joined else .refused)
  | .joined, .umqttGetConnectedStatus err => some (if err = .connected then .greeted else .joined)
  | .joined, .umqttRun _ err => some (if err = .ok then .joined else .lost)
  | .joined, .reportTimedOut => some .joined
  | .joined, .umqttPublish _ => some .joined
  | .joined, .umqttDisconnect => some .leaving
  | .greeted, .umqttSubscribe => some .running
  | .running, .umqttRun _ err => some (if err = .ok then .running else .lost)
  | .running, .reportTimedOut => some .running
  | .running, .umqttPublish _ => some .running
  | .running, .umqttDisconnect => some .leaving
  | .lost, .reportTimedOut => some .lost
  | .lost, .umqttPublish _ => some .lost
  | .lost, .umqttDisconnect => some .leaving
  | .refused, .umqttDisconnect => some .leaving
  | .leaving, .netDisconnect => some .closed
  | _, _ => none

def AppState.sessions : AppState → List Session
  | .waitIp | .delay => [.closed]
  | .waitNet => [.dialed]
  | .waitMqtt => [.joined]
  | .runMqtt => [.running]
  | .recovery => [.closed, .dialed, .joined, .running, .lost, .refused]

/-- The sessions that the loop can be in where it stands. -/
def Main.sessions (s : Main) : List Session :=
  match s.pc with
  | .top | .clearDisconnected | .testDelay | .resetState | .dispatch => s.runState.sessions
  | .getIpAddr | .testIpAddr | .netConnect => [.closed]
  | .testRet => if s.ret = 0 then [.dialed] else [.refused]
  | .setWaitNet | .testConnected => [.dialed]
  | .setRecovery => [.refused]
  | .umqttConnect => [.online]
  | .testConnectErr => if s.err = .ok then [.joined] else [.refused]
  | .setWaitMqtt | .getConnectedStatus => [.joined]
  | .testStatus => if s.err = .connected then [.greeted] else [.joined]
  | .setRunMqtt | .umqttSubscribe => [.greeted]
  | .publishStatus | .publishMac | .publishIp => [.running]
  | .umqttRun => s.runState.sessions
  | .testRunErr => if s.err = .ok then s.runState.sessions else [.lost]
  | .setRunRecovery => [.lost]
  | .testReport | .armReport | .publishUptime =>
    if s.runState = .recovery then [.lost] else s.runState.sessions
  | .umqttDisconnect => AppState.recovery.sessions
  | .netDisconnect => [.leaving]
  | .armError | .setDelay | .testError | .setWaitIp => [.closed]

variable {s s' : Main}

theorem sessions_recovery {r : AppState} (hr : r ≠ .delay) {q : Session} (hq : q ∈ r.sessions) :
    q ∈ AppState.recovery.sessions := by
  cases r <;> simp_all [AppState.sessions]

theorem sessions_of_reporting {r : AppState} {q : Session}
    (hq : q ∈ if r = .recovery then [.lost] else r.sessions) : q ∈ r.sessions := by
  split_ifs at hq with hr
  · obtain rfl := List.mem_singleton.mp hq
    simp [hr, AppState.sessions]
  · exact hq

theorem reporting_cases {r : AppState} (hr : r ∈ Pc.testReport.states) {q : Session}
    (hq : q ∈ if r = .recovery then [.lost] else r.sessions) :
    q = .joined ∨ q = .running ∨ q = .lost := by
  simp only [Pc.states, List.mem_cons, List.not_mem_nil, or_false] at hr
  rcases hr with rfl | rfl | rfl
  · exact .inl (by simpa [AppState.sessions] using hq)
  · exact .inr (.inl (by simpa [AppState.sessions] using hq))
  · exact .inr (.inr (by simpa using hq))

theorem exec_session_silent (ans : Answers) (h : s.placed) {q : Session} (hq : q ∈ s.sessions)
    (hi : s.issues ans = none) : q ∈ (exec s ans).sessions := by
  unfold Main.placed at h
  cases hpc : s.pc <;> simp only [Main.issues, hpc, reduceCtorEq] at hi <;>
    simp only [Main.sessions, hpc] at hq <;> rw [hpc] at h <;> simp only [exec, hpc]
  case top => split <;> exact hq
  case clearDisconnected => exact hq
  case testDelay => split <;> exact hq
  case resetState =>
    refine sessions_recovery ?_ hq
    rintro hd
    simp [hd, Pc.states] at h
  case dispatch =>
    cases hr : s.runState <;> simp_all [Main.sessions, Main.goto, AppState.sessions]
  case testRunErr =>
    have hne : s.runState ≠ .recovery := by
      rintro hr
      simp [hr, Pc.states] at h
    by_cases he : s.err = .ok
    · simpa [Main.sessions, Main.goto, he, hne] using hq
    · simpa [Main.sessions, Main.goto, he] using hq
  case testReport =>
    split at hi
    · simp at hi
    · rename_i hnot
      have hsame := sessions_of_reporting hq
      simpa [hnot, Main.sessions, Main.goto] using hsame
  all_goals
    repeat' split
    all_goals simp_all [Main.sessions, Main.goto, Main.setState, Pc.states, AppState.sessions]

theorem exec_session_call (ans : Answers) (h : s.placed) {q : Session} (hq : q ∈ s.sessions)
    {c : MainCall} (hi : s.issues ans = some c) :
    ∃ q', Session.step q c = some q' ∧ q' ∈ (exec s ans).sessions := by
  unfold Main.placed at h
  cases hpc : s.pc <;>
    simp only [Main.issues, hpc, reduceCtorEq, Option.some.injEq] at hi <;>
    simp only [Main.sessions, hpc] at hq <;> rw [hpc] at h <;> simp only [exec, hpc]
  case testConnected =>
    subst c
    obtain rfl := List.mem_singleton.mp hq
    have hr : s.runState = .waitNet := by simpa [Pc.states] using h
    refine ⟨_, rfl, ?_⟩
    cases Net.isConnected s.world .inst <;>
      simp [Main.sessions, Main.call, hr, AppState.sessions]
  case umqttRun =>
    subst c
    have hr : s.runState = .waitMqtt ∨ s.runState = .runMqtt := by simpa [Pc.states] using h
    rcases hr with hr | hr
    · obtain rfl : q = .joined := by simpa [hr, AppState.sessions] using hq
      refine ⟨_, rfl, ?_⟩
      by_cases he : ans.err = .ok <;> simp [Main.sessions, Main.call, hr, he, AppState.sessions]
    · obtain rfl : q = .running := by simpa [hr, AppState.sessions] using hq
      refine ⟨_, rfl, ?_⟩
      by_cases he : ans.err = .ok <;> simp [Main.sessions, Main.call, hr, he, AppState.sessions]
  case testReport =>
    split at hi
    · rename_i hout
      obtain rfl := Option.some.inj hi
      simp only [hout, if_true]
      refine ⟨q, ?_, hq⟩
      rcases reporting_cases h hq with rfl | rfl | rfl <;> rfl
    · simp at hi
  case publishUptime =>
    subst c
    refine ⟨q, ?_, sessions_of_reporting hq⟩
    rcases reporting_cases h hq with rfl | rfl | rfl <;> rfl
  case umqttDisconnect =>
    subst c
    simp only [AppState.sessions, List.mem_cons, List.not_mem_nil, or_false] at hq
    rcases hq with rfl | rfl | rfl | rfl | rfl | rfl <;>
      exact ⟨_, rfl, by simp [Main.sessions, Main.call]⟩
  case publishIp =>
    subst c
    obtain rfl := List.mem_singleton.mp hq
    have hr : s.runState = .runMqtt := by simpa [Pc.states] using h
    exact ⟨_, rfl, by simp [Main.sessions, Main.call, hr, AppState.sessions]⟩
  all_goals
    subst c
    obtain rfl := List.mem_singleton.mp hq
    refine ⟨_, rfl, ?_⟩
    simp only [Main.sessions, Main.call]
    repeat' split
    all_goals simp

theorem session_loopStep {e : LoopEvent} (h : s.placed) (he : loopStep s e = some s')
    {q : Session} (hq : q ∈ s.sessions) (hr : Runs.run Session.step .closed s.called = some q) :
    ∃ q' ∈ s'.sessions, Runs.run Session.step .closed s'.called = some q' := by
  rcases loopStep_cases he with ⟨ans, _, rfl⟩ | ⟨_, net, clock, _, rfl⟩
  · rw [exec_called]
    cases hi : s.issues ans with
    | none =>
      refine ⟨q, exec_session_silent ans h hq hi, ?_⟩
      rw [Option.toList_none, List.append_nil]
      exact hr
    | some c =>
      obtain ⟨q', hstep, hq'⟩ := exec_session_call ans h hq hi
      refine ⟨q', hq', ?_⟩
      rw [Option.toList_some, History.run_append_singleton, hr]
      exact hstep
  · exact ⟨q, hq, hr⟩

/-- The calls so far are those of a session that fits where the loop stands. -/
structure CallsOk (s : Main) : Prop where
  placed : s.placed
  session : ∃ q ∈ s.sessions, Runs.run Session.step .closed s.called = some q

theorem callsOk_init (clock : Clock) : CallsOk (Main.init clock) where
  placed := (loopOk_init clock).placed
  session := ⟨.closed, by simp [Main.init, Main.sessions, AppState.sessions], rfl⟩

theorem CallsOk.step (h : CallsOk s) {e : LoopEvent} (he : loopStep s e = some s') :
    CallsOk s' := by
  obtain ⟨q, hq, hr⟩ := h.session
  exact ⟨placed_loopStep h.placed he, session_loopStep h.placed he hq hr⟩

theorem callsOk_of_run (clock : Clock) {es : List LoopEvent}
    (hr : Runs.run loopStep (Main.init clock) es = some s) : CallsOk s :=
  Runs.run_invariant' (fun _ _ _ h he => CallsOk.step h he) (callsOk_init clock) hr

def MainCall.dials : MainCall → Bool
  | .netConnect _ => true
  | _ => false

def MainCall.joins : MainCall → Bool
  | .umqttConnect err => err = .ok
  | _ => false

def MainCall.greets : MainCall → Bool
  | .umqttGetConnectedStatus err => err = .connected
  | _ => false

def MainCall.fails : MainCall → Bool
  | .umqttRun _ err => err ≠ .ok
  | _ => false

open History MainCall

/-- Since the last `net_Connect` everything has been taken down. -/
def TakenDown (calls : List MainCall) : Prop :=
  ∀ a mid, since dials calls = some (a, mid) →
    ∃ pre post, mid = pre ++ .umqttDisconnect :: .netDisconnect :: post

/-- The last `net_Connect` returned 0, and umqtt has not been called since. -/
def Dialed (up : Bool) (calls : List MainCall) : Prop :=
  ∃ mid, since dials calls = some (.netConnect 0, mid) ∧ (∀ err, .umqttConnect err ∉ mid) ∧
    .umqttDisconnect ∉ mid ∧ (up = true → .netIsConnected true ∈ mid)

def NoSession (calls : List MainCall) : Prop :=
  ∀ a mid, since joins calls = some (a, mid) → .umqttDisconnect ∈ mid

/-- The session that the last successful `umqtt_Connect` began is still open;
whether umqtt has said in it that it is connected, how often it has subscribed
and whether `umqtt_Run` has failed. -/
def OpenSession (greeted : Bool) (subscribed : Nat) (failed : Bool) (calls : List MainCall) :
    Prop :=
  ∃ mid, since joins calls = some (.umqttConnect .ok, mid) ∧ .umqttDisconnect ∉ mid ∧
    mid.any greets = greeted ∧ mid.count .umqttSubscribe = subscribed ∧ mid.any fails = failed

def Session.Remembers : Session → List MainCall → Prop
  | .closed, calls => TakenDown calls ∧ NoSession calls
  | .dialed, calls => Dialed false calls ∧ NoSession calls
  | .online, calls => Dialed true calls ∧ NoSession calls
  | .joined, calls => OpenSession false 0 false calls
  | .greeted, calls => OpenSession true 0 false calls
  | .running, calls => OpenSession true 1 false calls
  | .lost, calls => ∃ greeted, OpenSession greeted (if greeted then 1 else 0) true calls
  | .refused, calls => NoSession calls
  | .leaving, calls => (∃ pre, calls = pre ++ [.umqttDisconnect]) ∧ NoSession calls

variable {calls : List MainCall} {c : MainCall}

theorem noSession_disconnect (calls : List MainCall) : NoSession (calls ++ [.umqttDisconnect]) := by
  intro a mid hs
  rw [since_append_singleton, if_neg (by simp [joins])] at hs
  obtain ⟨⟨b, mid⟩, _, he⟩ := Option.map_eq_some_iff.mp hs
  simp [← (Prod.mk.inj he).2]

theorem NoSession.append (h : NoSession calls) (hc : joins c = false) :
    NoSession (calls ++ [c]) := by
  intro a mid hs
  simp only [since_append_singleton, hc, Bool.false_eq_true, if_false] at hs
  obtain ⟨⟨b, mid⟩, hold, he⟩ := Option.map_eq_some_iff.mp hs
  obtain ⟨rfl, rfl⟩ := Prod.mk.inj he
  exact List.mem_append_left _ (h b mid hold)

theorem Dialed.append {up : Bool} (h : Dialed up calls) (answer : Bool) :
    Dialed (up || answer) (calls ++ [.netIsConnected answer]) := by
  obtain ⟨mid, hs, hconn, hdisc, hup⟩ := h
  refine ⟨mid ++ [.netIsConnected answer], by simp [hs, dials], by simpa using hconn,
    by simpa using hdisc, fun ht => ?_⟩
  rcases Bool.or_eq_true_iff.mp ht with ht | rfl
  · exact List.mem_append_left _ (hup ht)
  · simp

theorem OpenSession.append {g f : Bool} {n : Nat} (h : OpenSession g n f calls)
    (hj : joins c = false) (hd : c ≠ .umqttDisconnect) :
    OpenSession (g || greets c) (n + if c = .umqttSubscribe then 1 else 0) (f || fails c)
      (calls ++ [c]) := by
  obtain ⟨mid, hs, hdisc, hg, hn, hf⟩ := h
  refine ⟨mid ++ [c], by simp [hs, hj], by simpa [hdisc] using hd.symm, by simp [hg], ?_,
    by simp [hf]⟩
  rw [List.count_append, hn, List.count_singleton]
  simp only [beq_iff_eq]

/-- A call that is of no concern to the session. -/
theorem OpenSession.keep {g f : Bool} {n : Nat} (h : OpenSession g n f calls)
    (hc : c = .reportTimedOut ∨ ∃ what, c = .umqttPublish what) :
    OpenSession g n f (calls ++ [c]) := by
  rcases hc with rfl | ⟨what, rfl⟩
  · have hnext := h.append (c := .reportTimedOut) rfl (by simp)
    simpa [greets, fails] using hnext
  · have hnext := h.append (c := .umqttPublish what) rfl (by simp)
    simpa [greets, fails] using hnext

theorem OpenSession.run {g : Bool} {n : Nat} (h : OpenSession g n false calls) (ms : UInt32)
    (err : UmqttError) :
    OpenSession g n (decide (err ≠ .ok)) (calls ++ [.umqttRun ms err]) := by
  have hnext := h.append (c := .umqttRun ms err) rfl (by simp)
  simpa [greets, fails] using hnext

theorem takenDown_of_leaving {pre : List MainCall} :
    TakenDown (pre ++ [.umqttDisconnect] ++ [.netDisconnect]) := by
  intro a mid hs
  simp only [since_append_singleton, dials, Bool.false_eq_true, if_false, Option.map_map] at hs
  obtain ⟨⟨b, mid'⟩, _, he⟩ := Option.map_eq_some_iff.mp hs
  have hmid := (Prod.mk.inj he).2
  exact ⟨mid', [], by simpa using hmid.symm⟩

theorem Session.step_disconnect {q q' : Session} (hs : step q .umqttDisconnect = some q') :
    q' = .leaving := by
  cases q <;> simp [step] at hs <;> exact hs.symm

theorem Session.Remembers.reporting {q q' : Session} (h : q.Remembers calls)
    (hc : c = .reportTimedOut ∨ ∃ what, c = .umqttPublish what)
    (hs : Session.step q c = some q') : q'.Remembers (calls ++ [c]) := by
  have hstep : q' = q ∧ (q = .joined ∨ q = .running ∨ q = .lost) := by
    rcases hc with rfl | ⟨what, rfl⟩ <;> cases q <;> simp [Session.step] at hs <;> simp [hs]
  obtain ⟨rfl, rfl | rfl | rfl⟩ := hstep
  · exact OpenSession.keep h hc
  · exact OpenSession.keep h hc
  · obtain ⟨g, h⟩ := h
    exact ⟨g, h.keep hc⟩

theorem Session.Remembers.step {q q' : Session} (h : q.Remembers calls)
    (hs : Session.step q c = some q') : q'.Remembers (calls ++ [c]) := by
  by_cases hd : c = .umqttDisconnect
  · subst c
    obtain rfl := Session.step_disconnect hs
    exact ⟨⟨calls, rfl⟩, noSession_disconnect calls⟩
  by_cases hc : c = .reportTimedOut ∨ ∃ what, c = .umqttPublish what
  · exact h.reporting hc hs
  cases q with
  | closed =>
    cases c <;> simp [Session.step] at hs hd
    case netConnect ret =>
      subst hs
      by_cases hret : ret = 0
      · subst ret
        exact ⟨⟨[], by simp [dials], by simp, by simp, nofun⟩, h.2.append rfl⟩
      · rw [if_neg hret]
        exact h.2.append rfl
  | dialed =>
    cases c <;> simp [Session.step] at hs hd
    case netIsConnected up =>
      subst hs
      have hup := h.1.append up
      cases up with
      | true => exact ⟨hup, h.2.append rfl⟩
      | false => exact ⟨hup, h.2.append rfl⟩
  | online =>
    cases c <;> simp [Session.step] at hs hd
    case umqttConnect err =>
      subst hs
      by_cases he : err = .ok
      · subst err
        exact ⟨[], by simp [joins], by simp, rfl, rfl, rfl⟩
      · rw [if_neg he]
        exact h.2.append (by simp [joins, he])
  | joined =>
    cases c <;> simp [Session.step] at hs hd hc
    case umqttGetConnectedStatus err =>
      subst hs
      have hnext := OpenSession.append h (c := .umqttGetConnectedStatus err) rfl (by simp)
      by_cases he : err = .connected
      · simpa [Session.Remembers, greets, fails, he] using hnext
      · simpa [Session.Remembers, greets, fails, he] using hnext
    case umqttRun ms err =>
      subst hs
      have hnext := OpenSession.run h ms err
      by_cases he : err = .ok
      · simpa [Session.Remembers, he] using hnext
      · rw [if_neg he]
        exact ⟨false, by simpa [he] using hnext⟩
  | greeted =>
    cases c <;> simp [Session.step] at hs hd
    case umqttSubscribe =>
      subst hs
      exact OpenSession.append h (c := .umqttSubscribe) rfl (by simp)
  | running =>
    cases c <;> simp [Session.step] at hs hd hc
    case umqttRun ms err =>
      subst hs
      have hnext := OpenSession.run h ms err
      by_cases he : err = .ok
      · simpa [Session.Remembers, he] using hnext
      · rw [if_neg he]
        exact ⟨true, by simpa [he] using hnext⟩
  | lost => cases c <;> simp [Session.step] at hs hd hc
  | refused => cases c <;> simp [Session.step] at hs hd
  | leaving =>
    obtain ⟨⟨pre, rfl⟩, hno⟩ := h
    cases c <;> simp [Session.step] at hs hd
    case netDisconnect =>
      subst hs
      exact ⟨takenDown_of_leaving, hno.append rfl⟩

end McuTest
