import McuTest.Disconnects
import McuTest.Progress
import McuTest.RateLimits

/-! How long a node is gone: from any failure the loop gets to `net_Disconnect`,
and from there to its next `net_Connect`. -/

namespace McuTest

open Progress

def MainEvent.isExec : MainEvent → Bool
  | .exec _ => true
  | _ => false

theorem MainEvent.exec_or (e : MainEvent) :
    (∃ ans, e = .exec ans) ∨ (∀ ans, e ≠ .exec ans) ∧ e.isExec = false := by
  cases e <;> simp [MainEvent.isExec]

/-- A bound on the statements until the next test of `netWasDisconnected`. -/
def Pc.toTop : Pc → Nat
  | .top => 18
  | .clearDisconnected => 17
  | .testDelay => 16
  | .resetState => 15
  | .dispatch => 14
  | .getConnectedStatus => 13
  | .testStatus => 12
  | .setRunMqtt => 11
  | .umqttSubscribe => 10
  | .publishStatus => 9
  | .publishMac => 8
  | .publishIp => 7
  | .umqttRun => 6
  | .testRunErr => 5
  | .setRunRecovery => 4
  | .testReport => 3
  | .armReport => 2
  | .publishUptime => 1
  | .getIpAddr => 5
  | .testIpAddr => 4
  | .netConnect => 3
  | .testRet => 2
  | .setWaitNet | .setRecovery | .setWaitMqtt | .setDelay | .setWaitIp => 1
  | .testConnected => 4
  | .umqttConnect => 3
  | .testConnectErr | .armError | .testError => 2
  | .umqttDisconnect => 4
  | .netDisconnect => 3

variable {s s' : Main}

/-- The connection is lost or was refused, or umqtt has failed, and
`net_Disconnect` is still to come. -/
def Main.failing (s : Main) : Prop :=
  s.runState ≠ .delay ∧ s.pc ≠ .armError ∧ s.pc ≠ .setDelay ∧
    (s.disconnected = true ∨ s.runState = .recovery ∨
      match s.pc with
      | .clearDisconnected | .testDelay | .resetState | .setRecovery | .setRunRecovery => True
      | .testRet => s.ret ≠ 0
      | .testConnectErr | .testRunErr => s.err ≠ .ok
      | _ => False)

/-- A bound on the statements until `net_Disconnect`. -/
def Main.toDisconnect (s : Main) : Nat :=
  match s.pc with
  | .netDisconnect => 0
  | .umqttDisconnect => 1
  | .dispatch => if s.runState = .recovery then 2 else 20
  | .resetState => 3
  | .testDelay => 4
  | .clearDisconnected => 5
  | .top => 6
  | pc => 6 + pc.toTop

theorem exec_connect_app (ans : Answers) (hpc : s.pc = .netConnect) :
    (exec s ans).world.app = s.world.app := by
  rw [exec_connect_world ans hpc]
  exact (callStep_app s.world (netConnectCall ans)).1

theorem exec_failing (ans : Answers) (h : s.placed) (hf : s.failing) (hpc : s.pc ≠ .netDisconnect) :
    (exec s ans).failing ∧ (exec s ans).toDisconnect < s.toDisconnect := by
  obtain ⟨hd, ha, hset, hwhy⟩ := hf
  unfold Main.placed at h
  cases hs : s.pc <;> rw [hs] at h
  case netConnect =>
    have hflag : (exec s ans).disconnected = true := by
      simp only [Pc.states, List.mem_singleton] at h
      rw [Main.disconnected, exec_connect_app ans hs]
      simpa [hs, h, Main.disconnected] using hwhy
    have hstate : (exec s ans).runState = s.runState := by simp [exec, hs, Main.call, Main.setWorld]
    have hnext : (exec s ans).pc = .testRet := by simp [exec, hs, Main.call]
    simp [Main.failing, Main.toDisconnect, hflag, hstate, hnext, hd, hs, Pc.toTop]
  all_goals
    simp only [exec, hs]
    repeat' split
  all_goals
    simp_all [Main.failing, Main.toDisconnect, Main.goto, Main.setState, Main.call, Main.setWorld,
      Main.disconnected, Main.world, Pc.states, Pc.toTop]
  case umqttRun => tauto

theorem disconnected_interrupt (h : LoopOk s) {e : MainEvent} (he : mainStep s e = some s')
    (hx : ∀ ans, e ≠ .exec ans) (hf : s.disconnected = true) : s'.disconnected = true := by
  rcases control_step h he with ⟨ans, rfl, _⟩ | ⟨_, _, _, hlost⟩ | hsame
  · exact absurd rfl (hx ans)
  · exact congrArg Control.flag hlost
  · exact (congrArg Control.flag hsame).trans hf

theorem failing_interrupt (h : LoopOk s) {e : MainEvent} (he : mainStep s e = some s')
    (hx : ∀ ans, e ≠ .exec ans) (hf : s.failing) :
    s'.failing ∧ s'.toDisconnect = s.toDisconnect := by
  have hkeep := disconnected_interrupt h he hx
  obtain ⟨hd, ha, hset, hwhy⟩ := hf
  obtain ⟨net, clock, _, rfl⟩ := mainStep_interrupt he hx
  exact ⟨⟨hd, ha, hset, hwhy.imp_left hkeep⟩, rfl⟩

theorem failing_step (h : LoopOk s) (hf : s.failing) (hpc : s.pc ≠ .netDisconnect) {e : MainEvent}
    (he : mainStep s e = some s') :
    (LoopOk s' ∧ s'.failing) ∧
      s'.toDisconnect + (if e.isExec = true then 1 else 0) ≤ s.toDisconnect := by
  have hok := h.step he
  rcases e.exec_or with ⟨ans, rfl⟩ | ⟨hno, hcount⟩
  · obtain ⟨_, rfl⟩ := mainStep_exec he
    obtain ⟨hf', hrank⟩ := exec_failing ans h.placed hf hpc
    exact ⟨⟨hok, hf'⟩, hrank⟩
  · obtain ⟨hf', hrank⟩ := failing_interrupt h he hno hf
    rw [hcount, hrank]
    exact ⟨⟨hok, hf'⟩, Nat.le_refl _⟩

theorem toDisconnect_le (s : Main) : s.toDisconnect ≤ 20 := by
  cases hs : s.pc <;> simp only [Main.toDisconnect, hs] <;> (try split) <;> simp [Pc.toTop]

theorem toDisconnect_eq_zero (h : s.toDisconnect = 0) : s.pc = .netDisconnect := by
  cases hs : s.pc <;> simp only [Main.toDisconnect, hs] at h
  case netDisconnect => rfl
  all_goals
    (try split at h) <;> simp [Pc.toTop] at h

theorem leads_disconnect (ok : Main → MainEvent → Prop) :
    Leads mainStep MainEvent.isExec ok 20 (fun s => LoopOk s ∧ s.failing)
      (fun s => s.pc = .netDisconnect) := by
  apply leads_of_rank (fun s => LoopOk s ∧ s.failing) Main.toDisconnect
  · exact fun s _ hzero => toDisconnect_eq_zero hzero
  · exact fun s e t h hpc _ he => failing_step h.1 h.2 hpc he
  · exact fun s h => ⟨h, toDisconnect_le s⟩

theorem exec_errorTimer (s : Main) (ans : Answers) :
    (exec s ans).errorTimer =
      if s.pc = .armError then SwTimer.setTimeout s.clock.timers 3000 else s.errorTimer := by
  cases hpc : s.pc <;> simp only [exec, hpc, reduceCtorEq, if_false, if_true] <;> repeat' split
  all_goals rfl

theorem exec_toArmError (ans : Answers) (hpc : (exec s ans).pc = .armError) :
    s.pc = .netDisconnect := by
  cases hs : s.pc <;> simp only [exec, hs] at hpc <;> repeat' split at hpc
  all_goals simp [Main.goto, Main.setState, Main.call, Main.setWorld] at hpc
  trivial

/-- On the way to `net_Connect`, in `STATE_DELAY` with `errorTimer` set at the tick `a`. -/
structure Returning (a : Nat) (s : Main) : Prop extends LoopOk s where
  away : s.phase = .idle ∨ s.phase = .closed
  quiet : s.phase = .idle → s.disconnected = false
  set : s.pc ≠ .armError
  past : a ≤ s.clock.elapsed
  armed : s.waiting → s.clock.Armed s.errorTimer 3000 a
  period : s.clock.timers.msPerTick = msPerTick

/-- lwIP takes no connection away where there is none. -/
def LosesNone (s : Main) (e : MainEvent) : Prop :=
  ∀ le, e = .lwip le → s.world.inst.hNet = none → le.loses = false

/-- lwIP has an address when the loop asks for it. -/
def Addressed (s : Main) (e : MainEvent) : Prop :=
  ∀ ans, e = .exec ans → s.pc = .getIpAddr → ans.ipAddr ≠ 0

theorem losesNone_of_onCurrentPcb {e : MainEvent} (hcur : OnCurrentPcb s e) : LosesNone s e := by
  rintro le rfl hnone
  rcases hcur with rfl | ⟨p, hp, _⟩
  · rfl
  · simp [hnone] at hp

theorem control_of_down (h : LoopOk s) (hnone : s.world.inst.hNet = none) {e : MainEvent}
    (hlose : LosesNone s e) (hno : ∀ ans, e ≠ .exec ans) (he : mainStep s e = some s') :
    s'.control = s.control := by
  rcases control_step h he with ⟨ans, rfl, _⟩ | ⟨le, rfl, hl, _⟩ | hsame
  · exact absurd rfl (hno ans)
  · rw [hlose le rfl hnone] at hl
    simp at hl
  · exact hsame

namespace Returning

variable {a : Nat}

theorem exec_away (h : Returning a s) (ans : Answers) (hpc : s.pc ≠ .netConnect) :
    ((exec s ans).phase = .idle ∨ (exec s ans).phase = .closed) ∧
      ((exec s ans).phase = .idle → (exec s ans).disconnected = false) := by
  have haway := h.away
  cases exec_move ans h.placed with
  | stay hp hn =>
    rw [hp, Main.disconnected, Main.world, hn]
    exact ⟨haway, h.quiet⟩
  | connect hdial => exact absurd hdial hpc
  | fail hp => rcases hp with hp | hp <;> simp [hp] at haway
  | alarm hp hf =>
    have hidle := haway.resolve_right hp
    simp [h.quiet hidle] at hf
  | clear hp => simp [hp] at haway
  | reset hp => simp [hp] at haway
  | disconnect _ hp => simp [hp] at haway
  | settle _ hp' hn =>
    refine ⟨.inl hp', fun _ => ?_⟩
    rcases hn with ⟨hf, hn⟩ | hn
    · rw [Main.disconnected, Main.world, hn]
      exact hf
    · rw [Main.disconnected, Main.world, hn]
      rfl
  | rest _ hp' => exact ⟨.inr hp', fun hidle => by simp [hp'] at hidle⟩

theorem exec_armed (h : Returning a s) (ans : Answers) (hw : (exec s ans).waiting) :
    (exec s ans).clock.Armed (exec s ans).errorTimer 3000 a := by
  rw [exec_clock]
  rcases exec_waiting ans h.placed hw with ⟨hpc, _⟩ | ⟨hwait, _, htimer⟩
  · exact absurd hpc h.set
  · rw [htimer]
    exact h.armed hwait

theorem interrupt (h : Returning a s) {e : MainEvent} (hlose : LosesNone s e)
    (he : mainStep s e = some s') (hno : ∀ ans, e ≠ .exec ans) : Returning a s' := by
  have hok := h.toLoopOk.step he
  have hflag : s'.disconnected = s.disconnected :=
    congrArg Control.flag (control_of_down h.toLoopOk (h.down h.away) hlose hno he)
  obtain ⟨net, clock, hclock, rfl⟩ := mainStep_interrupt he hno
  refine { hok with
    away := h.away
    quiet := fun hidle => hflag.trans (h.quiet hidle)
    set := h.set
    past := ?_
    armed := fun hw => ?_
    period := ?_ }
  · rcases hclock with rfl | rfl
    · exact h.past
    · exact h.past.trans (Nat.le_succ _)
  · rcases hclock with rfl | rfl
    · exact h.armed hw
    · exact (h.armed hw).tick
  · rcases hclock with rfl | rfl
    · exact h.period
    · exact h.period

theorem step (h : Returning a s) (hpc : s.pc ≠ .netConnect) {e : MainEvent}
    (hlose : LosesNone s e) (he : mainStep s e = some s') : Returning a s' := by
  have hok := h.toLoopOk.step he
  rcases e.exec_or with ⟨ans, rfl⟩ | ⟨hno, _⟩
  · obtain ⟨_, rfl⟩ := mainStep_exec he
    obtain ⟨haway, hquiet⟩ := h.exec_away ans hpc
    refine { hok with
      away := haway
      quiet := hquiet
      set := fun hset => ?_
      past := ?_
      armed := h.exec_armed ans
      period := ?_ }
    · have hclosing := exec_toArmError ans hset
      have haway := h.away
      simp [Main.phase, hclosing] at haway
    · rw [exec_clock]
      exact h.past
    · rw [exec_clock]
      exact h.period
  · exact h.interrupt hlose he hno

end Returning

theorem Clock.Armed.isTimedOut {c : Clock} {t : SwTimer} {ms : UInt32} {a : Nat}
    (h : c.Armed t ms a) (hp : c.timers.msPerTick = msPerTick)
    (hlow : a + ms.toNat / msPerTick.toNat ≤ c.elapsed) (hhigh : c.elapsed < a + 2 ^ 32) :
    SwTimer.isTimedOut c.timers t = true := by
  obtain ⟨m, n, rfl, hc, he⟩ := h
  have hperiod : m.msPerTick = msPerTick := by
    rw [hc, SwTimer.tick_iterate_msPerTick] at hp
    exact hp
  rw [hc, SwTimer.isTimedOut_iterate, hperiod, Nat.mod_eq_of_lt (by omega)]
  omega

/-- A bound on the statements until `net_Connect`, once `errorTimer` has expired. -/
def Main.toDial (s : Main) : Nat :=
  match s.pc with
  | .setDelay => 11
  | .top => if s.runState = .delay then 10 else 4
  | .clearDisconnected => 9
  | .testDelay => 8
  | .dispatch => if s.runState = .delay then 7 else 3
  | .testError => 6
  | .setWaitIp => 5
  | .testIpAddr => if s.ipAddr = 0 then 5 else 1
  | .getIpAddr => 2
  | _ => 0

theorem toDial_le (s : Main) : s.toDial ≤ 11 := by
  cases hs : s.pc <;> simp only [Main.toDial, hs] <;> (try split) <;> simp

theorem Returning.place {a : Nat} (h : Returning a s) :
    s.pc = .setDelay ∨
      s.runState = .delay ∧
        s.pc ∈ [.top, .clearDisconnected, .testDelay, .dispatch, .testError, .setWaitIp] ∨
      s.runState = .waitIp ∧ s.pc ∈ [.top, .dispatch, .getIpAddr, .testIpAddr, .netConnect] := by
  have haway := h.away
  have hplaced := h.placed
  have hset := h.set
  unfold Main.placed at hplaced
  cases hs : s.pc <;> cases hr : s.runState <;>
    simp [hs, hr, Main.phase, Pc.states] at haway hplaced hset ⊢
  all_goals
    split at haway <;> simp at haway

theorem Returning.toDial_eq_zero {a : Nat} (h : Returning a s) (hz : s.toDial = 0) :
    s.pc = .netConnect := by
  rcases h.place with hs | ⟨hr, hs⟩ | ⟨hr, hs⟩
  · simp [Main.toDial, hs] at hz
  · simp only [List.mem_cons, List.not_mem_nil, or_false] at hs
    rcases hs with hs | hs | hs | hs | hs | hs <;> simp [Main.toDial, hs, hr] at hz
  · simp only [List.mem_cons, List.not_mem_nil, or_false] at hs
    rcases hs with hs | hs | hs | hs | hs
    · simp [Main.toDial, hs, hr] at hz
    · simp [Main.toDial, hs, hr] at hz
    · simp [Main.toDial, hs] at hz
    · simp only [Main.toDial, hs] at hz
      split at hz <;> simp at hz
    · exact hs

theorem Returning.exec_toDial {a : Nat} (h : Returning a s) (hpc : s.pc ≠ .netConnect)
    {ans : Answers} (haddr : s.pc = .getIpAddr → ans.ipAddr ≠ 0)
    (hout : s.waiting → SwTimer.isTimedOut s.clock.timers s.errorTimer = true) :
    (exec s ans).toDial < s.toDial := by
  have hquiet := h.quiet
  rcases h.place with hs | ⟨hr, hs⟩ | ⟨hr, hs⟩
  · simp [exec, hs, Main.toDial, Main.setState]
  · have hfired := hout (.inr hr)
    simp only [List.mem_cons, List.not_mem_nil, or_false] at hs
    rcases hs with hs | hs | hs | hs | hs | hs <;> simp only [exec, hs, hr] <;> (try split) <;>
      simp_all [Main.toDial, Main.goto, Main.setState, Main.setWorld]
  · simp only [List.mem_cons, List.not_mem_nil, or_false] at hs
    rcases hs with hs | hs | hs | hs | hs
    · have hidle : s.phase = .idle := by simp [Main.phase, hs, hr]
      simp [exec, hs, hquiet hidle, Main.toDial, Main.goto, hr]
    · simp [exec, hs, hr, Main.toDial, Main.goto]
    · simp [exec, hs, Main.toDial, haddr hs]
    · by_cases hip : s.ipAddr = 0 <;> simp [exec, hs, hip, hr, Main.toDial, Main.goto]
    · exact absurd hs hpc

def MainEvent.addressed : MainEvent → Prop
  | .exec ans => ans.ipAddr ≠ 0
  | _ => True

theorem mainStep_elapsed {e : MainEvent} (he : mainStep s e = some s') :
    s.clock.elapsed ≤ s'.clock.elapsed := by
  rcases e.exec_or with ⟨ans, rfl⟩ | ⟨hno, _⟩
  · obtain ⟨_, rfl⟩ := mainStep_exec he
    rw [exec_clock]
  · obtain ⟨net, clock, hclock, rfl⟩ := mainStep_interrupt he hno
    rcases hclock with rfl | rfl
    · exact Nat.le_refl _
    · exact Nat.le_succ _

theorem leads_dial (a : Nat) :
    Leads mainStep MainEvent.isExec
      (fun s e => (LosesNone s e ∧ Addressed s e) ∧ s.clock.elapsed < a + 2 ^ 32) 11
      (fun s => Returning a s ∧ a + 300 ≤ s.clock.elapsed)
      (fun s => Returning a s ∧ s.pc = .netConnect) := by
  apply leads_of_rank (fun s => Returning a s ∧ a + 300 ≤ s.clock.elapsed) Main.toDial
  · exact fun s h hzero => ⟨h.1, h.1.toDial_eq_zero hzero⟩
  · intro s e t h hq hok he
    obtain ⟨hret, hlow⟩ := h
    obtain ⟨⟨hlose, haddr⟩, hhigh⟩ := hok
    have hpc : s.pc ≠ .netConnect := fun hpc => hq ⟨hret, hpc⟩
    have hnext := hret.step hpc hlose he
    refine ⟨⟨hnext, hlow.trans (mainStep_elapsed he)⟩, ?_⟩
    rcases e.exec_or with ⟨ans, rfl⟩ | ⟨hno, hcount⟩
    · obtain ⟨_, rfl⟩ := mainStep_exec he
      exact hret.exec_toDial hpc (haddr ans rfl) fun hw =>
        (hret.armed hw).isTimedOut hret.period hlow hhigh
    · obtain ⟨net, clock, _, rfl⟩ := mainStep_interrupt he hno
      rw [hcount]
      exact Nat.le_refl _
  · exact fun s h => ⟨h, toDial_le s⟩

/-- `net_Disconnect` and what it leaves to do before the delay. -/
structure Closing (start : Nat) (s : Main) : Prop extends LoopOk s where
  at_ : s.pc = .netDisconnect ∨ s.pc = .armError
  period : s.clock.timers.msPerTick = msPerTick
  past : start ≤ s.clock.elapsed

def Main.toDelay (s : Main) : Nat :=
  match s.pc with
  | .netDisconnect => 2
  | .armError => 1
  | _ => 0

theorem Closing.exec {start : Nat} (h : Closing start s) {ans : Answers}
    (hok : LoopOk (exec s ans)) :
    (Closing start (exec s ans) ∨ ∃ a, start ≤ a ∧ Returning a (exec s ans)) ∧
      (exec s ans).toDelay + 1 ≤ s.toDelay := by
  have hclock := exec_clock s ans
  rcases h.at_ with hs | hs
  · have hnext : (McuTest.exec s ans).pc = .armError := by simp [McuTest.exec, hs, Main.call]
    refine ⟨.inl { hok with at_ := .inr hnext, period := ?_, past := ?_ }, ?_⟩
    · rw [hclock]
      exact h.period
    · rw [hclock]
      exact h.past
    · simp [Main.toDelay, hnext, hs]
  · have hnext : (McuTest.exec s ans).pc = .setDelay := by simp [McuTest.exec, hs]
    have hclosed : (McuTest.exec s ans).phase = .closed := by simp [Main.phase, hnext]
    refine ⟨.inr ⟨s.clock.elapsed, h.past, { hok with
      away := .inr hclosed
      quiet := fun hidle => by simp [hclosed] at hidle
      set := by simp [hnext]
      past := ?_
      armed := fun _ => ?_
      period := ?_ }⟩, ?_⟩
    · rw [hclock]
    · rw [exec_errorTimer, if_pos hs, hclock]
      exact armed_setTimeout s.clock 3000
    · rw [hclock]
      exact h.period
    · simp [Main.toDelay, hnext, hs]

theorem Closing.interrupt {start : Nat} (h : Closing start s) {e : MainEvent}
    (he : mainStep s e = some s') (hno : ∀ ans, e ≠ .exec ans) :
    Closing start s' ∧ s'.toDelay = s.toDelay := by
  have hok := h.toLoopOk.step he
  have hpast := h.past.trans (mainStep_elapsed he)
  obtain ⟨net, clock, hclock, rfl⟩ := mainStep_interrupt he hno
  refine ⟨{ hok with at_ := h.at_, period := ?_, past := hpast }, rfl⟩
  rcases hclock with rfl | rfl
  · exact h.period
  · exact h.period

theorem leads_returning (ok : Main → MainEvent → Prop) (start : Nat) :
    Leads mainStep MainEvent.isExec ok 2 (fun s => Closing start s)
      (fun s => ∃ a, start ≤ a ∧ Returning a s) := by
  apply leads_of_rank (fun s => Closing start s ∨ ∃ a, start ≤ a ∧ Returning a s) Main.toDelay
  · rintro s (h | h) hzero
    · rcases h.at_ with hs | hs <;> simp [Main.toDelay, hs] at hzero
    · exact h
  · intro s e t h hq _ he
    have hclosing := h.resolve_right hq
    have hok := hclosing.toLoopOk.step he
    rcases e.exec_or with ⟨ans, rfl⟩ | ⟨hno, hcount⟩
    · obtain ⟨_, rfl⟩ := mainStep_exec he
      exact hclosing.exec hok
    · obtain ⟨hnext, hrank⟩ := hclosing.interrupt he hno
      rw [hcount, hrank]
      exact ⟨.inl hnext, Nat.le_refl _⟩
  · intro s h
    refine ⟨.inl h, ?_⟩
    rcases h.at_ with hs | hs <;> simp [Main.toDelay, hs]

theorem period_step {e : MainEvent} (h : s.clock.timers.msPerTick = msPerTick)
    (he : mainStep s e = some s') : s'.clock.timers.msPerTick = msPerTick := by
  rcases e.exec_or with ⟨ans, rfl⟩ | ⟨hno, _⟩
  · obtain ⟨_, rfl⟩ := mainStep_exec he
    rw [exec_clock]
    exact h
  · obtain ⟨net, clock, rfl | rfl, rfl⟩ := mainStep_interrupt he hno
    · exact h
    · exact h

/-- A run that ends less than 2^32 ticks after `a` has no later step. -/
theorem allSteps_soon {ok : Main → MainEvent → Prop} {a : Nat} {es : List MainEvent} {t : Main}
    (hr : Runs.run mainStep s es = some t) (hok : Runs.AllSteps mainStep ok s es)
    (hwrap : t.clock.elapsed < a + 2 ^ 32) :
    Runs.AllSteps mainStep (fun s e => ok s e ∧ s.clock.elapsed < a + 2 ^ 32) s es := by
  have hmono := allSteps_mono (f := fun s => s.clock.elapsed) (fun _ _ _ he => mainStep_elapsed he) hr
  exact allSteps_imp (fun _ _ hs => ⟨hs.1, Nat.lt_of_le_of_lt hs.2 hwrap⟩) (allSteps_and hok hmono)

/-- From the call of `net_Disconnect` on the delay is due, and with it the next
`net_Connect`. -/
theorem closing_redials {start : Nat} {es₁ es₂ es₃ : List MainEvent} {t₁ t₂ t₃ : Main}
    (h : Closing start s) (h₁ : Runs.run mainStep s es₁ = some t₁)
    (h₂ : Runs.run mainStep t₁ es₂ = some t₂) (h₃ : Runs.run mainStep t₂ es₃ = some t₃)
    (hlose : Runs.AllSteps mainStep LosesNone s (es₁ ++ (es₂ ++ es₃)))
    (hn₁ : 2 ≤ es₁.countP MainEvent.isExec) (hn₂ : t₁.clock.elapsed + 300 ≤ t₂.clock.elapsed)
    (hn₃ : 11 ≤ es₃.countP MainEvent.isExec) (haddr : Runs.AllSteps mainStep Addressed t₂ es₃)
    (hwrap : t₃.clock.elapsed < start + 2 ^ 32) :
    ComesBy mainStep (fun v => v.pc = .netConnect) s (es₁ ++ (es₂ ++ es₃)) := by
  obtain ⟨hlose₁, hlose₂⟩ := (allSteps_append h₁).mp hlose
  obtain ⟨hlose₂, hlose₃⟩ := (allSteps_append h₂).mp hlose₂
  obtain ⟨pre, post, w, rfl, hw, ⟨a, hstart, hret⟩, _⟩ := 
    leads_returning LosesNone start s t₁ es₁ h hlose₁ h₁ hn₁
  have hpost := run_rest hw h₁
  have hset : a ≤ t₁.clock.elapsed :=
    hret.past.trans (run_mono (f := fun s => s.clock.elapsed) (fun _ _ _ he => mainStep_elapsed he) hpost)
  have hwait : Runs.run mainStep w (post ++ es₂) = some t₂ := by
    rw [History.run_append, hpost]
    exact h₂
  have hloseWait := (allSteps_append hpost).mpr ⟨((allSteps_append hw).mp hlose₁).2, hlose₂⟩
  have hwaits : Returning a t₂ ∨ ComesBy mainStep (fun v => v.pc = .netConnect) w (post ++ es₂) :=
    stays_or_comesBy (fun _ _ _ hs hpc hlose he => Returning.step hs hpc hlose he) hret hloseWait hwait
  have hdials : ComesBy mainStep (fun v => v.pc = .netConnect) w ((post ++ es₂) ++ es₃) := by
    rcases hwaits with hret₂ | hcomes
    · have hsoon := allSteps_soon h₃ (allSteps_and hlose₃ haddr) (a := a) (by omega)
      have hdial := leads_dial a t₂ t₃ es₃ ⟨hret₂, by omega⟩ hsoon h₃ hn₃
      exact ComesBy.after hwait (hdial.mono (fun _ h => h.2) (Nat.le_refl _)).comesBy
    · exact hcomes.append es₃
  have hall := hdials.after hw
  simpa only [List.append_assoc] using hall

theorem loopOk_run {clock : Clock} {es : List MainEvent}
    (hr : Runs.run mainStep (Main.init clock) es = some s) : LoopOk s :=
  Runs.run_invariant' (fun _ _ _ h he => LoopOk.step h he) (loopOk_init clock) hr

/-- However the connection has failed, `net_Disconnect` is at most 20 statements
away, whatever lwIP, umqtt and the interrupts do in the meantime. -/
theorem recovers (clock : Clock) {es es' : List MainEvent} {t : Main}
    (hr : Runs.run mainStep (Main.init clock) es = some s) (hf : s.failing)
    (hr' : Runs.run mainStep s es' = some t) (hn : 20 ≤ es'.countP MainEvent.isExec) :
    Meets mainStep MainEvent.isExec 20 (fun u => u.pc = .netDisconnect) s es' := by
  have hok := loopOk_run hr
  have hall : Runs.AllSteps mainStep (fun _ _ => True) s es' :=
    Runs.allSteps_of_forall (fun _ _ => trivial) s es'
  exact leads_disconnect (fun _ _ => True) s t es' ⟨hok, hf⟩ hall hr' hn

theorem recovers_lost_session :
    ∃ s : Main, Runs.run mainStep (Main.init {}) lostSession = some s ∧ s.failing ∧
      Meets mainStep MainEvent.isExec 20 (fun u => u.pc = .netDisconnect) s
        (List.replicate 20 (.exec {})) := by
  have hfacts : (Runs.run mainStep (Main.init {}) lostSession).map (fun s =>
      (s.runState, s.pc, s.disconnected,
        (Runs.run mainStep s (List.replicate 20 (.exec {}))).isSome)) =
      some (.waitMqtt, .top, true, true) := by
    decide +kernel
  obtain ⟨s, hs, hf⟩ := Option.map_eq_some_iff.mp hfacts
  simp only [Prod.mk.injEq] at hf
  obtain ⟨hstate, hpc, hlost, hrest⟩ := hf
  have hfailing : s.failing := by simp [Main.failing, hstate, hpc, hlost]
  obtain ⟨t, ht⟩ := Option.isSome_iff_exists.mp hrest
  exact ⟨s, hs, hfailing, recovers {} hs hfailing ht (by decide)⟩

theorem closing_of_run {clock : Clock} {es : List MainEvent} {start : Nat}
    (hr : Runs.run mainStep (Main.init clock) es = some s) (hpc : s.pc = .netDisconnect)
    (hstart : start ≤ s.clock.elapsed) : Closing start s :=
  { loopOk_run hr with
    at_ := .inl hpc
    period := Runs.run_invariant' (I := fun s => s.clock.timers.msPerTick = msPerTick)
      (fun _ _ _ h he => period_step h he) rfl hr
    past := hstart }

/-- A node that has failed disconnects and dials again: 22 statements, 300 ticks
and 11 more statements with an address suffice. -/
theorem comes_back (clock : Clock) {es es₁ es₂ es₃ : List MainEvent} {t₁ t₂ t₃ : Main}
    (hr : Runs.run mainStep (Main.init clock) es = some s) (hf : s.failing)
    (h₁ : Runs.run mainStep s es₁ = some t₁) (h₂ : Runs.run mainStep t₁ es₂ = some t₂)
    (h₃ : Runs.run mainStep t₂ es₃ = some t₃)
    (hcur : Runs.AllSteps mainStep OnCurrentPcb s (es₁ ++ (es₂ ++ es₃)))
    (hn₁ : 22 ≤ es₁.countP MainEvent.isExec) (hn₂ : t₁.clock.elapsed + 300 ≤ t₂.clock.elapsed)
    (hn₃ : 11 ≤ es₃.countP MainEvent.isExec) (haddr : ∀ e ∈ es₃, e.addressed)
    (hwrap : t₃.clock.elapsed < s.clock.elapsed + 2 ^ 32) :
    ∃ pre post u, es₁ ++ (es₂ ++ es₃) = pre ++ post ∧ Runs.run mainStep s pre = some u ∧
      u.pc = .netDisconnect ∧ ComesBy mainStep (fun v => v.pc = .netConnect) u post := by
  have hok := loopOk_run hr
  obtain ⟨hcur₁, _⟩ := (allSteps_append h₁).mp hcur
  obtain ⟨pre, post, u, rfl, hu, hpc, hpre⟩ :=
    leads_disconnect OnCurrentPcb s t₁ es₁ ⟨hok, hf⟩ hcur₁ h₁ (by omega)
  have hreach : Runs.run mainStep (Main.init clock) (es ++ pre) = some u := by
    rw [History.run_append, hr]
    exact hu
  have hstart := run_mono (f := fun s => s.clock.elapsed) (fun _ _ _ he => mainStep_elapsed he) hu
  have hlose := allSteps_imp (fun _ _ hcur => losesNone_of_onCurrentPcb hcur) hcur
  rw [List.append_assoc] at hlose
  obtain ⟨_, hlosePost⟩ := (allSteps_append hu).mp hlose
  have hclosing : Closing s.clock.elapsed u := closing_of_run hreach hpc hstart
  have hcount : 2 ≤ post.countP MainEvent.isExec := by
    rw [List.countP_append] at hn₁
    omega
  have haddressed : Runs.AllSteps mainStep Addressed t₂ es₃ := by
    refine Runs.allSteps_of_mem (fun v e he ans hans _ => ?_) t₂
    have hnonzero := haddr e he
    rwa [hans] at hnonzero
  refine ⟨pre, post ++ (es₂ ++ es₃), u, by rw [List.append_assoc], hu, hpc, ?_⟩
  exact closing_redials hclosing (run_rest hu h₁) h₂ h₃ hlosePost hcount hn₂ hn₃ haddressed hwrap

def awaySession : List MainEvent :=
  List.replicate 22 (MainEvent.exec {}) ++ (List.replicate 300 MainEvent.sysTick ++
    List.replicate 11 (MainEvent.exec { ipAddr := 1 }))

theorem comes_back_lost_session :
    ∃ s : Main, Runs.run mainStep (Main.init {}) lostSession = some s ∧ s.failing ∧
      ∃ pre post u, awaySession = pre ++ post ∧ Runs.run mainStep s pre = some u ∧
        u.pc = .netDisconnect ∧ ComesBy mainStep (fun v => v.pc = .netConnect) u post := by
  have hfacts : (Runs.run mainStep (Main.init {}) lostSession).bind (fun s =>
      (Runs.run mainStep s (List.replicate 22 (.exec {}))).bind fun t₁ =>
        (Runs.run mainStep t₁ (List.replicate 300 .sysTick)).bind fun t₂ =>
          (Runs.run mainStep t₂ (List.replicate 11 (.exec { ipAddr := 1 }))).map fun t₃ =>
            (s.runState, s.pc, s.disconnected, t₁.clock.elapsed, t₂.clock.elapsed,
              t₃.clock.elapsed)) =
      some (.waitMqtt, .top, true, 0, 300, 300) := by
    decide +kernel
  have hcur : Runs.AllSteps mainStep OnCurrentPcb (Main.init {}) (lostSession ++ awaySession) := by
    decide +kernel
  obtain ⟨s, hs, hf⟩ := Option.bind_eq_some_iff.mp hfacts
  obtain ⟨t₁, h₁, hf⟩ := Option.bind_eq_some_iff.mp hf
  obtain ⟨t₂, h₂, hf⟩ := Option.bind_eq_some_iff.mp hf
  obtain ⟨t₃, h₃, hf⟩ := Option.map_eq_some_iff.mp hf
  simp only [Prod.mk.injEq] at hf
  obtain ⟨hstate, hpc, hlost, hn₁, hn₂, hn₃⟩ := hf
  have hfailing : s.failing := by simp [Main.failing, hstate, hpc, hlost]
  have haddr : ∀ e ∈ List.replicate 11 (MainEvent.exec { ipAddr := 1 }), e.addressed := by
    intro e he
    rw [List.eq_of_mem_replicate he]
    simp [MainEvent.addressed]
  refine ⟨s, hs, hfailing, ?_⟩
  exact comes_back {} hs hfailing h₁ h₂ h₃ ((allSteps_append hs).mp hcur).2 (by decide)
    (by omega) (by decide) haddr (by omega)

end McuTest
