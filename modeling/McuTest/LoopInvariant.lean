import McuTest.MainLoop

/-! Every step of the main loop is a step of net_client or leaves it alone,
and where the loop stands tells when there is no connection. -/

namespace McuTest

variable {s s' : Main}

def Main.transportEvent (s : Main) : MainEvent → Option TransportEvent
  | .exec ans =>
    match s.pc with
    | .netConnect => some (.call (netConnectCall ans))
    | .netDisconnect => some (.call (.disconnect ans.closeErr))
    | _ => none
  | .transport e => some e
  | .lwip e => some (.lwip e)
  | .sysTick => none

def Main.netEvent (s : Main) (e : MainEvent) : Option NetEvent :=
  (s.transportEvent e).bind s.net.netEvent

def Main.cleared (s : Main) : Transport netclientQueueSize App :=
  { s.net with world := { s.world with app := { netWasDisconnected := false } } }

theorem exec_net (s : Main) (ans : Answers) (hc : s.pc ≠ .netConnect)
    (hd : s.pc ≠ .netDisconnect) :
    (exec s ans).net = if s.pc = .clearDisconnected then s.cleared else s.net := by
  cases hpc : s.pc <;> simp only [exec, hpc, reduceCtorEq, if_false, if_true] <;>
    first
    | rfl
    | exact absurd hpc hc
    | exact absurd hpc hd
    | (split <;> rfl)

theorem mainStep_net {e : MainEvent} (he : mainStep s e = some s') :
    (∃ te, s.transportEvent e = some te ∧ transportStep s.net te = some s'.net) ∨
      s.transportEvent e = none ∧ (s'.net = s.net ∨ s'.net = s.cleared) := by
  cases e with
  | exec ans =>
    simp only [mainStep, Option.ite_none_right_eq_some, Option.some.injEq] at he
    obtain ⟨hp, rfl⟩ := he
    by_cases hc : s.pc = .netConnect
    · refine .inl ⟨.call (netConnectCall ans), by simp [Main.transportEvent, hc], ?_⟩
      simp [transportStep, netConnectCall, hp, exec, hc, Main.setWorld, Main.call, Main.world]
    · by_cases hd : s.pc = .netDisconnect
      · refine .inl ⟨.call (.disconnect ans.closeErr), by simp [Main.transportEvent, hd], ?_⟩
        simp [transportStep, hp, exec, hd, Main.setWorld, Main.call, Main.world]
      · have hnet := exec_net s ans hc hd
        refine .inr ⟨?_, ?_⟩
        · cases hpc : s.pc <;> simp_all [Main.transportEvent]
        · by_cases hclear : s.pc = .clearDisconnected
          · exact .inr (by rw [hnet, if_pos hclear])
          · exact .inl (by rw [hnet, if_neg hclear])
  | transport e =>
    simp only [mainStep, Option.ite_none_right_eq_some, Option.map_eq_some_iff] at he
    obtain ⟨_, t, ht, rfl⟩ := he
    exact .inl ⟨e, rfl, ht⟩
  | lwip e =>
    obtain ⟨w, hw, rfl⟩ := Option.map_eq_some_iff.mp he
    have hw' : lwipStep s.net.world e = some w := hw
    exact .inl ⟨.lwip e, rfl, by simp [transportStep, hw', Main.setWorld]⟩
  | sysTick =>
    obtain rfl := Option.some.inj he
    exact .inr ⟨rfl, .inl rfl⟩

theorem mainStep_world {e : MainEvent} (he : mainStep s e = some s') :
    (∃ d, s.netEvent e = some d ∧ netStep s.world d = some s'.world) ∨
      s.netEvent e = none ∧ s'.world.inst = s.world.inst ∧ s'.world.lwip = s.world.lwip := by
  rcases mainStep_net he with ⟨te, hte, ht⟩ | ⟨hnone, hnet⟩
  · rcases transportStep_net ht with ⟨d, hd, hn⟩ | ⟨hd, hw⟩
    · exact .inl ⟨d, by simp [Main.netEvent, hte, hd], hn⟩
    · have hsame : s'.world = s.world := hw
      exact .inr ⟨by simp [Main.netEvent, hte, hd], by rw [hsame], by rw [hsame]⟩
  · refine .inr ⟨by simp [Main.netEvent, hnone], ?_⟩
    rcases hnet with hnet | hnet
    · simp [Main.world, hnet]
    · simp [Main.world, hnet, Main.cleared]

/-- The steps of net_client that the loop takes, and where it takes them. -/
inductive Drives (s : Main) : MainEvent → NetEvent → Prop where
  | connect (ans : Answers) (hpc : s.pc = .netConnect) : Drives s (.exec ans)
      (.call (.connect serverAddr serverPort ans.avail ans.connErr ans.closeErr))
  | disconnect (ans : Answers) (hpc : s.pc = .netDisconnect) :
      Drives s (.exec ans) (.call (.disconnect ans.closeErr))
  | write (buf : List Byte) (len : UInt32) (isMore : Bool) (err : ErrT)
      (hin : s.pc.inUmqtt = true) :
      Drives s (.transport (.call (.writePacket buf len isMore err)))
        (.call (.writePacket buf len isMore err))
  | read (len : UInt16) (hin : s.pc.inUmqtt = true) (hp : s.net.peeked = some len) :
      Drives s (.transport .copy) (.call (.readPacket len))
  | lwip (e : LwipEvent) : Drives s (.lwip e) (.lwip e)

theorem drives_of_netEvent {e : MainEvent} (he : mainStep s e = some s') {d : NetEvent}
    (hd : s.netEvent e = some d) : Drives s e d := by
  cases e with
  | exec ans =>
    cases hpc : s.pc <;> simp [Main.netEvent, Main.transportEvent, hpc, Transport.netEvent] at hd
    · subst d
      exact .connect ans hpc
    · subst d
      exact .disconnect ans hpc
  | transport te =>
    simp only [mainStep, Option.ite_none_right_eq_some] at he
    obtain ⟨⟨hin, hby⟩, _⟩ := he
    cases te with
    | call c =>
      obtain rfl := Option.some.inj hd
      cases c with
      | writePacket buf len isMore err => exact .write buf len isMore err hin
      | _ => simp [TransportEvent.byUmqtt] at hby
    | copy =>
      obtain ⟨len, hp, rfl⟩ := Option.map_eq_some_iff.mp hd
      exact .read len hin hp
    | lwip e => simp [TransportEvent.byUmqtt] at hby
    | peek => simp [Main.netEvent, Main.transportEvent, Transport.netEvent] at hd
    | allocFail => simp [Main.netEvent, Main.transportEvent, Transport.netEvent] at hd
  | lwip e =>
    obtain rfl := Option.some.inj hd
    exact .lwip e
  | sysTick => simp [Main.netEvent, Main.transportEvent] at hd

def Pc.states : Pc → List AppState
  | .top | .clearDisconnected | .testDelay | .dispatch =>
    [.waitIp, .waitNet, .waitMqtt, .runMqtt, .recovery, .delay]
  | .resetState => [.waitIp, .waitNet, .waitMqtt, .runMqtt, .recovery]
  | .getIpAddr | .testIpAddr | .netConnect | .testRet | .setWaitNet => [.waitIp]
  | .setRecovery => [.waitIp, .waitNet]
  | .testConnected | .umqttConnect | .testConnectErr | .setWaitMqtt => [.waitNet]
  | .getConnectedStatus | .testStatus | .setRunMqtt => [.waitMqtt]
  | .umqttSubscribe | .publishStatus | .publishMac | .publishIp => [.runMqtt]
  | .umqttRun | .testRunErr | .setRunRecovery => [.waitMqtt, .runMqtt]
  | .testReport | .armReport | .publishUptime => [.waitMqtt, .runMqtt, .recovery]
  | .umqttDisconnect | .netDisconnect | .armError | .setDelay => [.recovery]
  | .testError | .setWaitIp => [.delay]

def Main.placed (s : Main) : Prop :=
  s.runState ∈ s.pc.states

theorem exec_placed (ans : Answers) (h : s.placed) : (exec s ans).placed := by
  unfold Main.placed at h
  cases hpc : s.pc <;> rw [hpc] at h <;> simp only [exec, hpc] <;> repeat' split
  all_goals
    simp_all [Main.placed, Main.goto, Main.setState, Main.call, Main.setWorld, Pc.states]
  all_goals tauto

/-- Where the loop stands with its connection: `idle` before `net_Connect`,
`up` or `failed` after it, `recovering` until `net_Disconnect`, `closed` after
it; `alarm` once the flag has been seen, and `cleared` once it is cleared. -/
inductive Phase where
  | idle
  | up
  | failed
  | recovering
  | closed
  | alarm
  | cleared
  deriving DecidableEq

def Main.phase (s : Main) : Phase :=
  match s.pc with
  | .top =>
    match s.runState with
    | .waitIp => .idle
    | .recovery => .recovering
    | .delay => .closed
    | _ => .up
  | .dispatch =>
    match s.runState with
    | .waitIp | .delay => .idle
    | .recovery => .recovering
    | _ => .up
  | .clearDisconnected => if s.runState = .delay then .closed else .alarm
  | .testDelay => if s.runState = .delay then .idle else .cleared
  | .resetState => .cleared
  | .getIpAddr | .testIpAddr | .netConnect | .testError | .setWaitIp => .idle
  | .testRet => if s.ret = 0 then .up else .failed
  | .setRecovery => if s.runState = .waitIp then .failed else .up
  | .umqttDisconnect | .netDisconnect => .recovering
  | .armError | .setDelay => .closed
  | _ => .up

inductive Move (s : Main) (ans : Answers) (s' : Main) : Prop where
  | stay (hp : s'.phase = s.phase) (hn : s'.net = s.net)
  | connect (hpc : s.pc = .netConnect) (hp : s.phase = .idle)
      (hp' : s'.phase = if s'.ret = 0 then .up else .failed)
      (hret : s'.ret = (Net.connect s.world .inst serverAddr serverPort ans.avail ans.connErr
        ans.closeErr).1)
  | fail (hp : s.phase = .failed ∨ s.phase = .up) (hp' : s'.phase = .recovering)
      (hn : s'.net = s.net)
  | alarm (hp : s.phase ≠ .closed) (hf : s.disconnected = true) (hp' : s'.phase = .alarm)
      (hn : s'.net = s.net)
  | clear (hp : s.phase = .alarm) (hp' : s'.phase = .cleared) (hn : s'.net = s.cleared)
  | reset (hp : s.phase = .cleared) (hp' : s'.phase = .recovering) (hn : s'.net = s.net)
  | disconnect (hpc : s.pc = .netDisconnect) (hp : s.phase = .recovering) (hp' : s'.phase = .closed)
  | settle (hp : s.phase = .closed) (hp' : s'.phase = .idle)
      (hn : s.disconnected = false ∧ s'.net = s.net ∨ s'.net = s.cleared)
  | rest (hp : s.phase = .idle) (hp' : s'.phase = .closed) (hn : s'.net = s.net)

/-- The end of `STATE_RUN_MQTT`; an error of `umqtt_Run` shows only here. -/
theorem move_leaveRun {ans : Answers} (hs : s.phase = .up)
    (hr : s.runState ∈ Pc.publishUptime.states) (hpc : s'.pc = .top)
    (hr' : s'.runState = s.runState) (hn : s'.net = s.net) : Move s ans s' := by
  simp only [Pc.states, List.mem_cons, List.not_mem_nil, or_false] at hr
  rcases hr with hr | hr | hr
  · exact .stay (by rw [hs]; simp [Main.phase, hpc, hr', hr]) hn
  · exact .stay (by rw [hs]; simp [Main.phase, hpc, hr', hr]) hn
  · exact .fail (.inr hs) (by simp [Main.phase, hpc, hr', hr]) hn

theorem move_top (ans : Answers) (hpc : s.pc = .top) : Move s ans (exec s ans) := by
  simp only [exec, hpc]
  cases hf : s.disconnected with
  | true =>
    by_cases hd : s.runState = .delay
    · exact .stay (by simp [Main.phase, hpc, hd, Main.goto]) rfl
    · refine .alarm ?_ hf (by simp [Main.phase, hd, Main.goto]) rfl
      cases hr : s.runState <;> simp_all [Main.phase]
  | false =>
    by_cases hd : s.runState = .delay
    · refine .settle ?_ ?_ (.inl ⟨hf, rfl⟩) <;> simp [Main.phase, hpc, hd, Main.goto]
    · refine .stay ?_ rfl
      cases hr : s.runState <;> simp_all [Main.phase, Main.goto]

theorem exec_move (ans : Answers) (h : s.placed) : Move s ans (exec s ans) := by
  by_cases htop : s.pc = .top
  · exact move_top ans htop
  unfold Main.placed at h
  cases hpc : s.pc <;> rw [hpc] at h <;> simp only [exec, hpc]
  case top => exact absurd hpc htop
  case clearDisconnected =>
    by_cases hd : s.runState = .delay
    · refine .settle ?_ ?_ (.inr rfl) <;> simp [Main.phase, hpc, hd, Main.setWorld, Main.goto]
    · refine .clear ?_ ?_ rfl <;> simp [Main.phase, hpc, hd, Main.setWorld, Main.goto]
  case resetState => refine .reset ?_ ?_ rfl <;> simp [Main.phase, hpc, Main.setState]
  case netConnect => refine .connect hpc ?_ ?_ ?_ <;> simp [Main.phase, Main.call, hpc]
  case setRecovery =>
    refine .fail ?_ ?_ rfl
    · by_cases hw : s.runState = .waitIp <;> simp [Main.phase, hpc, hw]
    · simp [Main.phase, Main.setState]
  case testReport =>
    have hup : s.phase = .up := by simp [Main.phase, hpc]
    split
    · exact .stay (by rw [hup]; simp [Main.phase, Main.call]) rfl
    · exact move_leaveRun hup h rfl rfl rfl
  case publishUptime => exact move_leaveRun (by simp [Main.phase, hpc]) h rfl rfl rfl
  case netDisconnect =>
    refine .disconnect hpc ?_ ?_ <;> simp [Main.phase, Main.call, hpc]
  case testError =>
    have hd : s.runState = .delay := by simpa [Pc.states] using h
    split
    · exact .stay (by simp [Main.phase, hpc, Main.goto]) rfl
    · refine .rest ?_ ?_ rfl <;> simp [Main.phase, hpc, hd, Main.goto]
  -- the other statements stay within their phase
  all_goals
    repeat' split
    all_goals
      refine .stay ?_ rfl
      simp_all [Main.phase, Main.goto, Main.setState, Main.call, Pc.states]

theorem exec_connect_world (ans : Answers) (hpc : s.pc = .netConnect) :
    (exec s ans).world = callStep s.world (netConnectCall ans) := by
  simp [exec, hpc, Main.setWorld, Main.call, Main.world]

theorem exec_disconnect_world (ans : Answers) (hpc : s.pc = .netDisconnect) :
    (exec s ans).world = callStep s.world (.disconnect ans.closeErr) := by
  simp [exec, hpc, Main.setWorld, Main.call, Main.world]

theorem connect_ret (w : World netclientQueueSize App) (ans : Answers) :
    ((Net.connect w .inst serverAddr serverPort ans.avail ans.connErr ans.closeErr).1 = 0 ↔
      ans.avail = true ∧ ans.connErr = .ok) ∧
    (callStep w (netConnectCall ans)).inst.hNet =
      if ans.avail = true then if ans.connErr = .ok then some w.lwip.nextPcb else none
      else w.inst.hNet := by
  refine ⟨?_, (effect_connect w serverAddr serverPort ans.avail ans.connErr ans.closeErr).hNet⟩
  cases ha : ans.avail with
  | false => simp [connect_none]
  | true =>
    by_cases he : ans.connErr = .ok
    · simp [he, connect_ok]
    · simp [he, connect_fail w serverAddr serverPort ans.closeErr he]

theorem mainStep_control {e : MainEvent} (he : mainStep s e = some s')
    (hx : ∀ ans, e ≠ .exec ans) :
    s'.pc = s.pc ∧ s'.runState = s.runState ∧ s'.phase = s.phase := by
  cases e with
  | exec ans => exact absurd rfl (hx ans)
  | transport e =>
    simp only [mainStep, Option.ite_none_right_eq_some, Option.map_eq_some_iff] at he
    obtain ⟨_, t, _, rfl⟩ := he
    exact ⟨rfl, rfl, rfl⟩
  | lwip e =>
    obtain ⟨w, _, rfl⟩ := Option.map_eq_some_iff.mp he
    exact ⟨rfl, rfl, rfl⟩
  | sysTick =>
    obtain rfl := Option.some.inj he
    exact ⟨rfl, rfl, rfl⟩

theorem mainStep_exec {ans : Answers} (he : mainStep s (.exec ans) = some s') :
    s.net.peeked = none ∧ s' = exec s ans := by
  simp only [mainStep, Option.ite_none_right_eq_some, Option.some.injEq] at he
  exact ⟨he.1, he.2.symm⟩

/-- The parts of the state are well-formed, and there is no connection where
the loop has not made one. -/
structure LoopOk (s : Main) : Prop extends TransportOk s.net where
  cb : s.world.inst.pfnCb = netEventCb
  placed : s.placed
  down : s.phase = .idle ∨ s.phase = .closed → s.world.inst.hNet = none

theorem LoopOk.netOk (h : LoopOk s) : NetOk s.world :=
  h.net

theorem loopOk_init (clock : Clock) : LoopOk (Main.init clock) :=
  { transportOk_init netEventCb {} with
    cb := rfl
    placed := by simp [Main.placed, Main.init, Pc.states]
    down := fun _ => rfl }

theorem TransportOk.cleared (h : TransportOk s.net) : TransportOk s.cleared :=
  { toHandoverOk := ⟨{ h.net with }, h.inv⟩, head := h.head, copies := h.copies }

theorem LoopOk.transport (h : LoopOk s) {e : MainEvent} (he : mainStep s e = some s') :
    TransportOk s'.net := by
  have hok : TransportOk s.net := h.toTransportOk
  rcases mainStep_net he with ⟨te, _, ht⟩ | ⟨_, hn | hn⟩
  · exact hok.step (by decide) ht
  · exact hn ▸ hok
  · exact hn ▸ hok.cleared

theorem LoopOk.callback (h : LoopOk s) {e : MainEvent} (he : mainStep s e = some s') :
    s'.world.inst.pfnCb = netEventCb := by
  rcases mainStep_world he with ⟨d, _, hd⟩ | ⟨_, hi, _⟩
  · exact (netStep_app h.net hd).2.trans h.cb
  · rw [hi]
    exact h.cb

theorem LoopOk.hNet_of_interrupt (h : LoopOk s) {e : MainEvent} (he : mainStep s e = some s')
    (hx : ∀ ans, e ≠ .exec ans) :
    s'.world.inst.hNet = s.world.inst.hNet ∨ s'.world.inst.hNet = none := by
  rcases mainStep_world he with ⟨d, hd, hnet⟩ | ⟨_, hi, _⟩
  · rw [(netStep_effect (by decide) h.net hnet).hNet]
    rcases hNetAfter_cases s.world d with hk | hk | ⟨_, addr, port, closeErr, hc⟩
    · exact .inl hk
    · exact .inr hk
    · cases drives_of_netEvent he hd with
      | connect ans => exact absurd rfl (hx ans)
      | _ => simp at hc
  · exact .inl (by rw [hi])

theorem LoopOk.exec_down (h : LoopOk s) (ans : Answers)
    (hp : (exec s ans).phase = .idle ∨ (exec s ans).phase = .closed) :
    (exec s ans).world.inst.hNet = none := by
  have hkeep : ∀ t : Transport netclientQueueSize App, (exec s ans).net = t →
      t.world.inst.hNet = none → (exec s ans).world.inst.hNet = none := by
    rintro t rfl ht
    exact ht
  cases exec_move ans h.placed with
  | stay hs hn => exact hkeep _ hn (h.down (hs ▸ hp))
  | connect _ _ hs' =>
    rw [hs'] at hp
    split_ifs at hp <;> simp at hp
  | fail _ hs' => simp [hs'] at hp
  | alarm _ _ hs' => simp [hs'] at hp
  | clear _ hs' => simp [hs'] at hp
  | reset _ hs' => simp [hs'] at hp
  | disconnect hpc =>
    rw [exec_disconnect_world ans hpc]
    rfl
  | settle hs _ hn =>
    have hnone := h.down (.inr hs)
    rcases hn with ⟨_, hn⟩ | hn
    · exact hkeep _ hn hnone
    · exact hkeep _ hn hnone
  | rest hs _ hn => exact hkeep _ hn (h.down (.inl hs))

theorem LoopOk.step (h : LoopOk s) {e : MainEvent} (he : mainStep s e = some s') : LoopOk s' := by
  refine { h.transport he with cb := h.callback he, placed := ?_, down := fun hp => ?_ }
  · by_cases hx : ∃ ans, e = .exec ans
    · obtain ⟨ans, rfl⟩ := hx
      obtain ⟨_, rfl⟩ := mainStep_exec he
      exact exec_placed ans h.placed
    · obtain ⟨hpc, hr, _⟩ := mainStep_control he fun ans hl => hx ⟨ans, hl⟩
      simpa only [Main.placed, hpc, hr] using h.placed
  · by_cases hx : ∃ ans, e = .exec ans
    · obtain ⟨ans, rfl⟩ := hx
      obtain ⟨_, rfl⟩ := mainStep_exec he
      exact h.exec_down ans hp
    · have hno : ∀ ans, e ≠ .exec ans := fun ans hl => hx ⟨ans, hl⟩
      rw [(mainStep_control he hno).2.2] at hp
      rcases h.hNet_of_interrupt he hno with hk | hk
      · exact hk.trans (h.down hp)
      · exact hk

theorem LoopOk.connectsWhenDown (h : LoopOk s) {e : MainEvent} (he : mainStep s e = some s')
    {d : NetEvent} (hd : s.netEvent e = some d) : ConnectsWhenDown s.world d := by
  rintro addr port avail connErr closeErr rfl
  cases drives_of_netEvent he hd with
  | connect ans hpc => exact h.down (.inl (by simp [Main.phase, hpc]))

end McuTest
