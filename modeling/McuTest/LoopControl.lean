import McuTest.LoopInvariant

/-! The loop reduced to its phase, `hNet` and `netWasDisconnected`. A statement
is a step of the reduced machine; an interrupt keeps its state or takes the
connection away and sets the flag. -/

namespace McuTest

structure Control where
  phase : Phase
  hNet : Option Pcb
  flag : Bool

/-- One statement; `failed` says that it is a `net_Connect` that fails. -/
inductive Control.Step (failed : Prop) : Control → Control → Prop where
  | stay (x : Control) : Step failed x x
  | dial (h : Option Pcb) (p : Pcb) (f : Bool) : Step failed ⟨.idle, h, f⟩ ⟨.up, some p, f⟩
  | dialFails (hf : failed) (h : Option Pcb) (f : Bool) :
      Step failed ⟨.idle, h, f⟩ ⟨.failed, none, f⟩
  | fail (ph : Phase) (hp : ph = .failed ∨ ph = .up) (h : Option Pcb) (f : Bool) :
      Step failed ⟨ph, h, f⟩ ⟨.recovering, h, f⟩
  | alarm (ph : Phase) (hp : ph ≠ .closed) (h : Option Pcb) :
      Step failed ⟨ph, h, true⟩ ⟨.alarm, h, true⟩
  | clear (h : Option Pcb) (f : Bool) : Step failed ⟨.alarm, h, f⟩ ⟨.cleared, h, false⟩
  | reset (h : Option Pcb) (f : Bool) : Step failed ⟨.cleared, h, f⟩ ⟨.recovering, h, f⟩
  | disconnect (h : Option Pcb) (f : Bool) : Step failed ⟨.recovering, h, f⟩ ⟨.closed, none, true⟩
  | settle (h : Option Pcb) (f : Bool) : Step failed ⟨.closed, h, f⟩ ⟨.idle, h, false⟩
  | rest (h : Option Pcb) (f : Bool) : Step failed ⟨.idle, h, f⟩ ⟨.closed, h, f⟩

variable {s s' : Main}

def Main.control (s : Main) : Control where
  phase := s.phase
  hNet := s.world.inst.hNet
  flag := s.disconnected

def Main.connectFails (s : Main) (ans : Answers) : Prop :=
  s.pc = .netConnect ∧ ¬(ans.avail = true ∧ ans.connErr = .ok)

theorem control_of_net {x : Phase} (hp : s'.phase = x) (hn : s'.net = s.net) :
    s'.control = ⟨x, s.world.inst.hNet, s.disconnected⟩ := by
  simp only [Main.control, hp, Main.disconnected, Main.world, hn]

theorem control_of_cleared {x : Phase} (hp : s'.phase = x) (hn : s'.net = s.cleared) :
    s'.control = ⟨x, s.world.inst.hNet, false⟩ := by
  simp only [Main.control, hp, Main.disconnected, Main.world, hn, Main.cleared]

theorem control_of_phase {x : Phase} (hp : s.phase = x) :
    s.control = ⟨x, s.world.inst.hNet, s.disconnected⟩ :=
  control_of_net hp rfl

theorem notifiedApp_eq {w : World netclientQueueSize App} (hcb : w.inst.pfnCb = netEventCb)
    (ev : Option NetClientEvent) :
    w.notifiedApp ev =
      if ev = some .disconnected then { netWasDisconnected := true } else w.app := by
  cases ev with
  | none => simp [World.notifiedApp]
  | some ev => cases ev <;> simp [World.notifiedApp, hcb, netEventCb]

theorem control_connect (h : LoopOk s) (ans : Answers) (hpc : s.pc = .netConnect)
    (hp : s.phase = .idle)
    (hp' : (exec s ans).phase = if (exec s ans).ret = 0 then .up else .failed)
    (hret : (exec s ans).ret = (Net.connect s.world .inst serverAddr serverPort ans.avail
      ans.connErr ans.closeErr).1) :
    Control.Step (s.connectFails ans) s.control (exec s ans).control := by
  obtain ⟨hzero, hnet⟩ := connect_ret s.world ans
  have happ : (exec s ans).world.app = s.world.app := by
    rw [exec_connect_world ans hpc]
    exact (callStep_app s.world (netConnectCall ans)).1
  have hflag : (exec s ans).disconnected = s.disconnected := by
    simp only [Main.disconnected, happ]
  rw [control_of_phase hp]
  by_cases hok : ans.avail = true ∧ ans.connErr = .ok
  · have hphase : (exec s ans).phase = .up := by rw [hp', hret, if_pos (hzero.mpr hok)]
    have hsome : (exec s ans).world.inst.hNet = some s.world.lwip.nextPcb := by
      rw [exec_connect_world ans hpc, hnet, if_pos hok.1, if_pos hok.2]
    simp only [Main.control, hflag, hphase, hsome]
    exact .dial _ _ _
  · have hnone : (exec s ans).world.inst.hNet = none := by
      rw [exec_connect_world ans hpc, hnet]
      split_ifs with ha hc
      · exact absurd ⟨ha, hc⟩ hok
      · rfl
      · exact h.down (.inl hp)
    have hphase : (exec s ans).phase = .failed := by
      rw [hp', hret, if_neg (fun hz => hok (hzero.mp hz))]
    simp only [Main.control, hflag, hphase, hnone]
    exact .dialFails ⟨hpc, hok⟩ _ _

theorem exec_control (h : LoopOk s) (ans : Answers) :
    Control.Step (s.connectFails ans) s.control (exec s ans).control := by
  cases exec_move ans h.placed with
  | stay hp hn =>
    rw [control_of_net hp hn]
    exact .stay s.control
  | connect hpc hp hp' hret => exact control_connect h ans hpc hp hp' hret
  | fail hp hp' hn =>
    rw [control_of_net hp' hn]
    exact .fail s.phase hp _ _
  | alarm hp hf hp' hn =>
    rw [control_of_net hp' hn, hf, control_of_phase rfl, hf]
    exact .alarm s.phase hp _
  | clear hp hp' hn =>
    rw [control_of_cleared hp' hn, control_of_phase hp]
    exact .clear _ _
  | reset hp hp' hn =>
    rw [control_of_net hp' hn, control_of_phase hp]
    exact .reset _ _
  | disconnect hpc hp hp' =>
    have hclosed : (exec s ans).control = ⟨.closed, none, true⟩ := by
      have happ := (callStep_app s.world (.disconnect ans.closeErr)).1
      have hnotice : s.world.notice (.call (.disconnect ans.closeErr)) = some .disconnected := rfl
      rw [notifiedApp_eq h.cb, if_pos hnotice] at happ
      simp only [Main.control, hp', Main.disconnected, exec_disconnect_world ans hpc, happ]
      rfl
    rw [hclosed, control_of_phase hp]
    exact .disconnect _ _
  | settle hp hp' hn =>
    rw [control_of_phase hp]
    rcases hn with ⟨hf, hn⟩ | hn
    · rw [control_of_net hp' hn, hf]
      exact .settle _ _
    · rw [control_of_cleared hp' hn]
      exact .settle _ _
  | rest hp hp' hn =>
    rw [control_of_net hp' hn, control_of_phase hp]
    exact .rest _ _

theorem transport_keeps (h : LoopOk s) {te : TransportEvent}
    (he : mainStep s (.transport te) = some s') :
    s'.world.inst.hNet = s.world.inst.hNet ∧ s'.world.app = s.world.app := by
  simp only [mainStep, Option.ite_none_right_eq_some, Option.map_eq_some_iff] at he
  obtain ⟨⟨_, hby⟩, t, ht, rfl⟩ := he
  have hcall : ∀ c, netStep s.world (.call c) = some t.world →
      s.world.hNetAfter (.call c) = s.world.inst.hNet → s.world.notice (.call c) = none →
        t.world.inst.hNet = s.world.inst.hNet ∧ t.world.app = s.world.app := by
    intro c hc hnet hnotice
    have heff := (netStep_effect (by decide) h.netOk hc).hNet
    have happ := (netStep_app h.netOk hc).1
    rw [hnotice] at happ
    exact ⟨heff.trans hnet, happ⟩
  rcases transportStep_net ht with ⟨d, hd, hnet⟩ | ⟨_, hw⟩
  · cases te with
    | call c =>
      obtain rfl := Option.some.inj hd
      cases c with
      | writePacket buf len isMore err => exact hcall _ hnet rfl rfl
      | _ => simp [TransportEvent.byUmqtt] at hby
    | copy =>
      obtain ⟨len, _, rfl⟩ := Option.map_eq_some_iff.mp hd
      exact hcall _ hnet rfl rfl
    | lwip e => simp [TransportEvent.byUmqtt] at hby
    | peek => simp [Transport.netEvent] at hd
    | allocFail => simp [Transport.netEvent] at hd
  · simp only [Main.world, hw, and_self]

def LwipEvent.loses : LwipEvent → Bool
  | .peerClose _ | .fatal _ => true
  | _ => false

theorem notice_lwip (w : World netclientQueueSize App) (le : LwipEvent) :
    w.notice (.lwip le) = some .disconnected ↔ le.loses = true := by
  cases le with
  | connected q =>
    simp only [World.notice]
    split_ifs <;> simp [LwipEvent.loses]
  | poll q =>
    simp only [World.notice]
    split_ifs <;> simp [LwipEvent.loses]
  | _ => simp [World.notice, LwipEvent.loses]

theorem lwip_control (h : LoopOk s) {le : LwipEvent} (he : mainStep s (.lwip le) = some s') :
    s'.control = if le.loses = true then ⟨s.phase, none, true⟩ else s.control := by
  have hphase := (mainStep_control he (by simp)).2.2
  obtain ⟨w, hw, rfl⟩ := Option.map_eq_some_iff.mp he
  have hnet : netStep s.world (.lwip le) = some w := hw
  have hafter : w.inst.hNet = if le.loses = true then none else s.world.inst.hNet := by
    rw [(netStep_effect (by decide) h.netOk hnet).hNet]
    cases le <;> rfl
  have happ := (netStep_app h.netOk hnet).1
  rw [notifiedApp_eq h.cb] at happ
  simp only [notice_lwip] at happ
  have hcontrol : (s.setWorld w).control = ⟨s.phase, w.inst.hNet, w.app.netWasDisconnected⟩ := by
    simp only [Main.control, hphase]
    rfl
  rw [hcontrol, hafter, happ]
  split
  · rfl
  · rfl

theorem quiet_control (h : LoopOk s) {e : MainEvent} (he : mainStep s e = some s')
    (hx : ∀ ans, e ≠ .exec ans) (hl : ∀ le, e ≠ .lwip le) : s'.control = s.control := by
  cases e with
  | exec ans => exact absurd rfl (hx ans)
  | transport te =>
    obtain ⟨hn, ha⟩ := transport_keeps h he
    simp only [Main.control, (mainStep_control he hx).2.2, hn, Main.disconnected, ha]
  | lwip le => exact absurd rfl (hl le)
  | sysTick =>
    obtain rfl := Option.some.inj he
    rfl

theorem control_step (h : LoopOk s) {e : MainEvent} (he : mainStep s e = some s') :
    (∃ ans, e = .exec ans ∧ Control.Step (s.connectFails ans) s.control s'.control) ∨
      (∃ le, e = .lwip le ∧ le.loses = true ∧ s'.control = ⟨s.phase, none, true⟩) ∨
        s'.control = s.control := by
  cases e with
  | exec ans =>
    obtain ⟨_, rfl⟩ := mainStep_exec he
    exact .inl ⟨ans, rfl, exec_control h ans⟩
  | lwip le =>
    have hcontrol := lwip_control h he
    by_cases hl : le.loses = true
    · exact .inr (.inl ⟨le, rfl, hl, by rw [hcontrol, if_pos hl]⟩)
    · exact .inr (.inr (by rw [hcontrol, if_neg hl]))
  | transport te => exact .inr (.inr (quiet_control h he (by simp) (by simp)))
  | sysTick => exact .inr (.inr (quiet_control h he (by simp) (by simp)))

end McuTest
