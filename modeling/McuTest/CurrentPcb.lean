import McuTest.LoopInvariant
import McuTest.PcbSlots

/-! Only the current PCB can reach the instance. A PCB that was given up keeps
no callback, whether or not `tcp_close` has released it. -/

namespace McuTest

def TcpPcb.Registered (s : TcpPcb) : Prop :=
  s.live = true ∧ s.arg = .inst ∧ s.err = some .errorCb ∧ s.poll = some .pollCb ∧
    s.recv = some .receiveCb ∧ s.sent = some .sentCb

def TcpPcb.Forgotten (s : TcpPcb) : Prop :=
  s.arg = .null ∧ s.recv = none ∧ s.err = none ∧ s.poll = none ∧ s.sent = none

theorem TcpPcb.forgotten_forget (s : TcpPcb) : s.forget.Forgotten :=
  ⟨rfl, rfl, rfl, rfl, rfl⟩

/-- What `net_client` does with the instance's application or its queue. -/
def Action.reaches : Action → Bool
  | .notified .connected | .notified .poll => true
  | .received _ _ .ok => true
  | _ => false

/-- `NET_EVENT_DISCONNECTED` has been delivered and `net_Connect` has not asked
for a PCB since. -/
def Quiet (log : List Action) : Prop :=
  ∃ pre post, log = pre ++ .notified .disconnected :: post ∧ ∀ a ∈ post, ∀ pcb, a ≠ .tcpNew pcb

def ReachedWhenOpen (log : List Action) : Prop :=
  Lifetime.Throughout (fun pre a => Quiet pre → a.reaches = false) log

theorem not_quiet_nil : ¬Quiet [] := by
  rintro ⟨pre, post, he, _⟩
  simp at he

theorem Quiet.of_append {log as : List Action} (h : Quiet (log ++ as)) :
    .notified .disconnected ∈ as ∨ Quiet log ∧ ∀ a ∈ as, ∀ pcb, a ≠ .tcpNew pcb := by
  obtain ⟨pre, post, he, hpost⟩ := h
  rcases List.append_eq_append_iff.mp he with ⟨mid, _, rfl⟩ | ⟨mid, hmid, hsplit⟩
  · exact .inl (by simp)
  · cases mid with
    | nil =>
      rw [List.nil_append] at hsplit
      exact .inl (by simp [← hsplit])
    | cons b mid =>
      obtain ⟨rfl, rfl⟩ := List.cons.inj hsplit
      exact .inr ⟨⟨pre, mid, hmid, fun a ha => hpost a (by simp [ha])⟩,
        fun a ha => hpost a (by simp [ha])⟩

section Net

variable {N : Nat} [NeZero N] {σ : Type} {w w' : World N σ}

def World.opening (w : World N σ) : Bool :=
  match w.inst.hNet with
  | some p => !(w.lwip.pcbs p).established
  | none => false

/-- `tcp_close` of a PCB that is not yet established frees it. -/
def ClosesOpening (w : World N σ) : NetEvent → Prop
  | .call (.disconnect closeErr) => w.opening = true → closeErr = .ok
  | .call (.connect _ _ avail connErr closeErr) => avail = true → connErr ≠ .ok → closeErr = .ok
  | .call _ => True
  | .lwip _ => True

instance (w : World N σ) (e : NetEvent) : Decidable (ClosesOpening w e) := by
  unfold ClosesOpening
  split <;> infer_instance

structure CurrentOnly (w : World N σ) : Prop where
  connected : w.inst.isConnected = true → ∃ p, w.inst.hNet = some p ∧ (w.lwip.pcbs p).Registered
  others : ∀ q, (w.lwip.pcbs q).live = true → w.inst.hNet ≠ some q →
    (w.lwip.pcbs q).established = true ∧ (w.lwip.pcbs q).Forgotten

omit [NeZero N] in
theorem currentOnly_init (pfnEventCb : NetClientEvent → σ → σ) (app : σ) :
    CurrentOnly (World.init pfnEventCb app : World N σ) where
  connected := fun h => by simp [World.init, Net.init] at h
  others := fun q hq => by simp [World.init] at hq

omit [NeZero N] in
theorem CurrentOnly.hNet_of_slot (h : CurrentOnly w) {p : Pcb}
    (hlive : (w.lwip.pcbs p).live = true)
    (hs : (w.lwip.pcbs p).established = false ∨ (w.lwip.pcbs p).recv ≠ none ∨
      (w.lwip.pcbs p).err ≠ none ∨ (w.lwip.pcbs p).poll ≠ none ∨ (w.lwip.pcbs p).sent ≠ none) :
    w.inst.hNet = some p := by
  by_contra hne
  obtain ⟨hest, _, hrecv, herr, hpoll, hsent⟩ := h.others p hlive hne
  simp [hest, hrecv, herr, hpoll, hsent] at hs

omit [NeZero N] in
/-- After `hNet` has become NULL every live PCB is one that was given up before
or the one given up now. -/
theorem CurrentOnly.of_dropped (h : CurrentOnly w) (hc : w'.inst.isConnected = false)
    (hp : ∀ q, (w'.lwip.pcbs q).live = true →
      w'.lwip.pcbs q = w.lwip.pcbs q ∧ w.inst.hNet ≠ some q ∨
        (w'.lwip.pcbs q).established = true ∧ (w'.lwip.pcbs q).Forgotten) : CurrentOnly w' := by
  refine ⟨fun ht => by simp [hc] at ht, fun q hlive _ => ?_⟩
  rcases hp q hlive with ⟨hsame, hne⟩ | hforgot
  · rw [hsame] at hlive ⊢
    exact h.others q hlive hne
  · exact hforgot

theorem CurrentOnly.connect (hN : N ≤ 256) (h : CurrentOnly w) (hok : NetOk w) {addr : IpAddr}
    {port : UInt16} {avail : Bool} {connErr closeErr : ErrT} (hdown : w.inst.hNet = none)
    (hclose : avail = true → connErr ≠ .ok → closeErr = .ok)
    (he : netStep w (.call (.connect addr port avail connErr closeErr)) = some w') :
    CurrentOnly w' := by
  have hslots := netStep_pcbs hN hok he
  have hnet := (netStep_effect hN hok he).hNet
  have hc : w.inst.isConnected = false := by
    by_contra hne
    obtain ⟨p, hp, _⟩ := h.connected (by simpa using hne)
    simp [hdown] at hp
  refine ⟨fun ht => ?_, fun q hlive hne => ?_⟩
  · have hc' := (hslots 0).2
    simp [World.isConnectedAfter, hc, ht] at hc'
  · have hp := (hslots q).1
    simp only [World.pcbAfter] at hp
    split_ifs at hp with hq hconn
    · refine absurd ?_ hne
      simp [hnet, World.hNetAfter, hq.1, hconn, hq.2]
    · have hfreed := hclose hq.1 hconn
      simp [hp, TcpPcb.release, hfreed] at hlive
    · rw [hp] at hlive ⊢
      exact h.others q hlive (by simp [hdown])

theorem CurrentOnly.disconnect (hN : N ≤ 256) (h : CurrentOnly w) (hok : NetOk w)
    {closeErr : ErrT} (hclose : w.opening = true → closeErr = .ok)
    (he : netStep w (.call (.disconnect closeErr)) = some w') : CurrentOnly w' := by
  have hslots := netStep_pcbs hN hok he
  refine h.of_dropped (hslots 0).2 fun q hlive => ?_
  have hp := (hslots q).1
  simp only [World.pcbAfter] at hp
  split_ifs at hp with ho
  · rw [hp] at hlive ⊢
    refine .inr ⟨?_, TcpPcb.forgotten_forget (w.lwip.pcbs q)⟩
    cases hest : (w.lwip.pcbs q).established with
    | true => exact hest
    | false =>
      have hfreed := hclose (by simp [World.opening, ho.1, hest])
      simp [TcpPcb.release, hfreed] at hlive
  · rw [hp] at hlive
    exact .inl ⟨hp, fun hn => ho ⟨hn, hlive⟩⟩

theorem connecting_of_step {p : Pcb} (he : lwipStep w (.connected p) = some w') :
    (w.lwip.pcbs p).live = true ∧ (w.lwip.pcbs p).established = false := by
  cases fires_of_lwipStep he with
  | connected _ hlive hnew => exact ⟨hlive, hnew⟩

theorem CurrentOnly.established (hN : N ≤ 256) (h : CurrentOnly w) (hok : NetOk w) {p : Pcb}
    (he : netStep w (.lwip (.connected p)) = some w') : CurrentOnly w' := by
  have hslots := netStep_pcbs hN hok he
  have hnet : w'.inst.hNet = w.inst.hNet := (netStep_effect hN hok he).hNet
  obtain ⟨hlive, hnew⟩ := connecting_of_step he
  have hcur := h.hNet_of_slot hlive (.inl hnew)
  have harg := (hok.current p hcur).2
  refine ⟨fun _ => ⟨p, hnet.trans hcur, ?_⟩, fun q hq hne => ?_⟩
  · have hp := (hslots p).1
    have ho : w.owns p := ⟨hcur, hlive⟩
    simp only [World.pcbAfter, harg, ho, and_self, if_true] at hp
    rw [hp]
    exact ⟨hlive, rfl, rfl, rfl, rfl, rfl⟩
  · have hp := (hslots q).1
    rw [hnet, hcur] at hne
    have hpq : p ≠ q := fun hpq => hne (congrArg some hpq)
    have ho : ¬w.owns q := fun ho => hne (hcur.symm.trans ho.1)
    simp only [World.pcbAfter, ho, and_false, if_false, if_neg hpq] at hp
    rw [hp] at hq ⊢
    exact h.others q hq (by rwa [hcur])

theorem CurrentOnly.step (hN : N ≤ 256) (h : CurrentOnly w) (hok : NetOk w) {e : NetEvent}
    (hdown : ConnectsWhenDown w e) (hclose : ClosesOpening w e) (he : netStep w e = some w') :
    CurrentOnly w' := by
  have hslots := netStep_pcbs hN hok he
  have hnet := (netStep_effect hN hok he).hNet
  have hsame : (∀ q, w'.lwip.pcbs q = w.lwip.pcbs q) →
      w'.inst.isConnected = w.inst.isConnected → w'.inst.hNet = w.inst.hNet → CurrentOnly w' := by
    intro hp hc hn
    refine ⟨fun ht => ?_, fun q hlive hne => ?_⟩
    · obtain ⟨p, hcur, hreg⟩ := h.connected (hc ▸ ht)
      exact ⟨p, hn.trans hcur, by rwa [hp]⟩
    · rw [hp] at hlive ⊢
      exact h.others q hlive (hn ▸ hne)
  have hdropped : ∀ q, (w'.lwip.pcbs q).live = true →
      w'.lwip.pcbs q = (if w.owns q then { (w.lwip.pcbs q).forget with live := false }
        else w.lwip.pcbs q) → w'.lwip.pcbs q = w.lwip.pcbs q ∧ w.inst.hNet ≠ some q := by
    intro q hlive hp
    split_ifs at hp with ho
    · simp [hp] at hlive
    · rw [hp] at hlive
      exact ⟨hp, fun hn => ho ⟨hn, hlive⟩⟩
  cases e with
  | call c =>
    cases c with
    | connect addr port avail connErr closeErr =>
      exact h.connect hN hok (hdown _ _ _ _ _ rfl) hclose he
    | disconnect closeErr => exact h.disconnect hN hok hclose he
    | readPacket len => exact hsame (fun q => (hslots q).1) (hslots 0).2 hnet
    | writePacket buf len isMore err => exact hsame (fun q => (hslots q).1) (hslots 0).2 hnet
  | lwip e =>
    cases e with
    | connected p => exact h.established hN hok he
    | peerClose p =>
      refine h.of_dropped (hslots 0).2 fun q hlive => .inl ?_
      exact hdropped q hlive (hslots q).1
    | fatal p =>
      refine h.of_dropped (hslots 0).2 fun q hlive => .inl ?_
      have hp := (hslots q).1
      simp only [World.pcbAfter] at hp
      by_cases hpq : p = q
      · simp [hp, hpq] at hlive
      · rw [if_neg hpq] at hp
        exact hdropped q hlive hp
    | _ => exact hsame (fun q => (hslots q).1) (hslots 0).2 hnet

theorem CurrentOnly.unreached (h : CurrentOnly w) (hnone : w.inst.hNet = none) {e : NetEvent}
    (he : netStep w e = some w') : ∀ a ∈ w.actions e, a.reaches = false := by
  have hno : ∀ p, (w.lwip.pcbs p).live = true →
      ¬((w.lwip.pcbs p).established = false ∨ (w.lwip.pcbs p).recv ≠ none ∨
        (w.lwip.pcbs p).err ≠ none ∨ (w.lwip.pcbs p).poll ≠ none ∨
          (w.lwip.pcbs p).sent ≠ none) := by
    intro p hlive hs
    simp [h.hNet_of_slot hlive hs] at hnone
  cases e with
  | call c =>
    cases c with
    | connect addr port avail connErr closeErr =>
      simp only [World.actions, connectCalls]
      split_ifs <;> simp [openCalls, Action.reaches]
    | disconnect closeErr => simp [World.actions, deregisterCalls, Action.reaches]
    | readPacket len => cases hq : w.inst.queued <;> simp [World.actions, hq, Action.reaches]
    | writePacket buf len isMore err =>
      simp only [World.actions]
      split_ifs <;> simp [Action.reaches]
  | lwip e =>
    have hstep : lwipStep w e = some w' := he
    cases fires_of_lwipStep hstep with
    | connected p hlive hnew => exact absurd (.inl hnew) (hno p hlive)
    | receive p chain hr => exact absurd (.inr (.inl (by simp [hr.2]))) (hno p hr.1)
    | redeliver p pb hheld hr => exact absurd (.inr (.inl (by simp [hr.2]))) (hno p hr.1)
    | giveUp => simp [World.actions]
    | peerClose p hr => exact absurd (.inr (.inl (by simp [hr.2]))) (hno p hr.1)
    | poll p hlive hcb => exact absurd (.inr (.inr (.inr (.inl (by simp [hcb]))))) (hno p hlive)
    | sent p len hlive hcb => simp [World.actions, Action.reaches]
    | fatal p hlive hcb => exact absurd (.inr (.inr (.inl (by simp [hcb])))) (hno p hlive)

theorem event_of_disconnected {e : NetEvent} (hm : .notified .disconnected ∈ w.actions e) :
    (∃ closeErr, e = .call (.disconnect closeErr)) ∨ (∃ p, e = .lwip (.peerClose p)) ∨
      ∃ p, e = .lwip (.fatal p) := by
  cases e with
  | call c =>
    cases c with
    | connect addr port avail connErr closeErr =>
      simp only [World.actions, connectCalls] at hm
      split_ifs at hm <;> simp [openCalls] at hm
    | disconnect closeErr => exact .inl ⟨closeErr, rfl⟩
    | readPacket len => cases hq : w.inst.queued <;> simp [World.actions, hq] at hm
    | writePacket buf len isMore err =>
      simp only [World.actions] at hm
      split_ifs at hm <;> simp at hm
  | lwip e =>
    cases e with
    | connected p =>
      cases harg : (w.lwip.pcbs p).arg <;> simp [World.actions, harg, registerCalls] at hm
    | redeliver => cases hr : w.lwip.refused <;> simp [World.actions, hr, deliverCalls] at hm
    | poll p => cases harg : (w.lwip.pcbs p).arg <;> simp [World.actions, harg] at hm
    | peerClose p => exact .inr (.inl ⟨p, rfl⟩)
    | fatal p => exact .inr (.inr ⟨p, rfl⟩)
    | _ => simp [World.actions, deliverCalls] at hm

theorem disconnected_last (w : World N σ) (e : NetEvent) :
    .notified .disconnected ∉ (w.actions e).dropLast := by
  intro hm
  obtain ⟨closeErr, rfl⟩ | ⟨p, rfl⟩ | ⟨p, rfl⟩ :=
    event_of_disconnected (List.dropLast_subset _ hm)
  · simp [World.actions, deregisterCalls] at hm
  · simp [World.actions, errorCalls, deregisterCalls] at hm
  · simp [World.actions, errorCalls, deregisterCalls] at hm

theorem hNetAfter_of_disconnected {e : NetEvent} (hm : .notified .disconnected ∈ w.actions e) :
    w.hNetAfter e = none := by
  obtain ⟨closeErr, rfl⟩ | ⟨p, rfl⟩ | ⟨p, rfl⟩ := event_of_disconnected hm
  · rfl
  · rfl
  · rfl

structure QuietOk (w : World N σ) : Prop extends CurrentOnly w where
  down : Quiet w.lwip.log → w.inst.hNet = none
  unreached : ReachedWhenOpen w.lwip.log

omit [NeZero N] in
theorem quietOk_init (pfnEventCb : NetClientEvent → σ → σ) (app : σ) :
    QuietOk (World.init pfnEventCb app : World N σ) :=
  { currentOnly_init pfnEventCb app with
    down := fun h => absurd h not_quiet_nil
    unreached := Lifetime.throughout_nil }

theorem QuietOk.step (hN : N ≤ 256) (h : QuietOk w) (hok : NetOk w) {e : NetEvent}
    (hdown : ConnectsWhenDown w e) (hclose : ClosesOpening w e) (he : netStep w e = some w') :
    QuietOk w' := by
  have heff := netStep_effect hN hok he
  refine { h.toCurrentOnly.step hN hok hdown hclose he with down := ?_, unreached := ?_ }
  · rw [heff.log, heff.hNet]
    intro hquiet
    rcases hquiet.of_append with hm | ⟨hold, hnew⟩
    · exact hNetAfter_of_disconnected hm
    · rcases hNetAfter_cases w e with hk | hk | ⟨_, addr, port, closeErr, rfl⟩
      · exact hk.trans (h.down hold)
      · exact hk
      · refine absurd rfl (hnew (.tcpNew (some w.lwip.nextPcb)) ?_ _)
        simp [World.actions, connectCalls, openCalls]
  · rw [heff.log]
    refine Lifetime.throughout_append.mpr ⟨h.unreached, fun pre a post hacts hquiet => ?_⟩
    rcases hquiet.of_append with hm | ⟨hold, _⟩
    · refine absurd ?_ (disconnected_last w e)
      rw [hacts, List.dropLast_append_of_ne_nil (List.cons_ne_nil a post)]
      exact List.mem_append_left _ hm
    · exact h.toCurrentOnly.unreached (h.down hold) he a (by simp [hacts])

end Net

variable {s s' : Main}

def LoopClosesOpening (s : Main) (e : MainEvent) : Prop :=
  ∀ d ∈ s.netEvent e, ClosesOpening s.world d

instance (s : Main) (e : MainEvent) : Decidable (LoopClosesOpening s e) :=
  inferInstanceAs (Decidable (∀ d ∈ s.netEvent e, ClosesOpening s.world d))

theorem quietOk_mainStep (h : LoopOk s) (hq : QuietOk s.world) {e : MainEvent}
    (hclose : LoopClosesOpening s e) (he : mainStep s e = some s') : QuietOk s'.world := by
  rcases mainStep_world he with ⟨d, hd, hnet⟩ | ⟨_, hi, hl⟩
  · exact hq.step (by decide) h.netOk (h.connectsWhenDown he hd) (hclose d hd) hnet
  · refine ⟨⟨?_, ?_⟩, ?_, ?_⟩
    · rw [hi, hl]
      exact hq.connected
    · rw [hi, hl]
      exact hq.others
    · rw [hi, hl]
      exact hq.down
    · rw [hl]
      exact hq.unreached

/-- While `tcp_close` frees what is not yet established, the current PCB is the
only one with callbacks, and between a disconnect and the next `net_Connect`
nothing reaches the application or its queue. -/
theorem only_current_reaches (clock : Clock) {es : List MainEvent} {s : Main}
    (hr : Runs.run mainStep (Main.init clock) es = some s)
    (hclose : Runs.AllSteps mainStep LoopClosesOpening (Main.init clock) es) :
    (s.world.inst.isConnected = true →
      ∃ p, s.world.inst.hNet = some p ∧ (s.world.lwip.pcbs p).Registered) ∧
    (s.world.inst.hNet = none → s.world.inst.isConnected = false) ∧
    (∀ q, (s.world.lwip.pcbs q).live = true → s.world.inst.hNet ≠ some q →
      (s.world.lwip.pcbs q).Forgotten) ∧
    ReachedWhenOpen s.world.lwip.log := by
  have hend : LoopOk s ∧ QuietOk s.world :=
    Runs.run_invariant (I := fun s => LoopOk s ∧ QuietOk s.world)
      (fun _ _ _ hi hok he => ⟨hi.1.step he, quietOk_mainStep hi.1 hi.2 hok he⟩)
      ⟨loopOk_init clock, quietOk_init netEventCb {}⟩ hclose hr
  obtain ⟨_, hq⟩ := hend
  refine ⟨hq.connected, fun hnone => ?_, fun q hlive hne => (hq.others q hlive hne).2,
    hq.unreached⟩
  by_contra hc
  obtain ⟨p, hp, _⟩ := hq.connected (by simpa using hc)
  simp [hnone] at hp

/-- umqtt cannot open its session, and `tcp_close` has no memory for a FIN. -/
def unclosedSession : List MainEvent :=
  List.replicate 7 (MainEvent.exec { ipAddr := 1 }) ++ [MainEvent.lwip (.connected 0)] ++
    List.replicate 12 (MainEvent.exec { err := .other 1, closeErr := .mem })

theorem only_current_reaches_unclosed :
    ∃ s : Main, Runs.run mainStep (Main.init {}) unclosedSession = some s ∧
      (s.world.lwip.pcbs 0).live = true ∧ (s.world.lwip.pcbs 0).Forgotten := by
  have hfacts : (Runs.run mainStep (Main.init {}) unclosedSession).map
      (fun s => (s.world.inst.hNet, (s.world.lwip.pcbs 0).live)) = some (none, true) := by
    decide +kernel
  obtain ⟨s, hs, hf⟩ := Option.map_eq_some_iff.mp hfacts
  obtain ⟨hnet, hlive⟩ := Prod.mk.inj hf
  have hclose : Runs.AllSteps mainStep LoopClosesOpening (Main.init {}) unclosedSession := by
    decide +kernel
  have hothers := (only_current_reaches {} hs hclose).2.2.1 0 hlive (by simp [hnet])
  exact ⟨s, hs, hlive, hothers⟩

end McuTest
