import McuTest.CurrentPcb
import McuTest.History

/-! What the application sees of net_client: one connection at a time, which is
dialed, opened, used and closed in this order. -/

namespace McuTest

/-- The connection as the application knows it. -/
inductive Link where
  | down
  | dialing
  | up
  deriving DecidableEq

inductive LinkEvent where
  | dialed
  | opened
  | polled
  | heard
  | closed
  deriving DecidableEq

def Link.step : Link → LinkEvent → Option Link
  | .down, .dialed => some .dialing
  | .dialing, .opened => some .up
  | .up, .polled => some .up
  | .up, .heard => some .up
  | _, .closed => some .down
  | _, _ => none

/-- A `net_Connect` that returns 0, a notification and a pbuf taken into the queue. -/
def Action.link : Action → Option LinkEvent
  | .netConnect 0 _ => some .dialed
  | .notified .connected => some .opened
  | .notified .poll => some .polled
  | .notified .disconnected => some .closed
  | .received _ _ .ok => some .heard
  | _ => none

section Net

variable {N : Nat} [NeZero N] {σ : Type} {w w' : World N σ}

def World.link (w : World N σ) : Link :=
  if w.inst.isConnected = true then .up else if w.inst.hNet = none then .down else .dialing

/-- The current PCB delivers nothing before it is established. -/
structure LinkOk (w : World N σ) : Prop extends CurrentOnly w where
  opened : w.inst.isConnected = true → ∀ p, w.inst.hNet = some p →
    (w.lwip.pcbs p).established = true
  quiet : w.inst.isConnected = false → ∀ p, w.inst.hNet = some p →
    (w.lwip.pcbs p).recv = none ∧ (w.lwip.pcbs p).poll = none

omit [NeZero N] in
theorem linkOk_init (pfnEventCb : NetClientEvent → σ → σ) (app : σ) :
    LinkOk (World.init pfnEventCb app : World N σ) :=
  { currentOnly_init pfnEventCb app with
    opened := fun h => by simp [World.init, Net.init] at h
    quiet := fun _ p hp => by simp [World.init, Net.init] at hp }

omit [NeZero N] in
theorem CurrentOnly.disconnected (h : CurrentOnly w) (hnone : w.inst.hNet = none) :
    w.inst.isConnected = false := by
  by_contra hc
  obtain ⟨p, hp, _⟩ := h.connected (by simpa using hc)
  simp [hnone] at hp

omit [NeZero N] in
theorem LinkOk.receiving (h : LinkOk w) {p : Pcb} (hr : w.receives p) :
    w.inst.isConnected = true := by
  have hcur := h.hNet_of_slot hr.1 (.inr (.inl (by simp [hr.2])))
  by_contra hc
  have hrecv := (h.quiet (by simpa using hc) p hcur).1
  simp [hr.2] at hrecv

omit [NeZero N] in
theorem CurrentOnly.dialed {addr : IpAddr} {port : UInt16} {closeErr : ErrT} (h : CurrentOnly w')
    (hfalse : w.inst.isConnected = false)
    (hconn : w'.inst.isConnected = w.isConnectedAfter (.call (.connect addr port true .ok closeErr)))
    (hnet : w'.inst.hNet = some w.lwip.nextPcb)
    (hpcbs : ∀ q, w'.lwip.pcbs q = w.pcbAfter q (.call (.connect addr port true .ok closeErr))) :
    LinkOk w' := by
  have hstill : w'.inst.isConnected = false := by
    rw [hconn]
    simp [World.isConnectedAfter, hfalse]
  refine { h with opened := fun ht => by simp [hstill] at ht, quiet := fun _ p hp => ?_ }
  obtain rfl := Option.some.inj (hnet.symm.trans hp)
  rw [hpcbs]
  simp [World.pcbAfter, TcpPcb.opening]

theorem CurrentOnly.linked (hN : N ≤ 256) (h' : CurrentOnly w') (h : LinkOk w) (hok : NetOk w)
    {p : Pcb} (he : netStep w (.lwip (.connected p)) = some w') : LinkOk w' := by
  obtain ⟨hlive, hnew⟩ := connecting_of_step he
  have hcur := h.hNet_of_slot hlive (.inl hnew)
  have harg := (hok.current p hcur).2
  have hslots := netStep_pcbs hN hok he
  have hnet : w'.inst.hNet = w.inst.hNet := (netStep_effect hN hok he).hNet
  have hup : w'.inst.isConnected = true := by
    rw [(hslots 0).2]
    simp [World.isConnectedAfter, harg]
  refine { h' with opened := fun _ q hq => ?_, quiet := fun ht => by simp [hup] at ht }
  rw [hnet, hcur] at hq
  obtain rfl := Option.some.inj hq
  rw [(hslots p).1]
  simp [World.pcbAfter, harg, World.owns, hcur, hlive, TcpPcb.watch]

theorem LinkOk.step (hN : N ≤ 256) (h : LinkOk w) (hok : NetOk w) {e : NetEvent}
    (hdown : ConnectsWhenDown w e) (hclose : ClosesOpening w e) (he : netStep w e = some w') :
    LinkOk w' := by
  have hcur := h.toCurrentOnly.step hN hok hdown hclose he
  have hslots := netStep_pcbs hN hok he
  have hconn := (hslots 0).2
  have hnet := (netStep_effect hN hok he).hNet
  have hlost : w.hNetAfter e = none → LinkOk w' := by
    intro hnone
    rw [hnone] at hnet
    exact { hcur with
      opened := fun _ p hp => by simp [hnet] at hp
      quiet := fun _ p hp => by simp [hnet] at hp }
  have hsame : w.hNetAfter e = w.inst.hNet → w.isConnectedAfter e = w.inst.isConnected →
      (∀ q, w.pcbAfter q e = w.lwip.pcbs q) → LinkOk w' := by
    intro hn hc hp
    have hpcbs : w'.lwip.pcbs = w.lwip.pcbs := funext fun q => (hslots q).1.trans (hp q)
    refine { hcur with opened := ?_, quiet := ?_ }
    · rw [hconn, hc, hnet, hn, hpcbs]
      exact h.opened
    · rw [hconn, hc, hnet, hn, hpcbs]
      exact h.quiet
  cases e with
  | call c =>
    cases c with
    | connect addr port avail connErr closeErr =>
      have hnone := hdown _ _ _ _ _ rfl
      by_cases hdialed : avail = true ∧ connErr = .ok
      · obtain ⟨rfl, rfl⟩ := hdialed
        exact hcur.dialed (h.toCurrentOnly.disconnected hnone) hconn hnet
          fun q => (hslots q).1
      · refine hlost ?_
        cases avail with
        | false => exact hnone
        | true => simp_all [World.hNetAfter]
    | disconnect closeErr => exact hlost rfl
    | readPacket len => exact hsame rfl rfl fun q => rfl
    | writePacket buf len isMore err => exact hsame rfl rfl fun q => rfl
  | lwip e =>
    cases e with
    | connected p => exact hcur.linked hN h hok he
    | peerClose p => exact hlost rfl
    | fatal p => exact hlost rfl
    | _ => exact hsame rfl rfl fun q => rfl

theorem link_deliver (w : World N σ) (p : Pcb) (pb : Pbuf) (hup : w.link = .up) :
    Runs.run Link.step w.link ((deliverCalls w p pb).filterMap Action.link) = some w.link := by
  rw [hup, deliverCalls]
  split_ifs <;> rfl

omit [NeZero N] in
theorem link_of_connected (hc : w.inst.isConnected = true) : w.link = .up := by
  rw [World.link, if_pos hc]

omit [NeZero N] in
theorem run_closed (l : Link) : Runs.run Link.step l [.closed] = some .down := by
  cases l <;> rfl

theorem link_connect (hN : N ≤ 256) (h : LinkOk w) (hok : NetOk w) {addr : IpAddr} {port : UInt16}
    {avail : Bool} {connErr closeErr : ErrT} (hnone : w.inst.hNet = none)
    (he : netStep w (.call (.connect addr port avail connErr closeErr)) = some w') :
    Runs.run Link.step w.link
      ((connectCalls w addr port avail connErr closeErr).filterMap Action.link) = some w'.link := by
  have hnet : w'.inst.hNet = w.hNetAfter _ := (netStep_effect hN hok he).hNet
  have hconn : w'.inst.isConnected = false := by
    rw [(netStep_pcbs hN hok he 0).2]
    simp [World.isConnectedAfter, h.toCurrentOnly.disconnected hnone]
  have hdown : w.link = .down := by
    simp [World.link, h.toCurrentOnly.disconnected hnone, hnone]
  rw [hdown]
  cases avail with
  | false =>
    have hstill : w'.link = .down := by simp [World.link, hconn, hnet, World.hNetAfter, hnone]
    rw [hstill]
    rfl
  | true =>
    by_cases hconnErr : connErr = .ok
    · have hdialing : w'.link = .dialing := by
        simp [World.link, hconn, hnet, World.hNetAfter, hconnErr]
      rw [hdialing, connectCalls, if_pos rfl, if_pos hconnErr]
      rfl
    · have hstill : w'.link = .down := by simp [World.link, hconn, hnet, World.hNetAfter, hconnErr]
      rw [hstill, connectCalls, if_pos rfl, if_neg hconnErr]
      rfl

theorem link_lwip (hN : N ≤ 256) (h : LinkOk w) (hok : NetOk w) {e : LwipEvent}
    (he : netStep w (.lwip e) = some w') :
    Runs.run Link.step w.link ((w.actions (.lwip e)).filterMap Action.link) = some w'.link := by
  have hconn := (netStep_pcbs hN hok he 0).2
  have hnet := (netStep_effect hN hok he).hNet
  have hlost : w.hNetAfter (.lwip e) = none → w.isConnectedAfter (.lwip e) = false →
      w'.link = .down := by
    intro hn hc
    simp [World.link, hconn, hc, hnet, hn]
  have hsame : w.hNetAfter (.lwip e) = w.inst.hNet →
      w.isConnectedAfter (.lwip e) = w.inst.isConnected → w'.link = w.link := by
    intro hn hc
    simp only [World.link, hconn, hc, hnet, hn]
  have hstep : lwipStep w e = some w' := he
  cases fires_of_lwipStep hstep with
  | connected p hlive hnew =>
    have hcur := h.hNet_of_slot hlive (.inl hnew)
    have harg := (hok.current p hcur).2
    have hfalse : w.inst.isConnected = false := by
      by_contra hc
      have hest := h.opened (by simpa using hc) p hcur
      simp [hnew] at hest
    have hdialing : w.link = .dialing := by simp [World.link, hfalse, hcur]
    have hup : w.isConnectedAfter (.lwip (.connected p)) = true := by
      simp [World.isConnectedAfter, harg]
    rw [hdialing, link_of_connected (hconn.trans hup)]
    simp only [World.actions, harg]
    rfl
  | receive p chain hr =>
    rw [hsame rfl rfl]
    exact link_deliver w p (w.newPbuf chain) (link_of_connected (h.receiving hr))
  | redeliver p pb hheld hr =>
    rw [hsame rfl rfl]
    simp only [World.actions, hheld]
    exact link_deliver w p pb (link_of_connected (h.receiving hr))
  | giveUp =>
    rw [hsame rfl rfl]
    rfl
  | peerClose p hr =>
    rw [hlost rfl rfl]
    exact run_closed w.link
  | poll p hlive hcb =>
    have hcur := h.hNet_of_slot hlive (.inr (.inr (.inr (.inl (by simp [hcb])))))
    have hup : w.inst.isConnected = true := by
      by_contra hc
      have hpoll := (h.quiet (by simpa using hc) p hcur).2
      simp [hcb] at hpoll
    rw [hsame rfl rfl, link_of_connected hup]
    simp only [World.actions, (hok.current p hcur).2]
    rfl
  | sent p len =>
    rw [hsame rfl rfl]
    rfl
  | fatal p =>
    rw [hlost rfl rfl]
    exact run_closed w.link

/-- What one step of net_client shows to the application. -/
theorem link_actions (hN : N ≤ 256) (h : LinkOk w) (hok : NetOk w) {e : NetEvent}
    (hdown : ConnectsWhenDown w e) (he : netStep w e = some w') :
    Runs.run Link.step w.link ((w.actions e).filterMap Action.link) = some w'.link := by
  have hconn := (netStep_pcbs hN hok he 0).2
  have hnet := (netStep_effect hN hok he).hNet
  cases e with
  | call c =>
    cases c with
    | connect addr port avail connErr closeErr =>
      exact link_connect hN h hok (hdown _ _ _ _ _ rfl) he
    | disconnect closeErr =>
      have hlost : w'.link = .down := by
        simp [World.link, hconn, hnet, World.isConnectedAfter, World.hNetAfter]
      rw [hlost]
      exact run_closed w.link
    | readPacket len =>
      have hsame : w'.link = w.link := by simp only [World.link, hconn, hnet]; rfl
      rw [hsame]
      cases hq : w.inst.queued <;> simp only [World.actions, hq] <;> rfl
    | writePacket buf len isMore err =>
      have hsame : w'.link = w.link := by simp only [World.link, hconn, hnet]; rfl
      rw [hsame]
      simp only [World.actions]
      split_ifs <;> rfl
  | lwip e => exact link_lwip hN h hok he

end Net

variable {s s' : Main}

structure LinkInv (s : Main) : Prop extends LoopOk s where
  link : LinkOk s.world
  seen : Runs.run Link.step .down (s.world.lwip.log.filterMap Action.link) = some s.world.link

theorem linkInv_init (clock : Clock) : LinkInv (Main.init clock) :=
  { loopOk_init clock with
    link := linkOk_init netEventCb {}
    seen := rfl }

theorem LinkInv.step (h : LinkInv s) {e : MainEvent} (hclose : LoopClosesOpening s e)
    (he : mainStep s e = some s') : LinkInv s' := by
  have hN : netclientQueueSize ≤ 256 := by decide
  have hloop := h.toLoopOk.step he
  rcases mainStep_world he with ⟨d, hd, hnet⟩ | ⟨_, hi, hl⟩
  · have hdown := h.toLoopOk.connectsWhenDown he hd
    refine { hloop with link := h.link.step hN h.netOk hdown (hclose d hd) hnet, seen := ?_ }
    rw [(netStep_effect hN h.netOk hnet).log, List.filterMap_append, History.run_append, h.seen]
    exact link_actions hN h.link h.netOk hdown hnet
  · refine { hloop with link := ⟨⟨?_, ?_⟩, ?_, ?_⟩, seen := ?_ }
    · rw [hi, hl]
      exact h.link.connected
    · rw [hi, hl]
      exact h.link.others
    · rw [hi, hl]
      exact h.link.opened
    · rw [hi, hl]
      exact h.link.quiet
    · rw [hl, World.link, hi]
      exact h.seen

/-- Whatever lwIP does, and in whatever order, the application sees one connection
at a time, and `hNet` and `isConnected` tell how far it has got. -/
theorem link_of_run (clock : Clock) {es : List MainEvent}
    (hr : Runs.run mainStep (Main.init clock) es = some s)
    (hclose : Runs.AllSteps mainStep LoopClosesOpening (Main.init clock) es) :
    Runs.run Link.step .down (s.world.lwip.log.filterMap Action.link) = some s.world.link := by
  have h : LinkInv s :=
    Runs.run_invariant (fun _ _ _ hi hok he => LinkInv.step hi hok he) (linkInv_init clock) hclose hr
  exact h.seen

/-- umqtt cannot open its session on the connection that lwIP has established. -/
theorem link_of_run_unclosed :
    ∃ s : Main, Runs.run mainStep (Main.init {}) unclosedSession = some s ∧
      s.world.lwip.log.filterMap Action.link = [.dialed, .opened, .closed] ∧
        Runs.run Link.step .down [.dialed, .opened, .closed] = some s.world.link := by
  have hfacts : (Runs.run mainStep (Main.init {}) unclosedSession).map
      (fun s => s.world.lwip.log.filterMap Action.link) = some [.dialed, .opened, .closed] := by
    decide +kernel
  obtain ⟨s, hs, hseen⟩ := Option.map_eq_some_iff.mp hfacts
  have hclose : Runs.AllSteps mainStep LoopClosesOpening (Main.init {}) unclosedSession := by
    decide +kernel
  exact ⟨s, hs, hseen, hseen ▸ link_of_run {} hs hclose⟩

end McuTest
