import McuTest.Handover
import McuTest.NetTrace

/-! net_client and lwIP hand pbufs over exactly once: every step is one of the
abstract hand-over protocol, with a queue of `N - 1` places, or leaves it alone. -/

namespace McuTest

variable {N : Nat} [NeZero N] {σ : Type}

def World.handover (w : World N σ) : Handover.State Pbuf where
  offered := offers w.lwip.log
  held := w.lwip.refused.map Prod.snd
  accepted := (accepted w.lwip.log).map Prod.snd
  queue := w.inst.queued
  freed := freedPbufs w.lwip.log

variable {w w' : World N σ}

theorem handover_init (pfnEventCb : NetClientEvent → σ → σ) (app : σ) :
    (World.init pfnEventCb app : World N σ).handover = Handover.empty := by
  have hq := Instance.queued_init (N := N) pfnEventCb
  simp [World.handover, World.init, Handover.empty, hq, offers, accepted, freedPbufs]

structure Neutral (as : List Action) : Prop where
  offers : offers as = []
  accepted : accepted as = []
  freed : freedPbufs as = []

theorem handover_eq_of_neutral {as : List Action} (has : Neutral as)
    (hl : w'.lwip.log = w.lwip.log ++ as) (hr : w'.lwip.refused = w.lwip.refused)
    (hq : w'.inst.queued = w.inst.queued) : w'.handover = w.handover := by
  simp only [World.handover, hl, hr, hq, offers_append, has.offers, accepted_append, has.accepted,
    freedPbufs_append, has.freed, List.append_nil]

theorem handover_errorCb (w : World N σ) (arg : Handle) :
    (Net.errorCb w arg).handover = w.handover := by
  cases arg with
  | null => rfl
  | inst => exact handover_eq_of_neutral ⟨rfl, rfl, rfl⟩ (log_errorCb w) rfl rfl

theorem handover_connectedCb (w : World N σ) (arg : Handle) :
    (Net.connectedCb w arg).handover = w.handover := by
  cases arg with
  | null => rfl
  | inst => exact handover_eq_of_neutral ⟨rfl, rfl, rfl⟩ (log_connectedCb w) rfl rfl

theorem handover_note (w : World N σ) {a : Action} (ha : Neutral [a]) :
    (w.note a).handover = w.handover :=
  handover_eq_of_neutral ha rfl rfl rfl

theorem handover_connect (w : World N σ) (addr : IpAddr) (port : UInt16) (avail : Bool)
    (connErr closeErr : ErrT) :
    (Net.connect w .inst addr port avail connErr closeErr).2.handover = w.handover := by
  cases avail with
  | false => exact handover_note w ⟨rfl, rfl, rfl⟩
  | true =>
    by_cases he : connErr = .ok
    · subst connErr
      rw [connect_ok]
      have hf : Neutral (openCalls w.lwip.nextPcb addr port .ok) := ⟨rfl, rfl, rfl⟩
      exact handover_eq_of_neutral hf rfl rfl rfl
    · rw [connect_fail w addr port closeErr he]
      exact handover_eq_of_neutral ⟨rfl, rfl, rfl⟩
        (log_connect_fail w.lwip addr port connErr closeErr) rfl rfl

theorem handover_writePacket (w : World N σ) (pBuf : Option (List Byte)) (len : UInt32)
    (isMore : Bool) (err : ErrT) :
    (Net.writePacket w .inst pBuf len isMore err).2.handover = w.handover := by
  cases pBuf with
  | none => rfl
  | some buf =>
    by_cases he : err = .ok
    · subst err
      cases isMore with
      | true => exact handover_note w ⟨rfl, rfl, rfl⟩
      | false =>
        have hw : (w.note (.tcpWrite w.inst.hNet (buf.take len.toUInt16.toNat) .ok)).handover =
            w.handover := handover_note w ⟨rfl, rfl, rfl⟩
        exact (handover_note _ (a := .tcpCall .output w.inst.hNet) ⟨rfl, rfl, rfl⟩).trans hw
    · simp only [Net.writePacket, he, ne_eq, not_false_eq_true, if_true]
      exact handover_note w (a := .tcpWrite w.inst.hNet (buf.take len.toUInt16.toNat) err)
        ⟨rfl, rfl, rfl⟩

theorem handover_taken (hN : N ≤ 256) (h : NetOk w) {pb : Pbuf} {rest : List Pbuf}
    (hq : w.inst.queued = pb :: rest) : (w.taken pb).handover =
      { w.handover with queue := rest, freed := freedPbufs w.lwip.log ++ [pb] } := by
  have hrest := (Instance.slot_next_odx hN h.ring hq).2
  simp [World.handover, World.taken, hrest, offers, accepted, freedPbufs]

theorem handover_readPacket (hN : N ≤ 256) (h : NetOk w) (len : UInt16) :
    (callStep w (.readPacket len)).handover = w.handover ∨
      Handover.Step (N - 1) w.handover (callStep w (.readPacket len)).handover := by
  cases hq : w.inst.queued with
  | nil =>
    rw [callStep_read_nil h.ring hq]
    exact .inl rfl
  | cons pb rest =>
    have hnote := handover_note (w.taken pb) (a := .netRead pb (pb.takenBytes len)) ⟨rfl, rfl, rfl⟩
    rw [callStep_read_cons hN h.ring hq, hnote, handover_taken hN h hq]
    exact .inr (.take pb rest hq)

theorem handover_deliver_room (hN : N ≤ 256) (h : NetOk w) {p : Pcb} (hr : w.receives p)
    (pb : Pbuf) (hroom : w.inst.queued.length + 1 ≠ N) :
    (deliver w p pb).handover = { w.handover with
      held := none
      accepted := (accepted w.lwip.log).map Prod.snd ++ [pb]
      queue := w.inst.queued ++ [pb] } := by
  have hq := Instance.queued_pushed hN h.ring hroom pb
  rw [deliver_room h hr pb hroom]
  simp [World.handover, hq, offers, accepted, freedPbufs]

theorem handover_deliver_full (h : NetOk w) {p : Pcb} (hr : w.receives p)
    (pb : Pbuf) (hfull : w.inst.queued.length + 1 = N) :
    (deliver w p pb).handover = { w.handover with held := some pb } := by
  rw [deliver_full h hr pb hfull]
  simp [World.handover, offers, accepted, freedPbufs]

theorem handover_offer (w : World N σ) (p : Pcb) (pb : Pbuf) :
    (w.offer p pb).handover = { w.handover with offered := offers w.lwip.log ++ [pb] } := by
  simp [World.handover, World.offer, Lwip.note, offers, accepted, freedPbufs]

theorem receive_handover (hN : N ≤ 256) (h : NetOk w) {p : Pcb} (hr : w.receives p)
    (hheld : w.lwip.refused = none) (pb : Pbuf) (hpb : pb.addr = w.lwip.nextPbuf) :
    Handover.Step (N - 1) w.handover (deliver (w.offer p pb) p pb).handover := by
  have hoff : NetOk (w.offer p pb) := h.offer p hpb
  have hnew : pb ∉ w.handover.offered := fun hm => by
    have hlt := h.addrs pb hm
    omega
  have hnone : w.handover.held = none := by simp [World.handover, hheld]
  have hlen := h.ring.length_queued_lt
  by_cases hroom : w.inst.queued.length + 1 = N
  · rw [handover_deliver_full hoff hr pb hroom, handover_offer]
    have hfull : N - 1 ≤ w.handover.queue.length := by
      change N - 1 ≤ w.inst.queued.length
      omega
    exact .offerRefuse pb hnew hnone hfull
  · rw [handover_deliver_room hN hoff hr pb hroom, handover_offer]
    have hlt : w.handover.queue.length < N - 1 := by
      change w.inst.queued.length < N - 1
      omega
    have hs := Handover.Step.offerAccept pb hnew hnone hlt
    simpa [World.handover, World.offer, Lwip.note, hheld, accepted] using hs

theorem redeliver_handover (hN : N ≤ 256) (h : NetOk w) {p : Pcb} {pb : Pbuf}
    (hr : w.receives p) (hheld : w.lwip.refused = some (p, pb)) :
    Handover.Step (N - 1) w.handover (deliver w p pb).handover := by
  have hsome : w.handover.held = some pb := by simp [World.handover, hheld]
  have hlen := h.ring.length_queued_lt
  by_cases hroom : w.inst.queued.length + 1 = N
  · have hfull : N - 1 ≤ w.handover.queue.length := by
      change N - 1 ≤ w.inst.queued.length
      omega
    have he : { w.handover with held := some pb } = w.handover := by rw [← hsome]
    rw [handover_deliver_full h hr pb hroom, he]
    exact .againRefuse pb hsome hfull
  · have hlt : w.handover.queue.length < N - 1 := by
      change w.inst.queued.length < N - 1
      omega
    rw [handover_deliver_room hN h hr pb hroom]
    exact .againAccept pb hsome hlt

theorem lwipStep_handover (hN : N ≤ 256) (h : NetOk w) {e : LwipEvent}
    (he : lwipStep w e = some w') :
    w'.handover = w.handover ∨ Handover.Step (N - 1) w.handover w'.handover := by
  cases fires_of_lwipStep he with
  | connected p =>
    refine .inl ((handover_connectedCb _ _).trans ?_)
    have hf : Neutral [.entered .connectedCb (w.lwip.pcbs p).arg] := ⟨rfl, rfl, rfl⟩
    exact handover_eq_of_neutral hf rfl rfl rfl
  | receive p chain hr hheld =>
    exact .inr (receive_handover hN h hr hheld _ rfl)
  | redeliver p pb hheld hr =>
    exact .inr (redeliver_handover hN h hr hheld)
  | giveUp =>
    exact .inr (Handover.Step.giveUp (s := w.handover))
  | peerClose p hr =>
    have harg := h.slots p hr.1 (.inl hr.2)
    refine .inl ?_
    simp only [Net.receiveCb, harg, ne_eq, reduceCtorEq, not_false_eq_true, and_self, if_true]
    exact (handover_errorCb _ _).trans (handover_note w ⟨rfl, rfl, rfl⟩)
  | poll p =>
    refine .inl (Eq.trans ?_ (handover_note w (a := .entered .pollCb (w.lwip.pcbs p).arg)
      ⟨rfl, rfl, rfl⟩))
    cases (w.lwip.pcbs p).arg with
    | null => rfl
    | inst =>
      have hf : Neutral [.notified .poll] := ⟨rfl, rfl, rfl⟩
      exact handover_eq_of_neutral hf rfl rfl rfl
  | sent p len =>
    exact .inl (handover_note w ⟨rfl, rfl, rfl⟩)
  | fatal p =>
    refine .inl ((handover_errorCb _ _).trans ?_)
    have hf : Neutral [.pcbFreed p, .entered .errorCb (w.lwip.pcbs p).arg] := ⟨rfl, rfl, rfl⟩
    exact handover_eq_of_neutral hf (by simp [World.note, Lwip.note, Lwip.onPcb]) rfl rfl

theorem netStep_handover (hN : N ≤ 256) (h : NetOk w) {e : NetEvent}
    (he : netStep w e = some w') :
    w'.handover = w.handover ∨ Handover.Step (N - 1) w.handover w'.handover := by
  cases e with
  | lwip e => exact lwipStep_handover hN h he
  | call c =>
    obtain rfl : callStep w c = w' := Option.some.inj he
    cases c with
    | connect addr port avail connErr closeErr =>
      exact .inl ((handover_note _ ⟨rfl, rfl, rfl⟩).trans
        (handover_connect w addr port avail connErr closeErr))
    | disconnect closeErr =>
      exact .inl (handover_eq_of_neutral ⟨rfl, rfl, rfl⟩ (log_disconnect w closeErr) rfl rfl)
    | readPacket len => exact handover_readPacket hN h len
    | writePacket buf len isMore err => exact .inl (handover_writePacket w _ len isMore err)

structure HandoverOk (w : World N σ) : Prop where
  net : NetOk w
  inv : Handover.Inv w.handover

theorem handoverOk_init (pfnEventCb : NetClientEvent → σ → σ) (app : σ) :
    HandoverOk (World.init pfnEventCb app : World N σ) :=
  ⟨netOk_init pfnEventCb app, handover_init (N := N) pfnEventCb app ▸ Handover.inv_empty⟩

theorem HandoverOk.step (hN : N ≤ 256) (h : HandoverOk w) {e : NetEvent}
    (he : netStep w e = some w') : HandoverOk w' := by
  refine ⟨h.net.step hN he, ?_⟩
  rcases netStep_handover hN h.net he with hs | hs
  · exact hs ▸ h.inv
  · exact h.inv.step hs

theorem handoverOk_run (hN : N ≤ 256) {es : List NetEvent} (h : HandoverOk w)
    (hr : Runs.run netStep w es = some w') : HandoverOk w' :=
  Runs.run_invariant' (fun _ _ _ hs he => hs.step hN he) h hr

/-- Every accepted pbuf is queued once or has been freed once, in the order of
the offers, and no other pbuf is queued or freed. -/
theorem pbufs_handed_over_once {σ : Type} (pfnEventCb : NetClientEvent → σ → σ) (app : σ)
    {es : List NetEvent} {w : World netclientQueueSize σ}
    (hr : Runs.run netStep (World.init pfnEventCb app) es = some w) :
    let taken := (accepted w.lwip.log).map Prod.snd
    let freed := freedPbufs w.lwip.log
    freed ++ w.inst.queued = taken ∧
      (∀ pb ∈ taken, (w.inst.queued.count pb = 1 ∧ freed.count pb = 0) ∨
        (w.inst.queued.count pb = 0 ∧ freed.count pb = 1)) ∧
      taken.Sublist (offers w.lwip.log) ∧ (offers w.lwip.log).Nodup ∧
      (∀ pb, pb ∉ taken → pb ∉ w.inst.queued ∧ pb ∉ freed) ∧
      ∀ p pb, w.lwip.refused = some (p, pb) → pb ∉ taken := by
  have h := (handoverOk_run (by decide) (handoverOk_init pfnEventCb app) hr).inv
  refine ⟨h.conserved, fun pb hpb => h.exactly_once hpb, h.sub, h.nodup, fun pb hpb => ?_,
    fun p pb hheld => ?_⟩
  · have hn : ¬(pb ∈ freedPbufs w.lwip.log ∨ pb ∈ w.inst.queued) := fun hm =>
      hpb (h.mem_accepted.mpr hm)
    exact ⟨fun hm => hn (.inr hm), fun hm => hn (.inl hm)⟩
  · exact h.held_not_accepted (by simp [World.handover, hheld])

def fullRingEvents : List NetEvent :=
  connectEvents ++ List.replicate 8 (.lwip (.receive 0 connack)) ++
    [.call (.readPacket 2), .lwip .redeliver]

/-- Eight offers fill the ring; the last is refused, and redelivered after a read. -/
theorem pbufs_handed_over_once_full_ring :
    ∃ w : World netclientQueueSize Unit,
      Runs.run netStep (World.init (fun _ s => s) ()) fullRingEvents = some w ∧
        (offers w.lwip.log).length = 8 ∧ (freedPbufs w.lwip.log).length = 1 ∧
        freedPbufs w.lwip.log ++ w.inst.queued = (accepted w.lwip.log).map Prod.snd := by
  have hfacts : (Runs.run netStep (World.init (N := netclientQueueSize) (fun _ s => s) ())
      fullRingEvents).map (fun w => ((offers w.lwip.log).length, (freedPbufs w.lwip.log).length)) =
        some (8, 1) := by
    decide +kernel
  obtain ⟨w, hw, hf⟩ := Option.map_eq_some_iff.mp hfacts
  obtain ⟨ho, hf⟩ := Prod.mk.inj hf
  exact ⟨w, hw, ho, hf, (pbufs_handed_over_once (fun _ s => s) () hw).1⟩

end McuTest
