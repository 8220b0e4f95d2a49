import McuTest.NetInvariant

/-! What one step of net_client adds to the log and what it does to `hNet` and
to the queue. -/

namespace McuTest

variable {N : Nat} [NeZero N] {σ : Type} {w w' : World N σ}

theorem deliver_room (h : NetOk w) {p : Pcb} (hr : w.receives p) (pb : Pbuf)
    (hroom : w.inst.queued.length + 1 ≠ N) :
    deliver w p pb = { w with
      inst := w.inst.pushed pb
      lwip := { w.lwip with
        log := w.lwip.log ++ [.entered .receiveCb .inst, .received p pb .ok]
        refused := none } } := by
  have harg := h.slots p hr.1 (.inl hr.2)
  simp [deliver, harg, Net.receiveCb, World.note, Lwip.note,
    Instance.enqueuePbuf_room h.ring hroom]

theorem deliver_full (h : NetOk w) {p : Pcb} (hr : w.receives p) (pb : Pbuf)
    (hfull : w.inst.queued.length + 1 = N) :
    deliver w p pb = { w with
      lwip := { w.lwip with
        log := w.lwip.log ++ [.entered .receiveCb .inst, .received p pb .mem]
        refused := some (p, pb) } } := by
  have harg := h.slots p hr.1 (.inl hr.2)
  simp [deliver, harg, Net.receiveCb, World.note, Lwip.note,
    Instance.enqueuePbuf_full h.ring hfull]

def World.full (w : World N σ) : Prop :=
  w.inst.queued.length + 1 = N

instance (w : World N σ) : Decidable w.full :=
  inferInstanceAs (Decidable (_ = _))

def errorCalls (hNet : Option Pcb) : List Action :=
  deregisterCalls hNet ++ [.tcpAbort hNet, .notified .disconnected]

def connectCalls (w : World N σ) (addr : IpAddr) (port : UInt16) (avail : Bool)
    (connErr closeErr : ErrT) : List Action :=
  if avail = true then
    openCalls w.lwip.nextPcb addr port connErr ++
      (if connErr = .ok then [.netConnect 0 (some w.lwip.nextPcb)]
      else [.tcpClose (some w.lwip.nextPcb) closeErr, .netConnect (-4) none])
  else [.tcpNew none, .netConnect (-2) w.inst.hNet]

def deliverCalls (w : World N σ) (p : Pcb) (pb : Pbuf) : List Action :=
  [.entered .receiveCb .inst, .received p pb (if w.full then .mem else .ok)]

def World.actions (w : World N σ) : NetEvent → List Action
  | .call (.connect addr port avail connErr closeErr) =>
    connectCalls w addr port avail connErr closeErr
  | .call (.disconnect closeErr) =>
    deregisterCalls w.inst.hNet ++ [.tcpClose w.inst.hNet closeErr, .notified .disconnected]
  | .call (.readPacket len) =>
    match w.inst.queued with
    | [] => []
    | pb :: _ =>
      [.tcpRecved w.inst.hNet pb.len, .pbufFree pb, .netRead pb (pb.takenBytes len)]
  | .call (.writePacket buf len isMore err) =>
    .tcpWrite w.inst.hNet (buf.take len.toUInt16.toNat) err ::
      (if err = .ok ∧ isMore = false then [.tcpCall .output w.inst.hNet] else [])
  | .lwip (.connected p) =>
    .entered .connectedCb (w.lwip.pcbs p).arg ::
      (match (w.lwip.pcbs p).arg with
      | .null => []
      | .inst => registerCalls w.inst.hNet ++ [.notified .connected])
  | .lwip (.receive p chain) =>
    .offered p (w.newPbuf chain) :: deliverCalls w p (w.newPbuf chain)
  | .lwip .redeliver =>
    match w.lwip.refused with
    | some (p, pb) => deliverCalls w p pb
    | none => []
  | .lwip .giveUp => []
  | .lwip (.peerClose _) => .entered .receiveCb .inst :: errorCalls w.inst.hNet
  | .lwip (.poll p) =>
    .entered .pollCb (w.lwip.pcbs p).arg ::
      (match (w.lwip.pcbs p).arg with
      | .null => []
      | .inst => [.notified .poll])
  | .lwip (.sent p _) => [.entered .sentCb (w.lwip.pcbs p).arg]
  | .lwip (.fatal p) => .pcbFreed p :: .entered .errorCb .inst :: errorCalls w.inst.hNet

def World.hNetAfter (w : World N σ) : NetEvent → Option Pcb
  | .call (.connect _ _ avail connErr _) =>
    if avail = true then if connErr = .ok then some w.lwip.nextPcb else none else w.inst.hNet
  | .call (.disconnect _) => none
  | .lwip (.peerClose _) => none
  | .lwip (.fatal _) => none
  | _ => w.inst.hNet

omit [NeZero N] in
theorem hNetAfter_cases (w : World N σ) (e : NetEvent) :
    w.hNetAfter e = w.inst.hNet ∨ w.hNetAfter e = none ∨
      (w.hNetAfter e = some w.lwip.nextPcb ∧
        ∃ addr port closeErr, e = .call (.connect addr port true .ok closeErr)) := by
  cases e with
  | call c =>
    cases c with
    | connect addr port avail connErr closeErr =>
      cases avail with
      | false => exact .inl rfl
      | true =>
        by_cases he : connErr = .ok
        · subst connErr
          exact .inr (.inr ⟨rfl, addr, port, closeErr, rfl⟩)
        · exact .inr (.inl (by simp [World.hNetAfter, he]))
    | disconnect closeErr => exact .inr (.inl rfl)
    | readPacket len => exact .inl rfl
    | writePacket buf len isMore err => exact .inl rfl
  | lwip e =>
    cases e with
    | peerClose p => exact .inr (.inl rfl)
    | fatal p => exact .inr (.inl rfl)
    | _ => exact .inl rfl

def World.queueAfter (w : World N σ) : NetEvent → List Pbuf
  | .call (.readPacket _) => w.inst.queued.tail
  | .call _ => w.inst.queued
  | .lwip (.receive _ chain) =>
    if w.full then w.inst.queued else w.inst.queued ++ [w.newPbuf chain]
  | .lwip .redeliver =>
    match w.lwip.refused with
    | some (_, pb) => if w.full then w.inst.queued else w.inst.queued ++ [pb]
    | none => w.inst.queued
  | .lwip _ => w.inst.queued

def World.refusedAfter (w : World N σ) : NetEvent → Option (Pcb × Pbuf)
  | .lwip (.receive p chain) => if w.full then some (p, w.newPbuf chain) else none
  | .lwip .redeliver => if w.full then w.lwip.refused else none
  | .lwip .giveUp => none
  | _ => w.lwip.refused

structure World.Effect (w w' : World N σ) (e : NetEvent) : Prop where
  log : w'.lwip.log = w.lwip.log ++ w.actions e
  hNet : w'.inst.hNet = w.hNetAfter e
  queued : w'.inst.queued = w.queueAfter e
  refused : w'.lwip.refused = w.refusedAfter e

theorem effect_connect (w : World N σ) (addr : IpAddr) (port : UInt16) (avail : Bool)
    (connErr closeErr : ErrT) :
    w.Effect (callStep w (.connect addr port avail connErr closeErr))
      (.call (.connect addr port avail connErr closeErr)) := by
  cases avail with
  | false =>
    simp only [callStep, connect_none]
    exact ⟨List.append_assoc _ _ _, rfl, rfl, rfl⟩
  | true =>
    by_cases he : connErr = .ok
    · subst connErr
      simp only [callStep, connect_ok]
      exact ⟨List.append_assoc _ _ _, rfl, rfl, rfl⟩
    · simp only [callStep, connect_fail w addr port closeErr he]
      refine ⟨?_, ?_, rfl, rfl⟩
      · simp only [World.note, Lwip.note, World.actions, connectCalls, if_true, if_neg he,
          log_connect_fail, List.append_assoc, List.singleton_append]
      · simp [World.note, World.hNetAfter, he]

theorem callStep_read_nil (h : w.inst.RingOk) (hq : w.inst.queued = []) (len : UInt16) :
    callStep w (.readPacket len) = w := by
  simp only [callStep, readPacket_nil h hq, Instance.dequeuePbuf_nil h hq]

theorem callStep_read_cons (hN : N ≤ 256) (h : w.inst.RingOk) {pb : Pbuf} {rest : List Pbuf}
    (hq : w.inst.queued = pb :: rest) (len : UInt16) :
    callStep w (.readPacket len) = (w.taken pb).note (.netRead pb (pb.takenBytes len)) := by
  simp only [callStep, readPacket_cons hN h hq, Instance.dequeuePbuf_cons hN h hq,
    Int.toNat_natCast]
  have hle : (if pb.len > len then len else pb.len).toNat ≤ pb.payload.length := by
    rw [← Pbuf.len_toNat]
    split_ifs with hlt
    · exact UInt16.le_of_lt hlt
    · exact Nat.le_refl _
  have hlen : (pb.payload.take (if pb.len > len then len else pb.len).toNat).length =
      (if pb.len > len then len else pb.len).toNat := by
    rw [List.length_take, Nat.min_eq_left hle]
  have htake := memcpy_take (freshMem len)
    (pb.payload.take (if pb.len > len then len else pb.len).toNat)
  rw [hlen] at htake
  rw [htake]
  rfl

theorem effect_readPacket (hN : N ≤ 256) (h : NetOk w) (len : UInt16) :
    w.Effect (callStep w (.readPacket len)) (.call (.readPacket len)) := by
  cases hq : w.inst.queued with
  | nil =>
    rw [callStep_read_nil h.ring hq]
    exact ⟨by simp [World.actions, hq], rfl, by simp [World.queueAfter, hq], rfl⟩
  | cons pb rest =>
    have hrest := (Instance.slot_next_odx hN h.ring hq).2
    rw [callStep_read_cons hN h.ring hq]
    refine ⟨by simp [World.actions, World.taken, World.note, Lwip.note, hq], rfl, ?_, rfl⟩
    simpa [World.queueAfter, World.taken, World.note, hq] using hrest

theorem effect_writePacket (w : World N σ) (buf : List Byte) (len : UInt32) (isMore : Bool)
    (err : ErrT) :
    w.Effect (callStep w (.writePacket buf len isMore err))
      (.call (.writePacket buf len isMore err)) := by
  by_cases he : err = .ok
  · subst err
    cases isMore with
    | true => exact ⟨rfl, rfl, rfl, rfl⟩
    | false => exact ⟨List.append_assoc _ _ _, rfl, rfl, rfl⟩
  · simp only [callStep, Net.writePacket, he, ne_eq, not_false_eq_true, if_true]
    refine ⟨?_, rfl, rfl, rfl⟩
    simp [World.actions, Lwip.tcpWrite, Lwip.note, he]

theorem deliver_effect (hN : N ≤ 256) (h : NetOk w) {p : Pcb} (hr : w.receives p) (pb : Pbuf) :
    (deliver w p pb).lwip.log = w.lwip.log ++ deliverCalls w p pb ∧
      (deliver w p pb).inst.hNet = w.inst.hNet ∧
      (deliver w p pb).inst.queued =
        (if w.full then w.inst.queued else w.inst.queued ++ [pb]) ∧
      (deliver w p pb).lwip.refused = if w.full then some (p, pb) else none := by
  by_cases hfull : w.full
  · rw [deliver_full h hr pb hfull]
    exact ⟨by simp [deliverCalls, hfull], rfl, by simp [hfull], by simp [hfull]⟩
  · have hq := Instance.queued_pushed hN h.ring hfull pb
    rw [deliver_room h hr pb hfull]
    exact ⟨by simp [deliverCalls, hfull], rfl, by simpa [hfull] using hq, by simp [hfull]⟩

theorem effect_errorCb (w : World N σ) :
    (Net.errorCb w .inst).lwip.log = w.lwip.log ++ errorCalls w.inst.hNet ∧
      (Net.errorCb w .inst).inst.hNet = none ∧
      (Net.errorCb w .inst).inst.queued = w.inst.queued ∧
      (Net.errorCb w .inst).lwip.refused = w.lwip.refused :=
  ⟨log_errorCb w, rfl, rfl, rfl⟩

theorem lwipStep_effect (hN : N ≤ 256) (h : NetOk w) {e : LwipEvent}
    (he : lwipStep w e = some w') : w.Effect w' (.lwip e) := by
  cases fires_of_lwipStep he with
  | connected p =>
    cases harg : (w.lwip.pcbs p).arg with
    | null =>
      refine ⟨?_, rfl, rfl, rfl⟩
      simp [World.actions, harg, Net.connectedCb, World.note, Lwip.note, Lwip.onPcb]
    | inst =>
      refine ⟨?_, rfl, rfl, rfl⟩
      rw [log_connectedCb]
      simp [World.actions, harg, World.note, Lwip.note, Lwip.onPcb]
  | receive p chain hr hheld =>
    have hoff : NetOk (w.offer p (w.newPbuf chain)) := h.offer p rfl
    obtain ⟨hl, hn, hq, href⟩ := deliver_effect hN hoff hr (w.newPbuf chain)
    refine ⟨hl.trans ?_, hn, hq, href⟩
    exact List.append_assoc _ _ _
  | redeliver p pb hheld hr =>
    obtain ⟨hl, hn, hq, href⟩ := deliver_effect hN h hr pb
    exact ⟨by simp [World.actions, hheld, hl], hn, by simp [World.queueAfter, hheld, hq],
      by simp [World.refusedAfter, hheld, href]⟩
  | giveUp =>
    exact ⟨(List.append_nil _).symm, rfl, rfl, rfl⟩
  | peerClose p hr =>
    have harg := h.slots p hr.1 (.inl hr.2)
    simp only [Net.receiveCb, harg, ne_eq, reduceCtorEq, not_false_eq_true, and_self, if_true]
    obtain ⟨hl, hn, hq, href⟩ := effect_errorCb (w.note (.entered .receiveCb .inst))
    refine ⟨hl.trans ?_, hn, hq, href⟩
    exact List.append_assoc _ _ _
  | poll p =>
    cases harg : (w.lwip.pcbs p).arg with
    | null =>
      refine ⟨?_, rfl, rfl, rfl⟩
      simp [World.actions, harg, Net.pollCb, World.note, Lwip.note]
    | inst =>
      refine ⟨?_, rfl, rfl, rfl⟩
      simp [World.actions, harg, Net.pollCb, Net.notify, World.note, Lwip.note]
  | sent p len =>
    exact ⟨rfl, rfl, rfl, rfl⟩
  | fatal p hlive hcb =>
    have harg := h.slots p hlive (.inr hcb)
    rw [harg]
    refine ⟨(log_errorCb _).trans ?_, rfl, rfl, rfl⟩
    simp [World.actions, errorCalls, World.note, Lwip.note, Lwip.onPcb]

theorem netStep_effect (hN : N ≤ 256) (h : NetOk w) {e : NetEvent}
    (he : netStep w e = some w') : w.Effect w' e := by
  cases e with
  | lwip e => exact lwipStep_effect hN h he
  | call c =>
    obtain rfl : callStep w c = w' := Option.some.inj he
    cases c with
    | connect addr port avail connErr closeErr =>
      exact effect_connect w addr port avail connErr closeErr
    | disconnect closeErr => exact ⟨log_disconnect w closeErr, rfl, rfl, rfl⟩
    | readPacket len => exact effect_readPacket hN h len
    | writePacket buf len isMore err => exact effect_writePacket w buf len isMore err

def World.notice (w : World N σ) : NetEvent → Option NetClientEvent
  | .call (.disconnect _) | .lwip (.peerClose _) | .lwip (.fatal _) => some .disconnected
  | .lwip (.connected p) => if (w.lwip.pcbs p).arg = .inst then some .connected else none
  | .lwip (.poll p) => if (w.lwip.pcbs p).arg = .inst then some .poll else none
  | _ => none

def World.notifiedApp (w : World N σ) : Option NetClientEvent → σ
  | none => w.app
  | some ev => w.inst.pfnCb ev w.app

theorem receiveCb_app (w : World N σ) (arg : Handle) (pcb : Option Pcb) (pb : Pbuf) :
    (Net.receiveCb w arg pcb (some pb)).2.app = w.app ∧
      (Net.receiveCb w arg pcb (some pb)).2.inst.pfnCb = w.inst.pfnCb := by
  simp only [Net.receiveCb, Net.enqueuePbuf]
  split_ifs <;> exact ⟨rfl, rfl⟩

theorem callStep_app (w : World N σ) (c : ApiCall) :
    (callStep w c).app = w.notifiedApp (w.notice (.call c)) ∧
      (callStep w c).inst.pfnCb = w.inst.pfnCb := by
  cases c with
  | connect addr port avail connErr closeErr =>
    cases avail with
    | false => exact ⟨rfl, rfl⟩
    | true =>
      by_cases he : connErr = .ok
      · subst connErr
        exact ⟨rfl, rfl⟩
      · simp only [callStep, connect_fail w addr port closeErr he]
        exact ⟨rfl, rfl⟩
  | disconnect closeErr => exact ⟨rfl, rfl⟩
  | readPacket len =>
    have hr : (Net.readPacket w .inst (some (freshMem len)) len).2.2.app = w.app ∧
        (Net.readPacket w .inst (some (freshMem len)) len).2.2.inst.pfnCb = w.inst.pfnCb := by
      simp only [Net.readPacket, Net.dequeuePbuf]
      by_cases hi : w.inst.idx ≠ w.inst.odx
      · simp only [hi, ne_eq, not_false_eq_true, if_true]
        split <;> rename_i heq <;> obtain ⟨_, rfl⟩ := Prod.mk.inj heq <;> exact ⟨rfl, rfl⟩
      · simp [hi]
    simp only [callStep]
    split <;> exact hr
  | writePacket buf len isMore err =>
    simp only [callStep, Net.writePacket]
    split_ifs <;> exact ⟨rfl, rfl⟩

theorem lwipStep_app (h : NetOk w) {e : LwipEvent} (he : lwipStep w e = some w') :
    w'.app = w.notifiedApp (w.notice (.lwip e)) ∧ w'.inst.pfnCb = w.inst.pfnCb := by
  cases fires_of_lwipStep he with
  | connected p =>
    cases harg : (w.lwip.pcbs p).arg with
    | null => simp [World.notice, World.notifiedApp, harg, Net.connectedCb, World.note]
    | inst =>
      simp [World.notice, World.notifiedApp, harg, Net.connectedCb, Net.notify, World.note]
  | receive p chain =>
    exact receiveCb_app _ _ _ _
  | redeliver p pb hheld hr =>
    exact receiveCb_app _ _ _ _
  | giveUp =>
    exact ⟨rfl, rfl⟩
  | peerClose p hr =>
    rw [h.slots p hr.1 (.inl hr.2)]
    exact ⟨rfl, rfl⟩
  | poll p =>
    cases harg : (w.lwip.pcbs p).arg with
    | null => simp [World.notice, World.notifiedApp, harg, Net.pollCb, World.note]
    | inst => simp [World.notice, World.notifiedApp, harg, Net.pollCb, Net.notify, World.note]
  | sent p len =>
    exact ⟨rfl, rfl⟩
  | fatal p hlive hcb =>
    rw [h.slots p hlive (.inr hcb)]
    exact ⟨rfl, rfl⟩

theorem netStep_app (h : NetOk w) {e : NetEvent} (he : netStep w e = some w') :
    w'.app = w.notifiedApp (w.notice e) ∧ w'.inst.pfnCb = w.inst.pfnCb := by
  cases e with
  | call c =>
    obtain rfl : callStep w c = w' := Option.some.inj he
    exact callStep_app w c
  | lwip e => exact lwipStep_app h he

def Action.reading : Action → Bool
  | .tcpRecved _ _ | .pbufFree _ | .netRead _ _ => true
  | _ => false

def Action.opening : Action → Bool
  | .tcpNew _ | .netConnect _ _ => true
  | _ => false

theorem actions_kind (w : World N σ) (e : NetEvent) {a : Action} (ha : a ∈ w.actions e) :
    (a.reading = true → ∃ len, e = .call (.readPacket len)) ∧
      (a.opening = true → ∃ addr port avail connErr closeErr,
        e = .call (.connect addr port avail connErr closeErr)) := by
  have hnone : (∀ b ∈ w.actions e, b.reading = false ∧ b.opening = false) →
      (a.reading = true → ∃ len, e = .call (.readPacket len)) ∧
        (a.opening = true → ∃ addr port avail connErr closeErr,
          e = .call (.connect addr port avail connErr closeErr)) := by
    intro hall
    simp [hall a ha]
  cases e with
  | call c =>
    cases c with
    | connect addr port avail connErr closeErr =>
      have hread : ∀ b ∈ connectCalls w addr port avail connErr closeErr, b.reading = false := by
        simp only [connectCalls]
        split_ifs <;> simp [openCalls, Action.reading]
      exact ⟨by simp [hread a ha], fun _ => ⟨_, _, _, _, _, rfl⟩⟩
    | disconnect closeErr =>
      exact hnone (by simp [World.actions, deregisterCalls, Action.reading, Action.opening])
    | readPacket len =>
      refine ⟨fun _ => ⟨len, rfl⟩, fun hopen => ?_⟩
      cases hq : w.inst.queued with
      | nil => simp [World.actions, hq] at ha
      | cons pb rest =>
        simp only [World.actions, hq, List.mem_cons, List.not_mem_nil, or_false] at ha
        rcases ha with rfl | rfl | rfl <;> simp [Action.opening] at hopen
    | writePacket buf len isMore err =>
      refine hnone ?_
      simp only [World.actions]
      split_ifs <;> simp [Action.reading, Action.opening]
  | lwip e =>
    refine hnone ?_
    cases e with
    | connected p =>
      cases h : (w.lwip.pcbs p).arg <;>
        simp [World.actions, h, registerCalls, Action.reading, Action.opening]
    | redeliver =>
      cases h : w.lwip.refused <;>
        simp [World.actions, h, deliverCalls, Action.reading, Action.opening]
    | poll p =>
      cases h : (w.lwip.pcbs p).arg <;> simp [World.actions, h, Action.reading, Action.opening]
    | _ =>
      simp [World.actions, deliverCalls, errorCalls, deregisterCalls, Action.reading,
        Action.opening]

section Read

variable (w : World N σ) {e : NetEvent} (he : ∀ len, e ≠ .call (.readPacket len))

include he

theorem reading_of_ne_read : ∀ a ∈ w.actions e, a.reading = false := by
  intro a ha
  have hkind := (actions_kind w e ha).1
  cases hr : a.reading with
  | false => rfl
  | true =>
    obtain ⟨len, hl⟩ := hkind hr
    exact absurd hl (he len)

theorem recved_actions_of_ne_read (p : Pcb) : recved p (w.actions e) = 0 := by
  refine List.sum_eq_zero_iff_forall_eq_nat.mpr fun n hn => ?_
  obtain ⟨a, ha, rfl⟩ := List.mem_map.mp hn
  have hr := reading_of_ne_read w he a ha
  cases a <;> simp_all [Action.reading]

theorem reads_actions_of_ne_read :
    reads (w.actions e) = [] ∧ freedPbufs (w.actions e) = [] := by
  constructor
  · refine List.filterMap_eq_nil_iff.mpr fun a ha => ?_
    have hr := reading_of_ne_read w he a ha
    cases a <;> simp_all [Action.reading]
  · refine List.filterMap_eq_nil_iff.mpr fun a ha => ?_
    have hr := reading_of_ne_read w he a ha
    cases a <;> simp_all [Action.reading]

end Read

section Connect

variable (w : World N σ) {e : NetEvent} (he : ∀ addr port avail connErr closeErr,
  e ≠ .call (.connect addr port avail connErr closeErr))

include he

theorem opening_of_ne_connect : ∀ a ∈ w.actions e, a.opening = false := by
  intro a ha
  have hkind := (actions_kind w e ha).2
  cases ho : a.opening with
  | false => rfl
  | true =>
    obtain ⟨addr, port, avail, connErr, closeErr, hl⟩ := hkind ho
    exact absurd hl (he addr port avail connErr closeErr)

theorem allocated_actions_of_ne_connect : allocated (w.actions e) = [] := by
  refine List.filterMap_eq_nil_iff.mpr fun a ha => ?_
  have ho := opening_of_ne_connect w he a ha
  cases a <;> simp_all [Action.opening]

theorem session_actions_of_ne_connect : session (w.actions e) = none := by
  refine List.getLast?_eq_none_iff.mpr (List.filterMap_eq_nil_iff.mpr fun a ha => ?_)
  have ho := opening_of_ne_connect w he a ha
  cases a <;> simp_all [Action.opening]

end Connect

/-- The pbuf, and the PCB it arrives on, that a delivery would queue. -/
def World.arriving (w : World N σ) : NetEvent → Option (Pcb × Pbuf)
  | .lwip (.receive p chain) => some (p, w.newPbuf chain)
  | .lwip .redeliver => w.lwip.refused
  | _ => none

theorem accepted_deliverCalls (w : World N σ) (p : Pcb) (pb : Pbuf) :
    accepted (deliverCalls w p pb) = if w.full then [] else [(p, pb)] := by
  by_cases h : w.full <;> simp [deliverCalls, accepted, h]

theorem accepted_actions (w : World N σ) (e : NetEvent) :
    accepted (w.actions e) = if w.full then [] else (w.arriving e).toList := by
  have hnone : ∀ as : List Action, accepted as = [] → w.arriving e = none →
      accepted as = if w.full then [] else (w.arriving e).toList := by
    intro as ha he
    simp [ha, he]
  cases e with
  | call c =>
    refine hnone _ ?_ rfl
    cases c with
    | connect addr port avail connErr closeErr =>
      simp only [World.actions, connectCalls]
      split_ifs <;> simp [openCalls, accepted]
    | disconnect closeErr => rfl
    | readPacket len => cases h : w.inst.queued <;> simp [World.actions, h, accepted]
    | writePacket buf len isMore err =>
      simp only [World.actions]
      split_ifs <;> simp [accepted]
  | lwip e =>
    cases e with
    | receive p chain =>
      change accepted ([Action.offered p (w.newPbuf chain)] ++
        deliverCalls w p (w.newPbuf chain)) = _
      rw [accepted_append, accepted_deliverCalls]
      rfl
    | redeliver =>
      cases h : w.lwip.refused with
      | none => simp [World.actions, World.arriving, h, accepted]
      | some x => simp [World.actions, World.arriving, h, accepted_deliverCalls]
    | connected p =>
      refine hnone _ ?_ rfl
      cases h : (w.lwip.pcbs p).arg <;> simp [World.actions, h, registerCalls, accepted]
    | poll p =>
      refine hnone _ ?_ rfl
      cases h : (w.lwip.pcbs p).arg <;> simp [World.actions, h, accepted]
    | _ => exact hnone _ rfl rfl

theorem offers_actions (w : World N σ) (e : NetEvent) :
    offers (w.actions e) =
      match e with
      | .lwip (.receive _ chain) => [w.newPbuf chain]
      | _ => [] := by
  cases e with
  | call c =>
    cases c with
    | connect addr port avail connErr closeErr =>
      simp only [World.actions, connectCalls]
      split_ifs <;> simp [openCalls, offers]
    | disconnect closeErr => rfl
    | readPacket len => cases h : w.inst.queued <;> simp [World.actions, h, offers]
    | writePacket buf len isMore err =>
      simp only [World.actions]
      split_ifs <;> simp [offers]
  | lwip e =>
    cases e with
    | connected p => cases h : (w.lwip.pcbs p).arg <;> simp [World.actions, h, registerCalls, offers]
    | redeliver => cases h : w.lwip.refused <;> simp [World.actions, h, deliverCalls, offers]
    | poll p => cases h : (w.lwip.pcbs p).arg <;> simp [World.actions, h, offers]
    | _ => rfl

theorem queueAfter_of_ne_read (w : World N σ) {e : NetEvent}
    (he : ∀ len, e ≠ .call (.readPacket len)) :
    w.queueAfter e = w.inst.queued ++ (accepted (w.actions e)).map Prod.snd := by
  rw [accepted_actions]
  cases e with
  | call c =>
    cases c with
    | readPacket len => exact absurd rfl (he len)
    | _ => simp [World.queueAfter, World.arriving]
  | lwip e =>
    cases e with
    | receive p chain => by_cases h : w.full <;> simp [World.queueAfter, World.arriving, h]
    | redeliver =>
      cases hr : w.lwip.refused with
      | none => simp [World.queueAfter, World.arriving, hr]
      | some x => by_cases h : w.full <;> simp [World.queueAfter, World.arriving, hr, h]
    | _ => simp [World.queueAfter, World.arriving]

theorem arriving_live {e : NetEvent} (he : netStep w e = some w') {p : Pcb} {pb : Pbuf}
    (ha : w.arriving e = some (p, pb)) : w.receives p := by
  cases e with
  | call c => simp [World.arriving] at ha
  | lwip e =>
    cases fires_of_lwipStep he with
    | receive q chain hr =>
      simp only [World.arriving, Option.some.injEq, Prod.mk.injEq] at ha
      exact ha.1 ▸ hr
    | redeliver q pb' hheld hr =>
      simp only [World.arriving, hheld, Option.some.injEq, Prod.mk.injEq] at ha
      exact ha.1 ▸ hr
    | _ => simp [World.arriving] at ha

def ConnectsWhenDown (w : World N σ) (e : NetEvent) : Prop :=
  ∀ addr port avail connErr closeErr,
    e = .call (.connect addr port avail connErr closeErr) → w.inst.hNet = none

end McuTest
