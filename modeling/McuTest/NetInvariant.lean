import McuTest.NetSystem

/-! What holds of the instance and of lwIP's table in every reachable state. -/

namespace McuTest

variable {N : Nat} [NeZero N] {σ : Type}

/-- A PCB that could report data or an error still knows the instance. -/
def Lwip.SlotsOk (l : Lwip) : Prop :=
  ∀ q, (l.pcbs q).live = true →
    (l.pcbs q).recv = some .receiveCb ∨ (l.pcbs q).err = some .errorCb → (l.pcbs q).arg = .inst

structure NetBase (w : World N σ) : Prop where
  ring : w.inst.RingOk
  table : w.lwip.TableOk
  slots : w.lwip.SlotsOk
  addrs : ∀ pb ∈ offers w.lwip.log, pb.addr < w.lwip.nextPbuf
  alloc : ∀ p, w.inst.hNet = some p → p ∈ allocated w.lwip.log

structure NetOk (w : World N σ) : Prop extends NetBase w where
  current : ∀ p, w.inst.hNet = some p →
    (w.lwip.pcbs p).live = true ∧ (w.lwip.pcbs p).arg = .inst

theorem netOk_init (pfnEventCb : NetClientEvent → σ → σ) (app : σ) :
    NetOk (World.init pfnEventCb app : World N σ) where
  ring := Instance.ringOk_init pfnEventCb
  table := Lwip.tableOk_empty
  slots := fun q hq => by simp [World.init] at hq
  addrs := fun pb hpb => by simp [World.init, offers] at hpb
  alloc := fun p hp => by simp [World.init, Net.init] at hp
  current := fun p hp => by simp [World.init, Net.init] at hp

variable {w : World N σ}

theorem NetBase.note (h : NetBase w) {a : Action} (hr : released [a] = [])
    (ha : allocated [a] = []) (ho : offers [a] = []) : NetBase (w.note a) where
  ring := h.ring
  table := h.table.note hr ha
  slots := h.slots
  addrs := fun pb hpb => h.addrs pb (by
    simpa only [World.note, Lwip.note, offers_append, ho, List.append_nil] using hpb)
  alloc := fun p hp => by
    simpa only [World.note, Lwip.note, allocated_append, ha, List.append_nil] using h.alloc p hp

theorem NetOk.note (h : NetOk w) {a : Action} (hr : released [a] = [])
    (ha : allocated [a] = []) (ho : offers [a] = []) : NetOk (w.note a) :=
  { h.toNetBase.note hr ha ho with current := h.current }

theorem NetBase.of_log (h : NetBase w) (w' : World N σ) {as : List Action}
    (hi : w'.inst.idx = w.inst.idx) (ho : w'.inst.odx = w.inst.odx)
    (hq : w'.inst.queue = w.inst.queue) (ht : w'.lwip.TableOk) (hs : w'.lwip.SlotsOk)
    (hl : w'.lwip.log = w.lwip.log ++ as) (has : offers as = [])
    (hn : w'.lwip.nextPbuf = w.lwip.nextPbuf)
    (hp : ∀ p, w'.inst.hNet = some p → p ∈ allocated w'.lwip.log) : NetBase w' where
  ring := h.ring.congr hi ho hq
  table := ht
  slots := hs
  addrs := fun pb hpb => by
    rw [hl, offers_append, has, List.append_nil] at hpb
    exact hn ▸ h.addrs pb hpb
  alloc := hp

theorem Lwip.SlotsOk.forget {l l' : Lwip} (h : l.SlotsOk)
    (hq : ∀ q, l'.pcbs q = l.pcbs q ∨ (l'.pcbs q).recv = none ∧ (l'.pcbs q).err = none) :
    l'.SlotsOk := by
  intro q hl hcb
  rcases hq q with he | ⟨hr, he⟩
  · rw [he] at hl hcb ⊢
    exact h q hl hcb
  · simp [hr, he] at hcb

theorem allocated_deregister {l : Lwip} {hNet : Option Pcb} {p : Pcb}
    (h : p ∈ allocated l.log) : p ∈ allocated (Net.deregister l hNet).log := by
  rw [deregister_eq, allocated_append]
  exact List.mem_append_left _ h

theorem NetBase.errorCb (h : NetBase w) : NetOk (Net.errorCb w .inst) := by
  have ht : (Net.errorCb w .inst).lwip.TableOk := by
    have hd := (h.table.deregister w.inst.hNet).tcpAbort fun p hp =>
      allocated_deregister (h.alloc p hp)
    exact hd.note rfl rfl
  have hs : (Net.errorCb w .inst).lwip.SlotsOk := by
    refine h.slots.forget fun q => ?_
    have hp := pcbs_abort w.lwip w.inst.hNet q
    split_ifs at hp
    · exact .inr ⟨congrArg TcpPcb.recv hp, congrArg TcpPcb.err hp⟩
    · exact .inl hp
  have hnone : ∀ p, (Net.errorCb w .inst).inst.hNet = some p → False := fun p hp => by
    simp [Net.errorCb, Net.notify] at hp
  have hb := h.of_log (Net.errorCb w .inst) rfl rfl rfl ht hs (log_errorCb w) rfl rfl
    fun p hp => (hnone p hp).elim
  exact { hb with current := fun p hp => (hnone p hp).elim }

theorem NetOk.disconnect (h : NetOk w) (closeErr : ErrT) :
    NetOk (Net.disconnect w .inst closeErr) := by
  have ht : (Net.disconnect w .inst closeErr).lwip.TableOk := by
    have hd := (h.table.deregister w.inst.hNet).tcpClose (fun p hp =>
      allocated_deregister (h.alloc p hp)) closeErr
    exact hd.note rfl rfl
  have hs : (Net.disconnect w .inst closeErr).lwip.SlotsOk := by
    refine h.slots.forget fun q => ?_
    have hp := pcbs_close w.lwip w.inst.hNet closeErr q
    split_ifs at hp
    · exact .inr ⟨congrArg TcpPcb.recv hp, congrArg TcpPcb.err hp⟩
    · exact .inl hp
  have hnone : ∀ p, (Net.disconnect w .inst closeErr).inst.hNet = some p → False := fun p hp => by
    simp [Net.disconnect, Net.notify] at hp
  have hb := h.of_log (Net.disconnect w .inst closeErr) rfl rfl rfl ht hs
    (log_disconnect w closeErr) rfl rfl fun p hp => (hnone p hp).elim
  exact { hb with current := fun p hp => (hnone p hp).elim }

theorem NetOk.connectedCb (h : NetOk w) (arg : Handle) : NetOk (Net.connectedCb w arg) := by
  cases arg with
  | null => exact h
  | inst =>
    have ht : (Net.connectedCb w .inst).lwip.TableOk := by
      have hf : (w.lwip.onPcb w.inst.hNet TcpPcb.watch).TableOk := h.table.onPcb _ fun _ => rfl
      have hr : { w.lwip.onPcb w.inst.hNet TcpPcb.watch with
          log := w.lwip.log ++ registerCalls w.inst.hNet }.TableOk := hf.append rfl rfl
      rw [← register_eq] at hr
      exact hr.note rfl rfl
    have hs : (Net.connectedCb w .inst).lwip.SlotsOk := by
      intro q hl hcb
      rw [pcbs_connectedCb w q] at hl hcb ⊢
      split_ifs at hl hcb ⊢ with hq
      · exact (h.current q hq.1).2
      · exact h.slots q hl hcb
    have hb := h.of_log (Net.connectedCb w .inst) rfl rfl rfl ht hs (log_connectedCb w) rfl rfl
      fun p hp => by
      rw [log_connectedCb, allocated_append]
      exact List.mem_append_left _ (h.alloc p hp)
    refine { hb with current := fun p hp => ?_ }
    rw [pcbs_connectedCb w p]
    split_ifs
    · exact h.current p hp
    · exact h.current p hp

theorem Lwip.SlotsOk.onPcb {l : Lwip} (h : l.SlotsOk) (pcb : Option Pcb) {f : TcpPcb → TcpPcb}
    (hf : ∀ s, (f s).recv = s.recv ∧ (f s).err = s.err ∧ (f s).arg = s.arg) :
    (l.onPcb pcb f).SlotsOk := by
  intro q hl hcb
  simp only [Lwip.onPcb] at hl hcb ⊢
  by_cases hq : pcb = some q ∧ (l.pcbs q).live = true
  · rw [if_pos hq] at hcb ⊢
    obtain ⟨hr, he, ha⟩ := hf (l.pcbs q)
    rw [hr, he] at hcb
    exact ha.trans (h q hq.2 hcb)
  · rw [if_neg hq] at hl hcb ⊢
    exact h q hl hcb

theorem log_connect_fail (l : Lwip) (addr : IpAddr) (port : UInt16) (connErr closeErr : ErrT) :
    ((l.opened addr port connErr).tcpClose (some l.nextPcb) closeErr).log =
      l.log ++ (openCalls l.nextPcb addr port connErr ++
        [.tcpClose (some l.nextPcb) closeErr]) :=
  List.append_assoc _ _ _

theorem NetOk.opened (h : NetOk w) (addr : IpAddr) (port : UInt16) (err : ErrT) :
    (w.lwip.opened addr port err).SlotsOk := by
  intro q hl hcb
  change (if q = w.lwip.nextPcb then TcpPcb.opening else w.lwip.pcbs q).arg = .inst
  by_cases hq : q = w.lwip.nextPcb
  · rw [if_pos hq]
    rfl
  · simp only [Lwip.opened, if_neg hq] at hl hcb ⊢
    exact h.slots q hl hcb

theorem NetOk.connect (h : NetOk w) (addr : IpAddr) (port : UInt16) (avail : Bool)
    (connErr closeErr : ErrT) :
    NetOk (Net.connect w .inst addr port avail connErr closeErr).2 := by
  cases avail with
  | false => exact h.note rfl rfl rfl
  | true =>
    have hnew : w.lwip.nextPcb ∈ allocated (w.lwip.opened addr port connErr).log := by
      simp [Lwip.opened, allocated, openCalls]
    by_cases he : connErr = .ok
    · subst connErr
      rw [connect_ok]
      have hb := h.of_log { w with
          lwip := w.lwip.opened addr port .ok
          inst := { w.inst with hNet := some w.lwip.nextPcb } }
        rfl rfl rfl (h.table.opened addr port .ok) (h.opened addr port .ok) rfl rfl rfl
        fun p hp => by
          obtain rfl : w.lwip.nextPcb = p := Option.some.inj hp
          exact hnew
      refine { hb with current := fun p hp => ?_ }
      obtain rfl : w.lwip.nextPcb = p := Option.some.inj hp
      simp [Lwip.opened, TcpPcb.opening]
    · rw [connect_fail w addr port closeErr he]
      have hheld : ∀ p, some w.lwip.nextPcb = some p →
          p ∈ allocated (w.lwip.opened addr port connErr).log :=
        fun p hp => Option.some.inj hp ▸ hnew
      have ht := (h.table.opened addr port connErr).tcpClose hheld closeErr
      have hs : ((w.lwip.opened addr port connErr).tcpClose (some w.lwip.nextPcb)
          closeErr).SlotsOk :=
        (h.opened addr port connErr).onPcb (some w.lwip.nextPcb)
          (f := fun s => { s with live := s.live && closeErr ≠ .ok }) fun _ => ⟨rfl, rfl, rfl⟩
      have hb := h.of_log { w with
          lwip := (w.lwip.opened addr port connErr).tcpClose (some w.lwip.nextPcb) closeErr
          inst := { w.inst with isConnected := false, hNet := none } }
        rfl rfl rfl ht hs (log_connect_fail _ addr port connErr closeErr) rfl rfl
        fun p hp => by simp at hp
      exact { hb with current := fun p hp => by simp at hp }

theorem NetOk.receiveCb (hN : N ≤ 256) (h : NetOk w) (arg : Handle) (pcb : Option Pcb)
    (pb : Option Pbuf) : NetOk (Net.receiveCb w arg pcb pb).2 := by
  unfold Net.receiveCb
  by_cases hc : arg = .inst ∧ pcb ≠ none
  · rw [if_pos hc]
    cases pb with
    | none => exact h.toNetBase.errorCb
    | some pb =>
      by_cases hroom : w.inst.queued.length + 1 = N
      · simp only [Instance.enqueuePbuf_full h.ring hroom]
        exact h
      · simp only [Instance.enqueuePbuf_room h.ring hroom, if_true]
        exact { h with ring := Instance.ringOk_pushed hN h.ring hroom pb }
  · rw [if_neg hc]
    exact h

theorem NetOk.pollCb (h : NetOk w) (arg : Handle) : NetOk (Net.pollCb w arg) := by
  cases arg with
  | null => exact h
  | inst =>
    have hp := h.note (a := .notified .poll) rfl rfl rfl
    exact { hp with }

theorem NetOk.taken (hN : N ≤ 256) (h : NetOk w) {pb : Pbuf} {rest : List Pbuf}
    (hq : w.inst.queued = pb :: rest) : NetOk (w.taken pb) := by
  have hne : w.inst.queued ≠ [] := by simp [hq]
  have h1 := h.note (a := .tcpRecved w.inst.hNet pb.len) rfl rfl rfl
  have h2 := h1.note (a := .pbufFree pb) rfl rfl rfl
  have hl : (w.taken pb).lwip =
      (w.lwip.note (.tcpRecved w.inst.hNet pb.len)).note (.pbufFree pb) := by
    simp [World.taken, Lwip.note]
  refine ⟨⟨Instance.ringOk_popped hN h.ring hne, hl ▸ h2.table, hl ▸ h2.slots, ?_, ?_⟩, h.current⟩
  · rw [hl]
    exact h2.addrs
  · rw [hl]
    exact h2.alloc

theorem NetOk.readPacket (hN : N ≤ 256) (h : NetOk w) (pBuf : Option Mem) (len : UInt16) :
    NetOk (Net.readPacket w .inst pBuf len).2.2 := by
  cases pBuf with
  | none => exact h
  | some buf =>
    cases hq : w.inst.queued with
    | nil => exact (readPacket_nil h.ring hq buf len) ▸ h
    | cons pb rest =>
      rw [readPacket_cons hN h.ring hq]
      exact h.taken hN hq

theorem NetOk.writePacket (h : NetOk w) (pBuf : Option (List Byte)) (len : UInt32)
    (isMore : Bool) (err : ErrT) : NetOk (Net.writePacket w .inst pBuf len isMore err).2 := by
  cases pBuf with
  | none => exact h
  | some buf =>
    have hw : NetOk (w.note (.tcpWrite w.inst.hNet (buf.take len.toUInt16.toNat) err)) :=
      h.note rfl rfl rfl
    by_cases he : err = .ok
    · subst err
      cases isMore with
      | true => exact hw
      | false => exact hw.note (a := .tcpCall .output w.inst.hNet) rfl rfl rfl
    · simp only [Net.writePacket, he, ne_eq, not_false_eq_true, if_true]
      exact hw

theorem NetOk.callStep (hN : N ≤ 256) (h : NetOk w) (c : ApiCall) : NetOk (callStep w c) := by
  cases c with
  | connect addr port avail connErr closeErr =>
    exact (h.connect addr port avail connErr closeErr).note rfl rfl rfl
  | disconnect closeErr => exact h.disconnect closeErr
  | readPacket len =>
    have hr := h.readPacket hN (some (freshMem len)) len
    simp only [McuTest.callStep]
    split
    · exact hr.note rfl rfl rfl
    · exact hr
  | writePacket buf len isMore err => exact h.writePacket _ len isMore err

theorem NetOk.deliver (hN : N ≤ 256) (h : NetOk w) (p : Pcb) (pb : Pbuf) :
    NetOk (deliver w p pb) := by
  have hr := ((h.note (a := .entered .receiveCb (w.lwip.pcbs p).arg) rfl rfl rfl).receiveCb hN
    (w.lwip.pcbs p).arg (some p) (some pb)).note
    (a := .received p pb (Net.receiveCb (w.note (.entered .receiveCb (w.lwip.pcbs p).arg))
      (w.lwip.pcbs p).arg (some p) (some pb)).1) rfl rfl rfl
  exact { hr with table := ⟨hr.table.live_iff, hr.table.fresh, hr.table.sub⟩ }

theorem NetOk.offer (h : NetOk w) (p : Pcb) {pb : Pbuf} (hpb : pb.addr = w.lwip.nextPbuf) :
    NetOk (w.offer p pb) := by
  have ht : (w.lwip.note (.offered p pb)).TableOk := h.table.note rfl rfl
  refine ⟨⟨h.ring, ⟨ht.live_iff, ht.fresh, ht.sub⟩, h.slots, ?_, ?_⟩, h.current⟩
  · intro x hx
    have hm : x ∈ offers (w.lwip.log ++ [.offered p pb]) := hx
    rw [offers_append, List.mem_append] at hm
    change x.addr < w.lwip.nextPbuf + 1
    rcases hm with hm | hm
    · exact Nat.lt_succ_of_lt (h.addrs x hm)
    · obtain rfl : x = pb := by simpa [offers] using hm
      omega
  · intro q hq
    change q ∈ allocated (w.lwip.log ++ [.offered p pb])
    rw [allocated_append]
    exact List.mem_append_left _ (h.alloc q hq)

theorem NetOk.fatal (h : NetOk w) {p : Pcb} (hlive : (w.lwip.pcbs p).live = true) :
    NetBase ({ w with
      lwip := (w.lwip.note (.pcbFreed p)).onPcb (some p) fun s => { s with live := false } }.note
        (.entered .errorCb (w.lwip.pcbs p).arg)) := by
  have hp : p ∈ allocated w.lwip.log := ((h.table.live_iff p).mp hlive).1
  have ht : ((w.lwip.note (.pcbFreed p)).onPcb (some p) fun s =>
      { s with live := false }).TableOk :=
    h.table.release rfl rfl (fun q hq => Option.some.inj hq ▸ hp) fun _ => rfl
  have hs : ((w.lwip.note (.pcbFreed p)).onPcb (some p) fun s =>
      { s with live := false }).SlotsOk :=
    Lwip.SlotsOk.onPcb (l := w.lwip.note (.pcbFreed p)) h.slots (some p)
      (f := fun s => { s with live := false }) fun _ => ⟨rfl, rfl, rfl⟩
  have hb := h.of_log { w with
      lwip := (w.lwip.note (.pcbFreed p)).onPcb (some p) fun s => { s with live := false } }
    rfl rfl rfl ht hs rfl rfl rfl fun q hq => by
      change q ∈ allocated (w.lwip.log ++ [.pcbFreed p])
      rw [allocated_append]
      exact List.mem_append_left _ (h.alloc q hq)
  exact hb.note rfl rfl rfl

theorem NetOk.lwipStep (hN : N ≤ 256) (h : NetOk w) {e : LwipEvent} {w' : World N σ}
    (he : lwipStep w e = some w') : NetOk w' := by
  cases fires_of_lwipStep he with
  | connected p =>
    have ht : (w.lwip.onPcb (some p) fun s => { s with established := true }).TableOk :=
      h.table.onPcb _ fun _ => rfl
    have hs : (w.lwip.onPcb (some p) fun s => { s with established := true }).SlotsOk :=
      h.slots.onPcb (some p) (f := fun s => { s with established := true })
        fun _ => ⟨rfl, rfl, rfl⟩
    have hw : NetOk { w with
        lwip := w.lwip.onPcb (some p) fun s => { s with established := true } } := by
      refine ⟨⟨h.ring, ht, hs, h.addrs, h.alloc⟩, fun q hq => ?_⟩
      obtain ⟨hl, ha⟩ := h.current q hq
      simp only [Lwip.onPcb]
      split_ifs <;> exact ⟨hl, ha⟩
    exact (hw.note rfl rfl rfl).connectedCb _
  | receive p chain =>
    exact (h.offer p rfl).deliver hN p _
  | redeliver p pb =>
    exact h.deliver hN p pb
  | giveUp =>
    exact { h with table := ⟨h.table.live_iff, h.table.fresh, h.table.sub⟩ }
  | peerClose p =>
    exact (h.note rfl rfl rfl).receiveCb hN _ _ _
  | poll p =>
    exact (h.note rfl rfl rfl).pollCb _
  | sent p len =>
    exact h.note rfl rfl rfl
  | fatal p hl hcb =>
    have harg := h.slots p hl (.inr hcb)
    have hb := h.fatal hl
    rw [harg] at hb ⊢
    exact hb.errorCb

theorem NetOk.step (hN : N ≤ 256) (h : NetOk w) {e : NetEvent} {w' : World N σ}
    (he : netStep w e = some w') : NetOk w' := by
  cases e with
  | call c => exact Option.some.inj he ▸ h.callStep hN c
  | lwip e => exact h.lwipStep hN he

end McuTest
