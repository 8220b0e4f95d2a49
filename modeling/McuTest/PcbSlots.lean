import McuTest.NetTrace

/-! What one step of net_client does to the slots of each PCB and to
`isConnected`. -/

namespace McuTest

variable {N : Nat} [NeZero N] {σ : Type} {w w' : World N σ}

/-- `w.inst.hNet` is this PCB and still allocated, so that the calls on it act. -/
def World.owns (w : World N σ) (q : Pcb) : Prop :=
  w.inst.hNet = some q ∧ (w.lwip.pcbs q).live = true

instance (w : World N σ) (q : Pcb) : Decidable (w.owns q) :=
  inferInstanceAs (Decidable (_ ∧ _))

def TcpPcb.release (s : TcpPcb) (err : ErrT) : TcpPcb :=
  { s with live := s.live && err ≠ .ok }

def World.pcbAfter (w : World N σ) (q : Pcb) : NetEvent → TcpPcb
  | .call (.connect _ _ avail connErr closeErr) =>
    if avail = true ∧ q = w.lwip.nextPcb then
      if connErr = .ok then .opening else TcpPcb.opening.release closeErr
    else w.lwip.pcbs q
  | .call (.disconnect closeErr) =>
    if w.owns q then (w.lwip.pcbs q).forget.release closeErr else w.lwip.pcbs q
  | .lwip (.connected p) =>
    let s := if p = q then { w.lwip.pcbs q with established := true } else w.lwip.pcbs q
    if (w.lwip.pcbs p).arg = .inst ∧ w.owns q then s.watch else s
  | .lwip (.peerClose _) =>
    if w.owns q then { (w.lwip.pcbs q).forget with live := false } else w.lwip.pcbs q
  | .lwip (.fatal p) =>
    if p = q then { w.lwip.pcbs q with live := false }
    else if w.owns q then { (w.lwip.pcbs q).forget with live := false } else w.lwip.pcbs q
  | .call _ => w.lwip.pcbs q
  | .lwip _ => w.lwip.pcbs q

def World.isConnectedAfter (w : World N σ) : NetEvent → Bool
  | .call (.connect _ _ avail connErr _) =>
    w.inst.isConnected && !(avail && decide (connErr ≠ .ok))
  | .call (.disconnect _) => false
  | .lwip (.connected p) => w.inst.isConnected || decide ((w.lwip.pcbs p).arg = .inst)
  | .lwip (.peerClose _) => false
  | .lwip (.fatal _) => false
  | .call _ => w.inst.isConnected
  | .lwip _ => w.inst.isConnected

theorem pcbs_connect (w : World N σ) (addr : IpAddr) (port : UInt16) (avail : Bool)
    (connErr closeErr : ErrT) (q : Pcb) :
    (callStep w (.connect addr port avail connErr closeErr)).lwip.pcbs q =
      w.pcbAfter q (.call (.connect addr port avail connErr closeErr)) := by
  cases avail with
  | false => simp [callStep, connect_none, World.note, Lwip.note, World.pcbAfter]
  | true =>
    by_cases he : connErr = .ok
    · subst connErr
      simp [callStep, connect_ok, World.note, Lwip.note, Lwip.opened, World.pcbAfter]
    · by_cases hq : q = w.lwip.nextPcb
      · simp [callStep, connect_fail w addr port closeErr he, World.note, Lwip.note, Lwip.opened,
          Lwip.tcpClose, Lwip.onPcb, World.pcbAfter, TcpPcb.release, TcpPcb.opening, he, hq]
      · simp [callStep, connect_fail w addr port closeErr he, World.note, Lwip.note, Lwip.opened,
          Lwip.tcpClose, Lwip.onPcb, World.pcbAfter, hq, Ne.symm hq]

theorem pcbs_deliver (h : NetOk w) {p : Pcb} (hr : w.receives p) (pb : Pbuf) :
    (deliver w p pb).lwip.pcbs = w.lwip.pcbs ∧
      (deliver w p pb).inst.isConnected = w.inst.isConnected := by
  by_cases hfull : w.full
  · rw [deliver_full h hr pb hfull]
    exact ⟨rfl, rfl⟩
  · rw [deliver_room h hr pb hfull]
    exact ⟨rfl, rfl⟩

omit [NeZero N] in
theorem pcbs_errorCb (w : World N σ) (q : Pcb) :
    (Net.errorCb w .inst).lwip.pcbs q =
      if w.owns q then { (w.lwip.pcbs q).forget with live := false } else w.lwip.pcbs q :=
  pcbs_abort w.lwip w.inst.hNet q

omit [NeZero N] in
theorem pcbs_errorCb_of_same {q : Pcb} (hn : w'.inst.hNet = w.inst.hNet)
    (hq : w'.lwip.pcbs q = w.lwip.pcbs q) :
    (Net.errorCb w' .inst).lwip.pcbs q =
      if w.owns q then { (w.lwip.pcbs q).forget with live := false } else w.lwip.pcbs q := by
  have hown : w'.owns q ↔ w.owns q := by simp only [World.owns, hn, hq]
  simp only [pcbs_errorCb, hown, hq]

theorem callStep_pcbs (hN : N ≤ 256) (h : NetOk w) (c : ApiCall) (q : Pcb) :
    (callStep w c).lwip.pcbs q = w.pcbAfter q (.call c) ∧
      (callStep w c).inst.isConnected = w.isConnectedAfter (.call c) := by
  cases c with
  | connect addr port avail connErr closeErr =>
    refine ⟨pcbs_connect w addr port avail connErr closeErr q, ?_⟩
    cases avail with
    | false => simp [callStep, connect_none, World.note, World.isConnectedAfter]
    | true =>
      by_cases he : connErr = .ok
      · simp [callStep, he, connect_ok, World.note, World.isConnectedAfter]
      · simp [callStep, connect_fail w addr port closeErr he, World.note, World.isConnectedAfter, he]
  | disconnect closeErr =>
    refine ⟨?_, rfl⟩
    have hp : (callStep w (.disconnect closeErr)).lwip.pcbs q = _ :=
      pcbs_close w.lwip w.inst.hNet closeErr q
    rw [hp]
    by_cases ho : w.owns q
    · simp [World.pcbAfter, ho, ho.1, ho.2, TcpPcb.release, TcpPcb.forget]
    · have hn : ¬(w.inst.hNet = some q ∧ (w.lwip.pcbs q).live = true) := ho
      simp only [World.pcbAfter, if_neg hn, if_neg ho]
  | readPacket len =>
    cases hq : w.inst.queued with
    | nil =>
      rw [callStep_read_nil h.ring hq]
      exact ⟨rfl, rfl⟩
    | cons pb rest =>
      rw [callStep_read_cons hN h.ring hq]
      exact ⟨rfl, rfl⟩
  | writePacket buf len isMore err =>
    simp only [callStep, Net.writePacket]
    split_ifs <;> exact ⟨rfl, rfl⟩

theorem lwipStep_pcbs (h : NetOk w) {e : LwipEvent} (he : lwipStep w e = some w') (q : Pcb) :
    w'.lwip.pcbs q = w.pcbAfter q (.lwip e) ∧
      w'.inst.isConnected = w.isConnectedAfter (.lwip e) := by
  cases fires_of_lwipStep he with
  | connected p hlive =>
    have hs : ((w.lwip.onPcb (some p) fun s => { s with established := true }).pcbs q) =
        if p = q then { w.lwip.pcbs q with established := true } else w.lwip.pcbs q := by
      by_cases hp : p = q
      · subst q
        simp [Lwip.onPcb, hlive]
      · simp [Lwip.onPcb, hp]
    cases harg : (w.lwip.pcbs p).arg with
    | null => simp [Net.connectedCb, World.note, Lwip.note, World.pcbAfter,
        World.isConnectedAfter, harg, hs]
    | inst =>
      refine ⟨?_, by simp [Net.connectedCb, Net.notify, World.isConnectedAfter, harg]⟩
      rw [pcbs_connectedCb]
      simp only [World.note, Lwip.note, hs, World.pcbAfter, harg, true_and, World.owns]
      by_cases hp : p = q
      · subst q
        simp [hlive]
      · simp only [if_neg hp]
  | receive p chain hr =>
    have hoff : NetOk (w.offer p (w.newPbuf chain)) := h.offer p rfl
    obtain ⟨hp, hc⟩ := pcbs_deliver hoff hr (w.newPbuf chain)
    exact ⟨congrFun hp q, hc⟩
  | redeliver p pb _ hr =>
    obtain ⟨hp, hc⟩ := pcbs_deliver h hr pb
    exact ⟨congrFun hp q, hc⟩
  | giveUp => exact ⟨rfl, rfl⟩
  | peerClose p hr =>
    have harg := h.slots p hr.1 (.inl hr.2)
    simp only [Net.receiveCb, harg, ne_eq, reduceCtorEq, not_false_eq_true, and_self, if_true]
    exact ⟨pcbs_errorCb_of_same rfl rfl, rfl⟩
  | poll p =>
    cases (w.lwip.pcbs p).arg <;> exact ⟨rfl, rfl⟩
  | sent p len => exact ⟨rfl, rfl⟩
  | fatal p hlive hcb =>
    rw [h.slots p hlive (.inr hcb)]
    refine ⟨?_, rfl⟩
    by_cases hp : p = q
    · subst q
      refine (pcbs_errorCb _ p).trans ((if_neg fun ho => ?_).trans ?_)
      · simpa [World.note, Lwip.note, Lwip.onPcb, hlive] using ho.2
      · simp [World.note, Lwip.note, Lwip.onPcb, hlive, World.pcbAfter]
    · have hsame : ((w.lwip.note (.pcbFreed p)).onPcb (some p) fun s =>
          { s with live := false }).pcbs q = w.lwip.pcbs q := by
        simp [Lwip.note, Lwip.onPcb, hp]
      refine Eq.trans (pcbs_errorCb_of_same (w := w) ?_ ?_) ?_
      · rfl
      · exact hsame
      · simp only [World.pcbAfter, if_neg hp]

theorem netStep_pcbs (hN : N ≤ 256) (h : NetOk w) {e : NetEvent} (he : netStep w e = some w')
    (q : Pcb) : w'.lwip.pcbs q = w.pcbAfter q e ∧ w'.inst.isConnected = w.isConnectedAfter e := by
  cases e with
  | call c =>
    obtain rfl : callStep w c = w' := Option.some.inj he
    exact callStep_pcbs hN h c q
  | lwip e => exact lwipStep_pcbs h he q

end McuTest
