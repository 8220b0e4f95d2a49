import McuTest.PcbSlots

/-! Which PCBs can deliver data. -/

namespace McuTest

variable {N : Nat} [NeZero N] {σ : Type} {w w' : World N σ}

def ReceivesCurrent (w : World N σ) : Prop :=
  ∀ q, w.receives q → w.inst.hNet = some q

omit [NeZero N] in
theorem receives_of_dropped {q : Pcb} {s : TcpPcb} (hs : s.recv = none)
    (hp : w'.lwip.pcbs q = if w.owns q then s else w.lwip.pcbs q) (hq : w'.receives q) :
    w.receives q ∧ w.inst.hNet ≠ some q := by
  by_cases ho : w.owns q
  · rw [if_pos ho] at hp
    have hrecv := hq.2
    simp [hp, hs] at hrecv
  · rw [if_neg ho] at hp
    have hold : w.receives q := by simpa only [World.receives, hp] using hq
    exact ⟨hold, fun hn => ho ⟨hn, hold.1⟩⟩

omit [NeZero N] in
theorem ReceivesCurrent.connect (h : ReceivesCurrent w) {addr : IpAddr} {port : UInt16}
    {avail : Bool} {connErr closeErr : ErrT} (hdown : w.inst.hNet = none) {q : Pcb}
    (hp : w'.lwip.pcbs q = w.pcbAfter q (.call (.connect addr port avail connErr closeErr))) :
    ¬w'.receives q := by
  intro hq
  simp only [World.pcbAfter] at hp
  split_ifs at hp
  · have hrecv := hq.2
    simp [hp, TcpPcb.opening] at hrecv
  · have hrecv := hq.2
    simp [hp, TcpPcb.opening, TcpPcb.release] at hrecv
  · have hold := h q (by simpa only [World.receives, hp] using hq)
    simp [hdown] at hold

theorem ReceivesCurrent.step (hN : N ≤ 256) (h : ReceivesCurrent w) (hok : NetOk w) {e : NetEvent}
    (hdown : ConnectsWhenDown w e) (he : netStep w e = some w') : ReceivesCurrent w' := by
  intro q hq
  have hp := (netStep_pcbs hN hok he q).1
  have hnet := (netStep_effect hN hok he).hNet
  have hdropped : ∀ s : TcpPcb, s.recv = none →
      w'.lwip.pcbs q = (if w.owns q then s else w.lwip.pcbs q) → w'.inst.hNet = some q := by
    intro s hs hp
    obtain ⟨hold, hne⟩ := receives_of_dropped hs hp hq
    exact absurd (h q hold) hne
  have hsame : w'.lwip.pcbs q = w.lwip.pcbs q → w'.inst.hNet = w.inst.hNet →
      w'.inst.hNet = some q := by
    intro hp hn
    rw [hn]
    exact h q (by simpa only [World.receives, hp] using hq)
  cases e with
  | call c =>
    cases c with
    | connect addr port avail connErr closeErr =>
      exact absurd hq (h.connect (hdown _ _ _ _ _ rfl) hp)
    | disconnect closeErr => exact hdropped _ rfl hp
    | readPacket len => exact hsame hp hnet
    | writePacket buf len isMore err => exact hsame hp hnet
  | lwip e =>
    cases e with
    | connected p =>
      rw [hnet]
      simp only [World.pcbAfter] at hp
      by_cases ho : w.owns q
      · exact ho.1
      · simp only [ho, and_false, if_false] at hp
        refine h q ?_
        by_cases hpq : p = q
        · simpa [World.receives, hp, hpq] using hq
        · simpa [World.receives, hp, hpq] using hq
    | peerClose p => exact hdropped _ rfl hp
    | fatal p =>
      simp only [World.pcbAfter] at hp
      by_cases hpq : p = q
      · have hlive := hq.1
        simp [hp, hpq] at hlive
      · rw [if_neg hpq] at hp
        exact hdropped _ rfl hp
    | _ => exact hsame hp hnet

end McuTest
