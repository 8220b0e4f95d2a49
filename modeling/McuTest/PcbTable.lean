import McuTest.NetClient

/-! Which PCBs are allocated, read off the log, and what the composite calls
of net_client do to the callback slots. -/

namespace McuTest

@[simp] theorem allocated_append (l l' : List Action) :
    allocated (l ++ l') = allocated l ++ allocated l' := by
  simp [allocated]

@[simp] theorem offers_append (l l' : List Action) : offers (l ++ l') = offers l ++ offers l' := by
  simp [offers]

@[simp] theorem accepted_append (l l' : List Action) :
    accepted (l ++ l') = accepted l ++ accepted l' := by
  simp [accepted]

@[simp] theorem freedPbufs_append (l l' : List Action) :
    freedPbufs (l ++ l') = freedPbufs l ++ freedPbufs l' := by
  simp [freedPbufs]

@[simp] theorem reads_append (l l' : List Action) : reads (l ++ l') = reads l ++ reads l' := by
  simp [reads]

@[simp] theorem released_append (l l' : List Action) :
    released (l ++ l') = released l ++ released l' :=
  Lifetime.freed_append l l'

@[simp] theorem recved_append (p : Pcb) (l l' : List Action) :
    recved p (l ++ l') = recved p l + recved p l' := by
  simp [recved]

namespace Lwip

structure TableOk (l : Lwip) : Prop where
  live_iff : ∀ q, (l.pcbs q).live = true ↔ q ∈ allocated l.log ∧ q ∉ released l.log
  fresh : ∀ q ∈ allocated l.log, q < l.nextPcb
  sub : ∀ q ∈ released l.log, q ∈ allocated l.log

variable {l : Lwip}

theorem tableOk_empty : TableOk {} := by
  refine ⟨fun q => ?_, fun q hq => ?_, fun q hq => ?_⟩
  · simp [allocated]
  · simp [allocated] at hq
  · simp [released] at hq

theorem TableOk.not_released (h : l.TableOk) {q : Pcb} (hq : (l.pcbs q).live = true) :
    q ∉ released l.log :=
  ((h.live_iff q).mp hq).2

theorem TableOk.append (h : l.TableOk) {as : List Action} (hr : released as = [])
    (ha : allocated as = []) : TableOk { l with log := l.log ++ as } := by
  refine ⟨fun q => ?_, fun q hq => ?_, fun q hq => ?_⟩
  · simpa only [released_append, hr, allocated_append, ha, List.append_nil] using h.live_iff q
  · exact h.fresh q (by simpa only [allocated_append, ha, List.append_nil] using hq)
  · simp only [released_append, hr, List.append_nil] at hq
    simpa only [allocated_append, ha, List.append_nil] using h.sub q hq

theorem TableOk.note (h : l.TableOk) {a : Action} (hr : released [a] = [])
    (ha : allocated [a] = []) : (l.note a).TableOk :=
  h.append hr ha

theorem TableOk.onPcb (h : l.TableOk) (pcb : Option Pcb) {f : TcpPcb → TcpPcb}
    (hf : ∀ s, (f s).live = s.live) : (l.onPcb pcb f).TableOk := by
  refine ⟨fun q => ?_, h.fresh, h.sub⟩
  have hq : ((l.onPcb pcb f).pcbs q).live = (l.pcbs q).live := by
    simp only [Lwip.onPcb]
    split_ifs
    · exact hf _
    · rfl
  rw [hq]
  exact h.live_iff q

theorem TableOk.tcpNew (h : l.TableOk) (avail : Bool) : (l.tcpNew avail).2.TableOk := by
  cases avail with
  | false => exact h.note rfl rfl
  | true =>
    have hne : l.nextPcb ∉ allocated l.log := fun hm => Nat.lt_irrefl _ (h.fresh _ hm)
    have hrel : l.nextPcb ∉ released l.log := fun hm => hne (h.sub _ hm)
    have hr : released (l.tcpNew true).2.log = released l.log := by
      change released (l.log ++ [.tcpNew (some l.nextPcb)]) = _
      simp [released, Lifetime.freed, Action.frees]
    have ha : allocated (l.tcpNew true).2.log = allocated l.log ++ [l.nextPcb] := by
      change allocated (l.log ++ [.tcpNew (some l.nextPcb)]) = _
      simp [allocated]
    refine ⟨fun q => ?_, fun q hq => ?_, fun q hq => ?_⟩
    · rw [hr, ha, List.mem_append, List.mem_singleton]
      by_cases hq : q = l.nextPcb
      · subst q
        simp [Lwip.tcpNew, hrel]
      · simpa [Lwip.tcpNew, Lwip.note, hq] using h.live_iff q
    · rw [ha, List.mem_append, List.mem_singleton] at hq
      change q < l.nextPcb + 1
      rcases hq with hq | rfl
      · exact Nat.lt_succ_of_lt (h.fresh q hq)
      · exact Nat.lt_succ_self _
    · rw [hr] at hq
      rw [ha]
      exact List.mem_append_left _ (h.sub q hq)

theorem TableOk.release (h : l.TableOk) {pcb : Option Pcb} {a : Action} {f : TcpPcb → TcpPcb}
    (hr : released [a] = pcb.toList) (ha : allocated [a] = [])
    (hpcb : ∀ p, pcb = some p → p ∈ allocated l.log) (hf : ∀ s, (f s).live = false) :
    ((l.note a).onPcb pcb f).TableOk := by
  have hrel : released (l.note a).log = released l.log ++ pcb.toList := by
    rw [Lwip.note, released_append, hr]
  have hall : allocated (l.note a).log = allocated l.log := by
    rw [Lwip.note, allocated_append, ha, List.append_nil]
  refine ⟨fun q => ?_, fun q hq => h.fresh q (hall ▸ hq), fun q hq => ?_⟩
  · change _ ↔ q ∈ allocated (l.note a).log ∧ q ∉ released (l.note a).log
    rw [hrel, hall, List.mem_append, Option.mem_toList]
    by_cases hq : pcb = some q
    · by_cases hl : (l.pcbs q).live = true <;> simp [Lwip.onPcb, Lwip.note, hq, hl, hf]
    · simp only [Lwip.onPcb, hq, false_and, if_false, or_false]
      exact h.live_iff q
  · change q ∈ allocated (l.note a).log
    rw [hall]
    change q ∈ released (l.note a).log at hq
    rw [hrel, List.mem_append, Option.mem_toList] at hq
    rcases hq with hq | hq
    · exact h.sub q hq
    · exact hpcb q hq

theorem TableOk.tcpClose (h : l.TableOk) {pcb : Option Pcb}
    (hpcb : ∀ p, pcb = some p → p ∈ allocated l.log) (err : ErrT) :
    (l.tcpClose pcb err).TableOk := by
  by_cases he : err = .ok
  · subst err
    refine h.release ?_ rfl hpcb (fun s => by simp)
    cases pcb <;> rfl
  · have hn : released [.tcpClose pcb err] = [] := by
      cases err <;> first | exact absurd rfl he | rfl
    refine (h.note hn rfl).onPcb pcb fun s => ?_
    simp [he]

theorem TableOk.tcpAbort (h : l.TableOk) {pcb : Option Pcb}
    (hpcb : ∀ p, pcb = some p → p ∈ allocated l.log) : (l.tcpAbort pcb).TableOk := by
  refine h.release ?_ rfl hpcb (fun s => rfl)
  cases pcb <;> rfl

end Lwip

def TcpPcb.forget (s : TcpPcb) : TcpPcb :=
  { s with arg := .null, sent := none, recv := none, err := none, poll := none }

def TcpPcb.watch (s : TcpPcb) : TcpPcb :=
  { s with err := some .errorCb, poll := some .pollCb, recv := some .receiveCb, sent := some .sentCb }

def TcpPcb.opening : TcpPcb :=
  { live := true, arg := .inst, err := some .errorCb, connected := some .connectedCb }

def deregisterCalls (hNet : Option Pcb) : List Action :=
  [.tcpCall .arg hNet, .tcpCall .sent hNet, .tcpCall .recv hNet, .tcpCall .err hNet,
    .tcpCall .poll hNet]

def registerCalls (hNet : Option Pcb) : List Action :=
  [.tcpCall .err hNet, .tcpCall .poll hNet, .tcpCall .recv hNet, .tcpCall .sent hNet]

def openCalls (p : Pcb) (addr : IpAddr) (port : UInt16) (err : ErrT) : List Action :=
  [.tcpNew (some p), .tcpCall .err (some p), .tcpCall .arg (some p),
    .tcpConnect (some p) addr port err]

theorem deregister_eq (l : Lwip) (hNet : Option Pcb) :
    Net.deregister l hNet =
      { l.onPcb hNet TcpPcb.forget with log := l.log ++ deregisterCalls hNet } := by
  simp only [Net.deregister, Lwip.tcpArg, Lwip.tcpSent, Lwip.tcpRecv, Lwip.tcpErr, Lwip.tcpPoll,
    Lwip.onPcb, Lwip.note, deregisterCalls, List.append_assoc, List.cons_append, List.nil_append,
    Lwip.mk.injEq, and_true]
  funext q
  by_cases hq : hNet = some q ∧ (l.pcbs q).live = true <;> simp [hq, TcpPcb.forget]

theorem register_eq (l : Lwip) (hNet : Option Pcb) :
    (((l.tcpErr hNet (some .errorCb)).tcpPoll hNet (some .pollCb) 20).tcpRecv hNet
        (some .receiveCb)).tcpSent hNet (some .sentCb) =
      { l.onPcb hNet TcpPcb.watch with log := l.log ++ registerCalls hNet } := by
  simp only [Lwip.tcpSent, Lwip.tcpRecv, Lwip.tcpErr, Lwip.tcpPoll, Lwip.onPcb, Lwip.note,
    registerCalls, List.append_assoc, List.cons_append, List.nil_append, Lwip.mk.injEq, and_true]
  funext q
  by_cases hq : hNet = some q ∧ (l.pcbs q).live = true <;> simp [hq, TcpPcb.watch]

/-- lwIP after `tcp_new` has given `l.nextPcb` and `net_Connect` has set it up. -/
def Lwip.opened (l : Lwip) (addr : IpAddr) (port : UInt16) (err : ErrT) : Lwip :=
  { l with
    pcbs := fun q => if q = l.nextPcb then .opening else l.pcbs q
    nextPcb := l.nextPcb + 1
    log := l.log ++ openCalls l.nextPcb addr port err }

theorem opened_eq (l : Lwip) (addr : IpAddr) (port : UInt16) (err : ErrT) :
    (((l.tcpNew true).2.tcpErr (some l.nextPcb) (some .errorCb)).tcpArg (some l.nextPcb)
        .inst).tcpConnect (some l.nextPcb) addr port .connectedCb err =
      l.opened addr port err := by
  simp only [Lwip.tcpNew, Lwip.tcpErr, Lwip.tcpArg, Lwip.tcpConnect, Lwip.onPcb, Lwip.note,
    Lwip.opened, openCalls, if_true, List.append_assoc, List.cons_append, List.nil_append,
    Lwip.mk.injEq, and_true]
  funext q
  by_cases hq : q = l.nextPcb
  · simp [hq, TcpPcb.opening]
  · simp [hq, Ne.symm hq]

namespace Lwip

theorem TableOk.deregister {l : Lwip} (h : l.TableOk) (hNet : Option Pcb) :
    (Net.deregister l hNet).TableOk := by
  rw [deregister_eq]
  have hf : (l.onPcb hNet TcpPcb.forget).TableOk := h.onPcb hNet fun _ => rfl
  exact hf.append rfl rfl

theorem TableOk.opened {l : Lwip} (h : l.TableOk) (addr : IpAddr) (port : UInt16) (err : ErrT) :
    (l.opened addr port err).TableOk := by
  rw [← opened_eq]
  have hn : (l.tcpNew true).2.TableOk := h.tcpNew true
  have he : ((l.tcpNew true).2.tcpErr (some l.nextPcb) (some .errorCb)).TableOk :=
    (hn.note rfl rfl).onPcb _ fun _ => rfl
  have ha : (((l.tcpNew true).2.tcpErr (some l.nextPcb) (some .errorCb)).tcpArg (some l.nextPcb)
      .inst).TableOk := (he.note rfl rfl).onPcb _ fun _ => rfl
  exact (ha.note rfl rfl).onPcb _ fun _ => rfl

end Lwip

variable {N : Nat} {σ : Type}

theorem pcbs_abort (l : Lwip) (hNet : Option Pcb) (q : Pcb) :
    ((Net.deregister l hNet).tcpAbort hNet).pcbs q =
      if hNet = some q ∧ (l.pcbs q).live = true then { (l.pcbs q).forget with live := false }
      else l.pcbs q := by
  rw [deregister_eq]
  simp only [Lwip.tcpAbort, Lwip.note, Lwip.onPcb]
  by_cases hq : hNet = some q ∧ (l.pcbs q).live = true
  · simp [hq, TcpPcb.forget]
  · simp [hq]

theorem pcbs_close (l : Lwip) (hNet : Option Pcb) (err : ErrT) (q : Pcb) :
    ((Net.deregister l hNet).tcpClose hNet err).pcbs q =
      if hNet = some q ∧ (l.pcbs q).live = true then
        { (l.pcbs q).forget with live := decide (err ≠ .ok) }
      else l.pcbs q := by
  rw [deregister_eq]
  simp only [Lwip.tcpClose, Lwip.note, Lwip.onPcb]
  by_cases hq : hNet = some q ∧ (l.pcbs q).live = true
  · simp [hq, TcpPcb.forget]
  · simp [hq]

theorem pcbs_connectedCb (w : World N σ) (q : Pcb) :
    (Net.connectedCb w .inst).lwip.pcbs q =
      if w.inst.hNet = some q ∧ (w.lwip.pcbs q).live = true then (w.lwip.pcbs q).watch
      else w.lwip.pcbs q := by
  simp only [Net.connectedCb, Net.notify, register_eq]
  rfl

theorem log_errorCb (w : World N σ) :
    (Net.errorCb w .inst).lwip.log = w.lwip.log ++
      (deregisterCalls w.inst.hNet ++ [.tcpAbort w.inst.hNet, .notified .disconnected]) := by
  simp [Net.errorCb, Net.notify, deregister_eq, Lwip.tcpAbort, Lwip.note, Lwip.onPcb]

theorem log_disconnect (w : World N σ) (closeErr : ErrT) :
    (Net.disconnect w .inst closeErr).lwip.log = w.lwip.log ++
      (deregisterCalls w.inst.hNet ++
        [.tcpClose w.inst.hNet closeErr, .notified .disconnected]) := by
  simp [Net.disconnect, Net.notify, deregister_eq, Lwip.tcpClose, Lwip.note, Lwip.onPcb]

theorem log_connectedCb (w : World N σ) :
    (Net.connectedCb w .inst).lwip.log = w.lwip.log ++
      (registerCalls w.inst.hNet ++ [.notified .connected]) := by
  simp [Net.connectedCb, Net.notify, register_eq, Lwip.note, Lwip.onPcb]

theorem connect_none (w : World N σ) (addr : IpAddr) (port : UInt16) (connErr closeErr : ErrT) :
    Net.connect w .inst addr port false connErr closeErr =
      (-2, { w with lwip := w.lwip.note (.tcpNew none) }) :=
  rfl

theorem connect_ok (w : World N σ) (addr : IpAddr) (port : UInt16) (closeErr : ErrT) :
    Net.connect w .inst addr port true .ok closeErr =
      (0, { w with
        lwip := w.lwip.opened addr port .ok
        inst := { w.inst with hNet := some w.lwip.nextPcb } }) := by
  rw [← opened_eq]
  rfl

theorem connect_fail (w : World N σ) (addr : IpAddr) (port : UInt16) {connErr : ErrT}
    (closeErr : ErrT) (he : connErr ≠ .ok) :
    Net.connect w .inst addr port true connErr closeErr =
      (-4, { w with
        lwip := (w.lwip.opened addr port connErr).tcpClose (some w.lwip.nextPcb) closeErr
        inst := { w.inst with isConnected := false, hNet := none } }) := by
  rw [← opened_eq]
  simp only [Net.connect, if_neg (show Handle.inst ≠ .null from nofun), Lwip.tcpNew, if_true, ne_eq,
    he, not_false_eq_true]

end McuTest
