import McuTest.NetTrace

/-! Whether net_client keeps to the lifetime of its PCBs. lwIP frees a PCB
before it invokes the err callback, and `net_ErrorCb` then uses and aborts it. -/

namespace McuTest

variable {N : Nat} [NeZero N] {σ : Type} {w w' : World N σ}

abbrev PcbDisciplined (log : List Action) : Prop :=
  Lifetime.Disciplined Action.uses Action.frees log

def SparesCurrent (w : World N σ) (e : NetEvent) : Prop :=
  ∀ p, e = .lwip (.fatal p) → w.inst.hNet ≠ some p

def Borrows (pcb : Option Pcb) (as : List Action) : Prop :=
  ∀ a ∈ as, a.frees = none ∧ ∀ p, a.uses = some p → pcb = some p

theorem borrows_deregisterCalls (hNet : Option Pcb) : Borrows hNet (deregisterCalls hNet) := by
  simp [Borrows, deregisterCalls, Action.frees, Action.uses]

theorem borrows_registerCalls (hNet : Option Pcb) : Borrows hNet (registerCalls hNet) := by
  simp [Borrows, registerCalls, Action.frees, Action.uses]

theorem borrows_openCalls (p : Pcb) (addr : IpAddr) (port : UInt16) (err : ErrT) :
    Borrows (some p) (openCalls p addr port err) := by
  simp [Borrows, openCalls, Action.frees, Action.uses]

theorem Borrows.append {pcb : Option Pcb} {as bs : List Action} (ha : Borrows pcb as)
    (hb : Borrows pcb bs) : Borrows pcb (as ++ bs) := by
  intro a hm
  rcases List.mem_append.mp hm with hm | hm
  · exact ha a hm
  · exact hb a hm

theorem disciplined_borrow {log as : List Action} {pcb : Option Pcb} (h : PcbDisciplined log)
    (hb : Borrows pcb as) (hp : ∀ p, pcb = some p → p ∉ released log) :
    PcbDisciplined (log ++ as) ∧ released (log ++ as) = released log :=
  Lifetime.disciplined_append_of_held h (fun a ha => (hb a ha).1)
    fun a ha p hu => hp p ((hb a ha).2 p hu)

theorem disciplined_release {log as : List Action} {pcb : Option Pcb} {a b : Action}
    (h : PcbDisciplined log) (hb : Borrows pcb as) (hp : ∀ p, pcb = some p → p ∉ released log)
    (hu : a.uses = pcb) (hf : a.frees = pcb ∨ a.frees = none)
    (hbu : b.uses = none) (hbf : b.frees = none) :
    PcbDisciplined (log ++ (as ++ [a, b])) := by
  obtain ⟨hd, hr⟩ := disciplined_borrow h hb hp
  have hheld : ∀ p, pcb = some p → p ∉ released (log ++ as) := by
    intro p he
    rw [hr]
    exact hp p he
  have ha : PcbDisciplined (log ++ as ++ [a]) := by
    refine Lifetime.disciplined_append_singleton.mpr ⟨hd, fun p he => ?_, fun p he => ?_⟩
    · exact hheld p (hu ▸ he)
    · rcases hf with hf | hf
      · exact hheld p (hf ▸ he)
      · simp [hf] at he
  have hlast : PcbDisciplined (log ++ as ++ [a] ++ [b]) :=
    Lifetime.disciplined_append_singleton.mpr ⟨ha, by simp [hbu], by simp [hbf]⟩
  simpa using hlast

theorem disciplined_quiet {log as : List Action} (h : PcbDisciplined log)
    (hq : ∀ a ∈ as, a.frees = none ∧ a.uses = none) : PcbDisciplined (log ++ as) := by
  have hb : Borrows none as := fun a ha => ⟨(hq a ha).1, by simp [(hq a ha).2]⟩
  exact (disciplined_borrow h hb (by simp)).1

theorem NetOk.hNet_held (h : NetOk w) : ∀ p, w.inst.hNet = some p → p ∉ released w.lwip.log :=
  fun p hp => h.table.not_released (h.current p hp).1

theorem disciplined_connectCalls (h : NetOk w) (hd : PcbDisciplined w.lwip.log) (addr : IpAddr)
    (port : UInt16) (avail : Bool) (connErr closeErr : ErrT) :
    PcbDisciplined (w.lwip.log ++ connectCalls w addr port avail connErr closeErr) := by
  have hnew : ∀ p, some w.lwip.nextPcb = some p → p ∉ released w.lwip.log := by
    intro p hp hm
    have hlt := h.table.fresh p (h.table.sub p hm)
    rw [← Option.some.inj hp] at hlt
    exact Nat.lt_irrefl _ hlt
  have hopen := borrows_openCalls w.lwip.nextPcb addr port connErr
  cases avail with
  | false => exact disciplined_quiet hd (by simp [connectCalls, Action.frees, Action.uses])
  | true =>
    by_cases he : connErr = .ok
    · have hlast : Borrows (some w.lwip.nextPcb) [.netConnect 0 (some w.lwip.nextPcb)] := by
        simp [Borrows, Action.frees, Action.uses]
      have hb := disciplined_borrow hd (hopen.append hlast) hnew
      simpa [connectCalls, he] using hb.1
    · have hr := disciplined_release (a := .tcpClose (some w.lwip.nextPcb) closeErr)
        (b := .netConnect (-4) none) hd hopen hnew rfl ?_ rfl rfl
      · simpa [connectCalls, he] using hr
      · cases closeErr <;> simp [Action.frees]

theorem disciplined_errorCalls {log : List Action} (h : PcbDisciplined log) (hNet : Option Pcb) :
    PcbDisciplined (log ++ errorCalls hNet) ↔ ∀ p, hNet = some p → p ∉ released log := by
  constructor
  · rintro ⟨huse, _⟩ p rfl
    exact huse log (.tcpCall .arg (some p)) _ rfl p rfl
  · intro hp
    exact disciplined_release (a := .tcpAbort hNet) (b := .notified .disconnected) h
      (borrows_deregisterCalls hNet) hp rfl (.inl rfl) rfl rfl

/-- lwIP frees the PCB before it invokes `net_ErrorCb`, which releases `hNet`. -/
theorem disciplined_fatal (h : NetOk w) (hd : PcbDisciplined w.lwip.log) {p : Pcb}
    (hlive : (w.lwip.pcbs p).live = true) :
    PcbDisciplined (w.lwip.log ++ w.actions (.lwip (.fatal p))) ↔
      SparesCurrent w (.lwip (.fatal p)) := by
  have hp : p ∉ released w.lwip.log := h.table.not_released hlive
  have hfree : PcbDisciplined (w.lwip.log ++ [.pcbFreed p]) :=
    Lifetime.disciplined_append_singleton.mpr
      ⟨hd, by simp [Action.uses], by simpa [Action.frees] using hp⟩
  have hent : PcbDisciplined (w.lwip.log ++ [.pcbFreed p] ++ [.entered .errorCb .inst]) :=
    disciplined_quiet hfree (by simp [Action.frees, Action.uses])
  have hrel : released (w.lwip.log ++ [.pcbFreed p] ++ [.entered .errorCb .inst]) =
      released w.lwip.log ++ [p] := by
    simp [released, Lifetime.freed, Action.frees]
  have herr := disciplined_errorCalls hent w.inst.hNet
  rw [hrel] at herr
  have hlist : w.lwip.log ++ w.actions (.lwip (.fatal p)) =
      w.lwip.log ++ [.pcbFreed p] ++ [.entered .errorCb .inst] ++ errorCalls w.inst.hNet := by
    simp [World.actions]
  rw [hlist, herr]
  constructor
  · intro hall q hq hcur
    obtain rfl : p = q := by simpa using hq
    exact hall p hcur (by simp)
  · intro hs q hq hm
    rcases List.mem_append.mp hm with hm | hm
    · exact h.hNet_held q hq hm
    · obtain rfl : q = p := by simpa using hm
      exact hs q rfl hq

theorem disciplined_lwip (h : NetOk w) (hd : PcbDisciplined w.lwip.log) {e : LwipEvent}
    (he : lwipStep w e = some w') :
    PcbDisciplined (w.lwip.log ++ w.actions (.lwip e)) ↔ SparesCurrent w (.lwip e) := by
  have hheld := h.hNet_held
  cases fires_of_lwipStep he with
  | connected p =>
    refine iff_of_true ?_ (by simp [SparesCurrent])
    have hent : Borrows w.inst.hNet [.entered .connectedCb (w.lwip.pcbs p).arg] := by
      simp [Borrows, Action.frees, Action.uses]
    have hnote : Borrows w.inst.hNet [.notified .connected] := by
      simp [Borrows, Action.frees, Action.uses]
    cases harg : (w.lwip.pcbs p).arg with
    | null =>
      rw [harg] at hent
      simpa [World.actions, harg] using (disciplined_borrow hd hent hheld).1
    | inst =>
      rw [harg] at hent
      have hb := hent.append ((borrows_registerCalls w.inst.hNet).append hnote)
      simpa [World.actions, harg] using (disciplined_borrow hd hb hheld).1
  | receive p chain =>
    refine iff_of_true (disciplined_quiet hd ?_) (by simp [SparesCurrent])
    simp [World.actions, deliverCalls, Action.frees, Action.uses]
  | redeliver p pb hheld =>
    refine iff_of_true (disciplined_quiet hd ?_) (by simp [SparesCurrent])
    simp [World.actions, hheld, deliverCalls, Action.frees, Action.uses]
  | giveUp =>
    refine iff_of_true (disciplined_quiet hd ?_) (by simp [SparesCurrent])
    simp [World.actions]
  | peerClose p =>
    refine iff_of_true ?_ (by simp [SparesCurrent])
    have hent : PcbDisciplined (w.lwip.log ++ [.entered .receiveCb .inst]) :=
      disciplined_quiet hd (by simp [Action.frees, Action.uses])
    have herr := (disciplined_errorCalls hent w.inst.hNet).mpr fun p hp => by
      simpa [released, Lifetime.freed, Action.frees] using hheld p hp
    simpa [World.actions] using herr
  | poll p =>
    refine iff_of_true (disciplined_quiet hd ?_) (by simp [SparesCurrent])
    cases harg : (w.lwip.pcbs p).arg <;> simp [World.actions, harg, Action.frees, Action.uses]
  | sent p len =>
    refine iff_of_true (disciplined_quiet hd ?_) (by simp [SparesCurrent])
    simp [World.actions, Action.frees, Action.uses]
  | fatal p hlive => exact disciplined_fatal h hd hlive

theorem disciplined_step (hN : N ≤ 256) (h : NetOk w) (hd : PcbDisciplined w.lwip.log)
    {e : NetEvent} (he : netStep w e = some w') :
    PcbDisciplined w'.lwip.log ↔ SparesCurrent w e := by
  rw [(netStep_effect hN h he).log]
  have hheld := h.hNet_held
  cases e with
  | lwip e => exact disciplined_lwip h hd he
  | call c =>
    refine iff_of_true ?_ (by simp [SparesCurrent])
    cases c with
    | connect addr port avail connErr closeErr =>
      exact disciplined_connectCalls h hd addr port avail connErr closeErr
    | disconnect closeErr =>
      refine disciplined_release hd (borrows_deregisterCalls _) hheld rfl ?_ rfl rfl
      cases closeErr <;> simp [Action.frees]
    | readPacket len =>
      have hb : Borrows w.inst.hNet (w.actions (.call (.readPacket len))) := by
        cases hq : w.inst.queued <;> simp [World.actions, hq, Borrows, Action.frees, Action.uses]
      exact (disciplined_borrow hd hb hheld).1
    | writePacket buf len isMore err =>
      have hb : Borrows w.inst.hNet (w.actions (.call (.writePacket buf len isMore err))) := by
        by_cases hc : err = .ok ∧ isMore = false <;>
          simp [World.actions, hc, Borrows, Action.frees, Action.uses]
      exact (disciplined_borrow hd hb hheld).1

theorem disciplined_of_step (hN : N ≤ 256) (h : NetOk w) {e : NetEvent}
    (he : netStep w e = some w') (hd : PcbDisciplined w'.lwip.log) : PcbDisciplined w.lwip.log := by
  rw [(netStep_effect hN h he).log] at hd
  exact hd.of_append

/-- Over a run, no PCB is used or released after its release exactly when lwIP
never invokes the err callback for the PCB that is current. -/
theorem pcbs_disciplined_iff {σ : Type} (pfnEventCb : NetClientEvent → σ → σ) (app : σ)
    {es : List NetEvent} {w : World netclientQueueSize σ}
    (hr : Runs.run netStep (World.init pfnEventCb app) es = some w) :
    PcbDisciplined w.lwip.log ↔
      Runs.AllSteps netStep SparesCurrent
        (World.init pfnEventCb app : World netclientQueueSize σ) es := by
  have hN : netclientQueueSize ≤ 256 := by decide
  have hstart : PcbDisciplined (World.init (N := netclientQueueSize) pfnEventCb app).lwip.log :=
    Lifetime.disciplined_nil
  have hkeep : ∀ (v : World netclientQueueSize σ) e v', NetOk v → netStep v e = some v' → NetOk v' :=
    fun _ _ _ hi he => hi.step hN he
  exact Runs.run_iff_allSteps (P := fun w => PcbDisciplined w.lwip.log) hkeep
    (fun _ _ _ hi hd he => disciplined_step hN hi hd he)
    (fun _ _ _ hi he hd => disciplined_of_step hN hi he hd)
    (netOk_init pfnEventCb app) hstart hr

def peerCloseEvents : List NetEvent :=
  connectEvents ++ [.lwip (.peerClose 0)] ++
    [.call (.connect ⟨10, 0, 0, 12⟩ 1883 true .ok .ok), .lwip (.connected 1)]

omit [NeZero N] in
theorem sparesCurrent_of_ne_fatal {w : World N σ} {e : NetEvent}
    (h : ∀ p, e ≠ .lwip (.fatal p)) : SparesCurrent w e :=
  fun p hp => absurd hp (h p)

theorem pcbs_disciplined_iff_peer_close :
    ∃ w : World netclientQueueSize Unit,
      Runs.run netStep (World.init (fun _ s => s) ()) peerCloseEvents = some w ∧
        released w.lwip.log = [0] ∧ PcbDisciplined w.lwip.log := by
  have hfacts : (Runs.run netStep (World.init (N := netclientQueueSize) (fun _ s => s) ())
      peerCloseEvents).map (fun w => released w.lwip.log) = some [0] := by
    decide +kernel
  obtain ⟨w, hw, hf⟩ := Option.map_eq_some_iff.mp hfacts
  refine ⟨w, hw, hf, (pcbs_disciplined_iff (fun _ s => s) () hw).mpr ?_⟩
  exact Runs.allSteps_of_mem (fun s e he => sparesCurrent_of_ne_fatal fun p hp => by
    simp [peerCloseEvents, connectEvents, hp] at he) _

/-- A reset frees the PCB, and `net_ErrorCb` aborts it once more. -/
theorem not_pcbs_disciplined :
    ¬∀ (es : List NetEvent) (w : World netclientQueueSize Unit),
      Runs.run netStep (World.init (fun _ s => s) ()) es = some w →
        PcbDisciplined w.lwip.log := by
  intro hall
  have hfacts : (Runs.run netStep (World.init (N := netclientQueueSize) (fun _ s => s) ())
      (connectEvents ++ [.lwip (.fatal 0)])).map (fun w => released w.lwip.log) =
        some [0, 0] := by
    decide +kernel
  obtain ⟨w, hw, hf⟩ := Option.map_eq_some_iff.mp hfacts
  have hnd : (released w.lwip.log).Nodup := (hall _ w hw).2
  rw [hf] at hnd
  simp at hnd

end McuTest
