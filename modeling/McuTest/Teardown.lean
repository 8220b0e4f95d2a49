import McuTest.NetHandover

/-! `net_Disconnect` call by call. Outside a critical section lwIP may run a
callback that is still registered after `tcp_arg` has cleared its argument. -/

namespace McuTest

variable {N : Nat} [NeZero N] {σ : Type}

inductive TeardownCall where
  | tcpArg
  | tcpSent
  | tcpRecv
  | tcpErr
  | tcpPoll
  | tcpClose
  deriving DecidableEq

def TeardownCall.exec (w : World N σ) (closeErr : ErrT) : TeardownCall → World N σ
  | .tcpArg => { w with lwip := w.lwip.tcpArg w.inst.hNet .null }
  | .tcpSent => { w with lwip := w.lwip.tcpSent w.inst.hNet none }
  | .tcpRecv => { w with lwip := w.lwip.tcpRecv w.inst.hNet none }
  | .tcpErr => { w with lwip := w.lwip.tcpErr w.inst.hNet none }
  | .tcpPoll => { w with lwip := w.lwip.tcpPoll w.inst.hNet none 0 }
  | .tcpClose => { w with lwip := w.lwip.tcpClose w.inst.hNet closeErr }

def disconnectCalls : List TeardownCall :=
  [.tcpArg, .tcpSent, .tcpRecv, .tcpErr, .tcpPoll, .tcpClose]

structure Teardown (N : Nat) (σ : Type) where
  world : World N σ
  todo : List TeardownCall

inductive TeardownEvent where
  | next (closeErr : ErrT)
  | lwip (e : LwipEvent)
  deriving DecidableEq

/-- Callbacks of `p` may run after the first call and before the last. -/
def teardownStep (p : Pcb) (t : Teardown N σ) : TeardownEvent → Option (Teardown N σ)
  | .next closeErr =>
    match t.todo with
    | [] => none
    | c :: cs => some { world := c.exec t.world closeErr, todo := cs }
  | .lwip e =>
    if t.todo ≠ disconnectCalls ∧ t.todo ≠ [] ∧ t.world.concerns p e then
      (lwipStep t.world e).map fun w => { t with world := w }
    else none

def Teardown.start (w : World N σ) : Teardown N σ where
  world := w
  todo := disconnectCalls

def Teardown.finish (t : Teardown N σ) : World N σ :=
  Net.notify { t.world with inst := { t.world.inst with hNet := none, isConnected := false } }
    .disconnected

theorem teardown_uninterrupted (w : World N σ) (p : Pcb) (closeErr : ErrT) :
    ∃ t, Runs.run (teardownStep p) (.start w) (List.replicate 6 (.next closeErr)) = some t ∧
      t.todo = [] ∧ t.finish = Net.disconnect w .inst closeErr :=
  ⟨_, rfl, rfl, rfl⟩

/-- A callback that dereferences its argument is entered with NULL. -/
def Action.derefsNull : Action → Bool
  | .entered .errorCb .null | .entered .pollCb .null | .entered .connectedCb .null => true
  | _ => false

/-- Since `w` no callback has dereferenced NULL, and every pbuf for which
`net_ReceiveCb` returned `ERR_OK` has been queued. -/
structure TeardownSafe (w : World N σ) (t : Teardown N σ) : Prop where
  noNull : t.world.lwip.log.countP Action.derefsNull = w.lwip.log.countP Action.derefsNull
  queued : (accepted t.world.lwip.log).map Prod.snd =
    freedPbufs t.world.lwip.log ++ t.world.inst.queued

/-- lwIP reports sent data, the peer's close, or nothing. -/
def Harmless : TeardownEvent → Prop
  | .next _ => True
  | .lwip (.sent _ _) | .lwip (.peerClose _) | .lwip .giveUp => True
  | .lwip _ => False

structure TeardownInv (w : World N σ) (p : Pcb) (t : Teardown N σ) : Prop where
  inst : t.world.inst = w.inst
  suffix : t.todo <:+ disconnectCalls
  start : t.todo = disconnectCalls → t.world = w
  arg : t.todo ≠ disconnectCalls → (t.world.lwip.pcbs p).arg = .null

variable {w : World N σ} {p : Pcb} {t t' : Teardown N σ}

theorem onPcb_arg (l : Lwip) (pcb : Option Pcb) {f : TcpPcb → TcpPcb} {p : Pcb}
    (hf : ∀ s, s.arg = .null → (f s).arg = .null) (h : (l.pcbs p).arg = .null) :
    ((l.onPcb pcb f).pcbs p).arg = .null := by
  simp only [Lwip.onPcb]
  split_ifs
  · exact hf _ h
  · exact h

omit [NeZero N] in
theorem exec_eq (w : World N σ) (closeErr : ErrT) (c : TeardownCall) :
    ∃ a f, c.exec w closeErr = { w with lwip := (w.lwip.note a).onPcb w.inst.hNet f } ∧
      (∀ s, s.arg = .null → (f s).arg = .null) ∧
      a.derefsNull = false ∧ accepted [a] = [] ∧ freedPbufs [a] = [] := by
  cases c <;> refine ⟨_, _, rfl, fun s hs => ?_, rfl, rfl, rfl⟩ <;> first | rfl | exact hs

theorem safe_exec (h : TeardownSafe w t) (closeErr : ErrT) (c : TeardownCall)
    (cs : List TeardownCall) :
    TeardownSafe w { world := c.exec t.world closeErr, todo := cs } := by
  obtain ⟨a, f, he, _, hn, ha, hf⟩ := exec_eq t.world closeErr c
  have hlog : (c.exec t.world closeErr).lwip.log = t.world.lwip.log ++ [a] := by
    rw [he]
    rfl
  constructor
  · rw [hlog, List.countP_append, h.noNull]
    simp [hn]
  · rw [hlog, accepted_append, freedPbufs_append, ha, hf, he, List.append_nil, List.append_nil]
    exact h.queued

theorem TeardownInv.next (hw : NetOk w) (hp : w.inst.hNet = some p) (h : TeardownInv w p t)
    (closeErr : ErrT) {c : TeardownCall} {cs : List TeardownCall} (htodo : t.todo = c :: cs) :
    TeardownInv w p { world := c.exec t.world closeErr, todo := cs } := by
  have hsuf : c :: cs <:+ disconnectCalls := htodo ▸ h.suffix
  have hne : cs ≠ disconnectCalls := by
    intro he
    have hlen := hsuf.length_le
    rw [he, List.length_cons] at hlen
    omega
  obtain ⟨a, f, he, hf, _⟩ := exec_eq t.world closeErr c
  refine ⟨?_, (List.suffix_cons c cs).trans hsuf, fun he => absurd he hne, fun _ => ?_⟩
  · rw [he]
    exact h.inst
  · by_cases hfirst : t.todo = disconnectCalls
    · obtain ⟨rfl, rfl⟩ := List.cons.inj (htodo.symm.trans hfirst)
      have hlive := (hw.current p hp).1
      simp [TeardownCall.exec, Lwip.tcpArg, Lwip.onPcb, Lwip.note, h.start hfirst, hp, hlive]
    · rw [he]
      exact onPcb_arg (t.world.lwip.note a) _ hf (h.arg hfirst)

/-- `net_ReceiveCb` takes no pbuf when it has no argument, yet says `ERR_OK`. -/
theorem deliver_null {v : World N σ} (harg : (v.lwip.pcbs p).arg = .null) (pb : Pbuf) :
    deliver v p pb = { v with lwip := { v.lwip with
      log := v.lwip.log ++ [.entered .receiveCb .null, .received p pb .ok]
      refused := none } } := by
  simp [deliver, harg, Net.receiveCb, World.note, Lwip.note]

theorem lwipStep_null {v v' : World N σ} {e : LwipEvent} (hc : v.concerns p e)
    (harg : (v.lwip.pcbs p).arg = .null) (he : lwipStep v e = some v') :
    v'.inst = v.inst ∧ (v'.lwip.pcbs p).arg = .null ∧
      ∃ as, v'.lwip.log = v.lwip.log ++ as ∧ freedPbufs as = [] ∧
        (as.countP Action.derefsNull = 0 ∧ accepted as = [] ↔ Harmless (.lwip e)) := by
  cases fires_of_lwipStep he with
  | connected q =>
    obtain rfl : q = p := hc
    rw [harg]
    refine ⟨rfl, ?_, [.entered .connectedCb .null], rfl, rfl, by simp [Harmless, Action.derefsNull]⟩
    exact onPcb_arg v.lwip (some q) (f := fun s => { s with established := true })
      (fun s hs => hs) harg
  | receive q chain =>
    obtain rfl : q = p := hc
    have hoff : ((v.offer q (v.newPbuf chain)).lwip.pcbs q).arg = .null := harg
    rw [deliver_null hoff (v.newPbuf chain)]
    refine ⟨rfl, harg, [.offered q (v.newPbuf chain), .entered .receiveCb .null,
      .received q (v.newPbuf chain) .ok], ?_, rfl, by simp [Harmless, accepted]⟩
    exact List.append_assoc _ _ _
  | redeliver q pb hheld =>
    obtain rfl : q = p := by simpa [World.concerns, hheld] using hc
    rw [deliver_null harg pb]
    exact ⟨rfl, harg, _, rfl, rfl, by simp [Harmless, accepted]⟩
  | giveUp =>
    exact ⟨rfl, harg, [], (List.append_nil _).symm, rfl, by simp [Harmless, accepted]⟩
  | peerClose q =>
    obtain rfl : q = p := hc
    rw [harg]
    exact ⟨rfl, harg, [.entered .receiveCb .null], rfl, rfl,
      by simp [Harmless, Action.derefsNull, accepted]⟩
  | poll q =>
    obtain rfl : q = p := hc
    rw [harg]
    exact ⟨rfl, harg, [.entered .pollCb .null], rfl, rfl, by simp [Harmless, Action.derefsNull]⟩
  | sent q len =>
    obtain rfl : q = p := hc
    rw [harg]
    exact ⟨rfl, harg, [.entered .sentCb .null], rfl, rfl,
      by simp [Harmless, Action.derefsNull, accepted]⟩
  | fatal q =>
    obtain rfl : q = p := hc
    rw [harg]
    refine ⟨rfl, ?_, [.pcbFreed q, .entered .errorCb .null], ?_, rfl,
      by simp [Harmless, Action.derefsNull]⟩
    · exact onPcb_arg (v.lwip.note (.pcbFreed q)) (some q)
        (f := fun s => { s with live := false }) (fun s hs => hs) harg
    · simp [Net.errorCb, World.note, Lwip.note, Lwip.onPcb]

theorem teardownStep_next {closeErr : ErrT} (he : teardownStep p t (.next closeErr) = some t') :
    ∃ c cs, t.todo = c :: cs ∧ t' = { world := c.exec t.world closeErr, todo := cs } := by
  cases htodo : t.todo with
  | nil => simp [teardownStep, htodo] at he
  | cons c cs =>
    simp only [teardownStep, htodo, Option.some.injEq] at he
    exact ⟨c, cs, rfl, he.symm⟩

theorem teardownStep_lwip {e : LwipEvent} (he : teardownStep p t (.lwip e) = some t') :
    t.todo ≠ disconnectCalls ∧ t.world.concerns p e ∧
      ∃ w, lwipStep t.world e = some w ∧ t' = { t with world := w } := by
  simp only [teardownStep, Option.ite_none_right_eq_some, Option.map_eq_some_iff] at he
  obtain ⟨⟨hfirst, _, hc⟩, v, hv, rfl⟩ := he
  exact ⟨hfirst, hc, v, hv, rfl⟩

theorem TeardownInv.step (hw : NetOk w) (hp : w.inst.hNet = some p) (h : TeardownInv w p t)
    {e : TeardownEvent} (he : teardownStep p t e = some t') : TeardownInv w p t' := by
  cases e with
  | next closeErr =>
    obtain ⟨c, cs, htodo, rfl⟩ := teardownStep_next he
    exact h.next hw hp closeErr htodo
  | lwip e =>
    obtain ⟨hfirst, hc, v, hv, rfl⟩ := teardownStep_lwip he
    obtain ⟨hinst, harg, _⟩ := lwipStep_null hc (h.arg hfirst) hv
    exact ⟨hinst.trans h.inst, h.suffix, fun hf => absurd hf hfirst, fun _ => harg⟩

theorem teardownSafe_step (h : TeardownInv w p t) (hs : TeardownSafe w t) {e : TeardownEvent}
    (he : teardownStep p t e = some t') : TeardownSafe w t' ↔ Harmless e := by
  cases e with
  | next closeErr =>
    obtain ⟨c, cs, _, rfl⟩ := teardownStep_next he
    exact iff_of_true (safe_exec hs closeErr c cs) trivial
  | lwip e =>
    obtain ⟨hfirst, hc, v, hv, rfl⟩ := teardownStep_lwip he
    obtain ⟨hinst, _, as, hlog, hfreed, hiff⟩ := lwipStep_null hc (h.arg hfirst) hv
    rw [← hiff]
    have hnull : v.lwip.log.countP Action.derefsNull =
        w.lwip.log.countP Action.derefsNull + as.countP Action.derefsNull := by
      rw [hlog, List.countP_append, hs.noNull]
    have hqueue : (accepted v.lwip.log).map Prod.snd =
        freedPbufs v.lwip.log ++ v.inst.queued ++ (accepted as).map Prod.snd := by
      rw [hlog, accepted_append, freedPbufs_append, hfreed, hinst, List.map_append, hs.queued,
        List.append_nil]
    constructor
    · intro hsafe
      have hn := hsafe.noNull
      have hq := hsafe.queued
      simp only [hnull, hqueue] at hn hq
      refine ⟨by omega, ?_⟩
      simpa using hq
    · rintro ⟨hn, ha⟩
      exact ⟨by rw [hnull, hn, Nat.add_zero], by rw [hqueue, ha]; simp⟩

/-- Taking down the current connection is safe exactly when, between its calls,
lwIP runs at most `net_SentCb` and `net_ReceiveCb` with a NULL pbuf. -/
theorem teardown_safe_iff {σ : Type} (pfnEventCb : NetClientEvent → σ → σ) (app : σ)
    {es : List NetEvent} {w : World netclientQueueSize σ}
    (hr : Runs.run netStep (World.init pfnEventCb app) es = some w) {p : Pcb}
    (hp : w.inst.hNet = some p) (ts : List TeardownEvent) :
    Runs.AllStates (teardownStep p) (TeardownSafe w) (.start w) ts ↔
      Runs.AllSteps (teardownStep p) (fun _ => Harmless) (.start w) ts := by
  have hw := handoverOk_run (by decide) (handoverOk_init pfnEventCb app) hr
  have hinv : TeardownInv w p (.start w) :=
    ⟨rfl, List.suffix_refl _, fun _ => rfl, fun hne => absurd rfl hne⟩
  have hsafe : TeardownSafe w (.start w) := ⟨rfl, hw.inv.conserved.symm⟩
  exact Runs.allStates_iff_allSteps (fun _ _ _ hi he => hi.step hw.net hp he)
    (fun _ _ _ hi hs he => teardownSafe_step hi hs he) hinv hsafe

def quietTeardown : List TeardownEvent :=
  [.next .ok, .lwip (.sent 0 2), .next .ok, .lwip (.peerClose 0), .next .ok, .next .ok, .next .ok,
    .next .ok]

theorem teardown_safe_iff_quiet :
    ∃ w : World netclientQueueSize Unit,
      Runs.run netStep (World.init (fun _ s => s) ()) connectEvents = some w ∧
        (Runs.run (teardownStep 0) (.start w) quietTeardown).isSome ∧
        Runs.AllStates (teardownStep 0) (TeardownSafe w) (.start w) quietTeardown := by
  have hfacts : (Runs.run netStep (World.init (N := netclientQueueSize) (fun _ s => s) ())
      connectEvents).map (fun w => (w.inst.hNet,
        (Runs.run (teardownStep 0) (.start w) quietTeardown).isSome)) = some (some 0, true) := by
    decide +kernel
  obtain ⟨w, hw, hf⟩ := Option.map_eq_some_iff.mp hfacts
  obtain ⟨hp, hrun⟩ := Prod.mk.inj hf
  refine ⟨w, hw, hrun, (teardown_safe_iff (fun _ s => s) () hw hp _).mpr ?_⟩
  exact Runs.allSteps_of_mem (by simp [quietTeardown, Harmless]) _

/-- `net_PollCb` runs right after `tcp_arg`, with a NULL argument. -/
theorem not_teardown_safe :
    ¬∀ (es : List NetEvent) (w : World netclientQueueSize Unit) (p : Pcb) (ts : List TeardownEvent),
      Runs.run netStep (World.init (fun _ s => s) ()) es = some w → w.inst.hNet = some p →
        Runs.AllStates (teardownStep p) (TeardownSafe w) (.start w) ts := by
  intro hall
  have hfacts : (Runs.run netStep (World.init (N := netclientQueueSize) (fun _ s => s) ())
      connectEvents).map (fun w => (w.inst.hNet, w.lwip.log.countP Action.derefsNull,
        (Runs.run (teardownStep 0) (.start w) [.next .ok, .lwip (.poll 0)]).map fun t =>
          t.world.lwip.log.countP Action.derefsNull)) = some (some 0, 0, some 1) := by
    decide +kernel
  obtain ⟨w, hw, hf⟩ := Option.map_eq_some_iff.mp hfacts
  simp only [Prod.mk.injEq] at hf
  obtain ⟨hp, hbefore, hafter⟩ := hf
  obtain ⟨t, ht, hcount⟩ := Option.map_eq_some_iff.mp hafter
  have hsafe := (hall connectEvents w 0 _ hw hp).last ht
  have hn := hsafe.noNull
  omega

end McuTest
