import McuTest.Transport

/-! `netReadPacket` with its two critical sections, the allocation between them
and what lwIP may do meanwhile; what a failed allocation returns; and the pbufs
it never gets past. -/

namespace McuTest

variable {N : Nat} [NeZero N] {σ : Type} {w w' : World N σ}

/-- `netReadPacket` when lwIP runs the callbacks `es` after `net_GetReadLen`
and before `net_ReadPacket` dequeues. -/
def netReadPacketDuring (w : World N σ) (avail : Bool) (es : List LwipEvent) :
    Option (UInt16 × Option Mem × World N σ) :=
  let len := Net.getReadLen w.inst
  (Runs.run lwipStep w es).map fun w =>
    if len ≠ 0 then
      if avail then
        let r := Net.readPacket w .inst (some (freshMem len)) len
        (UInt16.ofInt r.1, r.2.1, r.2.2)
      else (len, none, w)
    else (len, none, w)

theorem netReadPacketDuring_nil (w : World N σ) (avail : Bool) :
    netReadPacketDuring w avail [] = some (netReadPacket w avail) :=
  rfl

theorem netOk_of_run {pfnEventCb : NetClientEvent → σ → σ} {app : σ} (hN : N ≤ 256)
    {es : List NetEvent} (hr : Runs.run netStep (World.init pfnEventCb app) es = some w) :
    NetOk w :=
  Runs.run_invariant' (fun _ _ _ h he => NetOk.step hN h he) (netOk_init pfnEventCb app) hr

theorem lwipRun_queued (hN : N ≤ 256) (h : NetOk w) {es : List LwipEvent}
    (hr : Runs.run lwipStep w es = some w') :
    NetOk w' ∧ w.inst.queued <+: w'.inst.queued ∧
      freedPbufs w'.lwip.log = freedPbufs w.lwip.log := by
  have hstep : ∀ (u : World N σ) e v, NetOk u ∧ w.inst.queued <+: u.inst.queued ∧
      freedPbufs u.lwip.log = freedPbufs w.lwip.log → lwipStep u e = some v →
      NetOk v ∧ w.inst.queued <+: v.inst.queued ∧
        freedPbufs v.lwip.log = freedPbufs w.lwip.log := by
    rintro u e v ⟨hu, hpre, hfreed⟩ he
    have hnet : netStep u (.lwip e) = some v := he
    have hread : ∀ len, NetEvent.lwip e ≠ .call (.readPacket len) := by simp
    have hmore := queued_prefix hN hu hnet hread
    refine ⟨hu.step hN hnet, hpre.trans hmore, ?_⟩
    rw [(netStep_effect hN hu hnet).log, freedPbufs_append,
      (reads_actions_of_ne_read u hread).2, List.append_nil]
    exact hfreed
  exact Runs.run_invariant' hstep ⟨h, List.prefix_refl _, rfl⟩ hr

/-- Whatever lwIP does between the two critical sections, the read returns the
pbuf whose length was peeked, in a block of just that length. -/
theorem netReadPacket_stable (hN : N ≤ 256) (pfnEventCb : NetClientEvent → σ → σ) (app : σ)
    {evs : List NetEvent} (hr : Runs.run netStep (World.init pfnEventCb app) evs = some w)
    {pb : Pbuf} {rest : List Pbuf} (hq : w.inst.queued = pb :: rest) (hl : 0 < pb.len)
    {es : List LwipEvent} (hes : Runs.run lwipStep w es = some w') :
    ∃ block after more, netReadPacketDuring w true es = some (pb.len, some block, after) ∧
      block = (pb.payload.take pb.len.toNat).map some ∧ block.length = pb.len.toNat ∧
      w'.inst.queued = pb :: rest ++ more ∧ after.inst.queued = rest ++ more ∧
      freedPbufs after.lwip.log = freedPbufs w.lwip.log ++ [pb] := by
  have hok := netOk_of_run hN hr
  obtain ⟨hok', ⟨more, hmore⟩, hfreed⟩ := lwipRun_queued hN hok hes
  have hq' : w'.inst.queued = pb :: (rest ++ more) := by
    rw [← hmore, hq, List.cons_append]
  have hlen := Instance.getReadLen_cons hN hok.ring hq
  have hne : pb.len ≠ 0 := by
    rintro hz
    simp [hz] at hl
  have hread := readPacket_head hN hok'.ring hq'
  refine ⟨pb.payload.map some, w'.taken pb, more, ?_, ?_, ?_, hq', ?_, ?_⟩
  · simp only [netReadPacketDuring, hes, hlen, hne, ne_eq, not_false_eq_true, if_true, hread,
      ofInt_toNat, Option.map_some]
  · rw [Pbuf.len_toNat, List.take_length]
  · rw [List.length_map, Pbuf.len_toNat]
  · exact (Instance.slot_next_odx hN hok'.ring hq').2
  · rw [← hfreed]
    simp [World.taken, freedPbufs]

def oneSegment : List NetEvent :=
  connectEvents ++ [.lwip (.receive 0 (pingresp 0).toChain)]

/-- The ring fills, lwIP gives a refused segment up and the peer closes. -/
def busyCallbacks : List LwipEvent :=
  List.replicate 7 (.receive 0 (.ofSegment [48, 2, 0, 0] (by decide))) ++
    [.poll 0, .giveUp, .peerClose 0]

theorem netReadPacket_stable_busy :
    ∃ w w' : World netclientQueueSize Unit,
      Runs.run netStep (World.init (fun _ s => s) ()) oneSegment = some w ∧
      Runs.run lwipStep w busyCallbacks = some w' ∧ w'.inst.hNet = none ∧
      ∃ after, netReadPacketDuring w true busyCallbacks = some (2, some [some 208, some 0], after) ∧
        after.inst.queued.length = 6 := by
  have hfacts : (Runs.run netStep (World.init (N := netclientQueueSize) (fun _ s => s) ())
      oneSegment).map (fun w => (w.inst.queued, (Runs.run lwipStep w busyCallbacks).map
        fun w' => (w'.inst.hNet, w'.inst.queued.length))) =
        some ([pingresp 0], some (none, 7)) := by
    decide +kernel
  obtain ⟨w, hw, hf⟩ := Option.map_eq_some_iff.mp hfacts
  obtain ⟨hq, hf⟩ := Prod.mk.inj hf
  obtain ⟨w', hw', hf'⟩ := Option.map_eq_some_iff.mp hf
  obtain ⟨hnet, hcount⟩ := Prod.mk.inj hf'
  obtain ⟨block, after, more, hread, hblock, _, hall, hafter, _⟩ :=
    netReadPacket_stable (by decide) (fun _ s => s) () hw hq (by decide) hw'
  have hbytes : block = [some 208, some 0] := hblock.trans (by decide)
  subst block
  refine ⟨w, w', hw, hw', hnet, after, hread, ?_⟩
  rw [hall] at hcount
  rw [hafter]
  simpa using hcount

def Allocates (w : World N σ) : Prop :=
  ∃ pb rest, w.inst.queued = pb :: rest ∧ pb.len ≠ 0

theorem getReadLen_ne_zero_iff (hN : N ≤ 256) (h : w.inst.RingOk) :
    Net.getReadLen w.inst ≠ 0 ↔ Allocates w := by
  cases hq : w.inst.queued with
  | nil => simp [Allocates, hq, Instance.getReadLen_nil h hq]
  | cons pb rest => simp [Allocates, hq, Instance.getReadLen_cons hN h hq]

theorem netReadPacket_idle (hN : N ≤ 256) (h : w.inst.RingOk) (ha : ¬Allocates w)
    (avail : Bool) : netReadPacket w avail = (0, none, w) := by
  have hlen : Net.getReadLen w.inst = 0 := by
    by_contra hne
    exact ha ((getReadLen_ne_zero_iff hN h).mp hne)
  simp [netReadPacket, hlen]

theorem netReadPacket_fails (hN : N ≤ 256) (h : w.inst.RingOk) {pb : Pbuf} {rest : List Pbuf}
    (hq : w.inst.queued = pb :: rest) : netReadPacket w false = (pb.len, none, w) := by
  simp [netReadPacket, Instance.getReadLen_cons hN h hq]

/-- A positive result comes with the dequeued packet in a fresh block. -/
def Delivers (w : World N σ) (r : UInt16 × Option Mem × World N σ) : Prop :=
  0 < r.1 → ∃ pb rest block, w.inst.queued = pb :: rest ∧ r.2.2.inst.queued = rest ∧
    r.2.1 = some block ∧ r.1 ≤ pb.len ∧
      block.take r.1.toNat = (pb.payload.take r.1.toNat).map some

/-- A failed allocation gives no positive result and loses nothing: whatever
lwIP does in between, the next call that has memory returns the same packet. -/
def KeepsPacket (w : World N σ) (r : UInt16 × Option Mem × World N σ) : Prop :=
  r.1 ≤ 0 ∧ r.2.2.inst = w.inst ∧
    ∀ es later, Runs.run lwipStep r.2.2 es = some later → ∀ pb rest,
      w.inst.queued = pb :: rest → pb.len ≠ 0 →
        ∃ more, netReadPacket later true = (pb.len, some (pb.payload.map some), later.taken pb) ∧
          later.inst.queued = pb :: rest ++ more

theorem netReadPacket_later (hN : N ≤ 256) (h : NetOk w) {es : List LwipEvent}
    (hr : Runs.run lwipStep w es = some w') {pb : Pbuf} {rest : List Pbuf}
    (hq : w.inst.queued = pb :: rest) (hl : pb.len ≠ 0) :
    ∃ more, netReadPacket w' true = (pb.len, some (pb.payload.map some), w'.taken pb) ∧
      w'.inst.queued = pb :: rest ++ more := by
  obtain ⟨hok', ⟨more, hmore⟩, _⟩ := lwipRun_queued hN h hr
  have hq' : w'.inst.queued = pb :: (rest ++ more) := by
    rw [← hmore, hq, List.cons_append]
  exact ⟨more, netReadPacket_head hN hok'.ring hq' hl, hq'⟩

theorem delivers_idle (hN : N ≤ 256) (h : w.inst.RingOk) (ha : ¬Allocates w) (avail : Bool) :
    Delivers w (netReadPacket w avail) := by
  rw [netReadPacket_idle hN h ha]
  intro hpos
  exact absurd hpos (UInt16.lt_irrefl 0)

theorem delivers_available (hN : N ≤ 256) (h : w.inst.RingOk) :
    Delivers w (netReadPacket w true) := by
  by_cases ha : Allocates w
  · obtain ⟨pb, rest, hq, hl⟩ := ha
    rw [netReadPacket_head hN h hq hl]
    intro _
    refine ⟨pb, rest, pb.payload.map some, hq, (Instance.slot_next_odx hN h hq).2, rfl,
      UInt16.le_refl _, List.map_take.symm⟩
  · exact delivers_idle hN h ha true

/-- A read reports what it delivers exactly when every block it asks for is
given: with none, `len` still holds the length that was peeked. -/
theorem netReadPacket_reports_iff (hN : N ≤ 256) (pfnEventCb : NetClientEvent → σ → σ) (app : σ)
    {evs : List NetEvent} (hr : Runs.run netStep (World.init pfnEventCb app) evs = some w)
    (avail : Bool) :
    (Delivers w (netReadPacket w avail) ∧
        (avail = false → KeepsPacket w (netReadPacket w avail))) ↔
      (Allocates w → avail = true) := by
  have hok := netOk_of_run hN hr
  cases avail with
  | true => exact iff_of_true ⟨delivers_available hN hok.ring, nofun⟩ fun _ => rfl
  | false =>
    by_cases ha : Allocates w
    · obtain ⟨pb, rest, hq, hl⟩ := ha
      have hfail := netReadPacket_fails hN hok.ring hq
      refine iff_of_false ?_ fun hall => absurd (hall ⟨pb, rest, hq, hl⟩) (by decide)
      rintro ⟨_, hkeep⟩
      have hzero := (hkeep rfl).1
      rw [hfail] at hzero
      exact hl (UInt16.le_antisymm hzero UInt16.zero_le)
    · have hidle := netReadPacket_idle hN hok.ring ha false
      refine iff_of_true ⟨?_, fun _ => ?_⟩ fun ha' => absurd ha' ha
      · exact delivers_idle hN hok.ring ha false
      · rw [hidle]
        refine ⟨UInt16.le_refl _, rfl, fun es later hl pb rest hq hne => ?_⟩
        exact netReadPacket_later hN hok hl hq hne

theorem netReadPacket_reports_segment :
    ∃ w : World netclientQueueSize Unit,
      Runs.run netStep (World.init (fun _ s => s) ()) oneSegment = some w ∧
        Delivers w (netReadPacket w true) := by
  have hfacts : (Runs.run netStep (World.init (N := netclientQueueSize) (fun _ s => s) ())
      oneSegment).isSome := by
    decide +kernel
  obtain ⟨w, hw⟩ := Option.isSome_iff_exists.mp hfacts
  exact ⟨w, hw, ((netReadPacket_reports_iff (by decide) (fun _ s => s) () hw true).mpr
    fun _ => rfl).1⟩

theorem not_netReadPacket_reports :
    ¬∀ (evs : List NetEvent) (w : World netclientQueueSize Unit) (avail : Bool),
      Runs.run netStep (World.init (fun _ s => s) ()) evs = some w →
        Delivers w (netReadPacket w avail) ∧
          (avail = false → KeepsPacket w (netReadPacket w avail)) := by
  intro hall
  have hfacts : (Runs.run netStep (World.init (N := netclientQueueSize) (fun _ s => s) ())
      oneSegment).map (fun w => (netReadPacket w false).1) = some 2 := by
    decide +kernel
  obtain ⟨w, hw, htwo⟩ := Option.map_eq_some_iff.mp hfacts
  have hzero := ((hall oneSegment w false hw).2 rfl).1
  rw [htwo] at hzero
  exact absurd hzero (by decide)

/-- Packets are taken off as far as `netReadPacket` gets with memory to spare. -/
def readTimes (w : World N σ) : Nat → World N σ
  | 0 => w
  | n + 1 => readTimes (netReadPacket w true).2.2 n

/-- Each of the calls that the queue needs takes one pbuf off. -/
def Progresses (w : World N σ) : Prop :=
  ∀ n ≤ w.inst.queued.length, (readTimes w n).inst.queued = w.inst.queued.drop n

theorem NetOk.netReadPacket (hN : N ≤ 256) (h : NetOk w) (avail : Bool) :
    NetOk (netReadPacket w avail).2.2 := by
  simp only [McuTest.netReadPacket]
  split_ifs
  · exact h.readPacket hN _ _
  · exact h
  · exact h

theorem progresses_cons (hN : N ≤ 256) (h : NetOk w) {pb : Pbuf} {rest : List Pbuf}
    (hq : w.inst.queued = pb :: rest) :
    Progresses w ↔ pb.len ≠ 0 ∧ Progresses (McuTest.netReadPacket w true).2.2 := by
  by_cases hl : pb.len = 0
  · have hidle : ¬Allocates w := by
      rintro ⟨pb', rest', hq', hne⟩
      obtain ⟨rfl, _⟩ := List.cons.inj (hq'.symm.trans hq)
      exact hne hl
    refine iff_of_false (fun hprog => ?_) fun hprog => hprog.1 hl
    have hone := hprog 1 (by simp [hq])
    have hstay : (readTimes w 1).inst.queued = w.inst.queued := by
      simp only [readTimes, netReadPacket_idle hN h.ring hidle]
    have hlen := congrArg List.length (hstay.symm.trans hone)
    simp [hq] at hlen
  · have hnext : (McuTest.netReadPacket w true).2.2.inst.queued = rest := by
      rw [netReadPacket_head hN h.ring hq hl]
      exact (Instance.slot_next_odx hN h.ring hq).2
    constructor
    · refine fun hprog => ⟨hl, fun n hn => ?_⟩
      rw [hnext] at hn ⊢
      have hsucc := hprog (n + 1) (by simpa [hq] using hn)
      rw [hq, List.drop_succ_cons] at hsucc
      exact hsucc
    · rintro ⟨_, hprog⟩ n hn
      cases n with
      | zero => rfl
      | succ n =>
        have hstep := hprog n (by simpa [hq, hnext] using hn)
        rw [hnext] at hstep
        rw [hq, List.drop_succ_cons]
        exact hstep

theorem progresses_iff (hN : N ≤ 256) (h : NetOk w) :
    Progresses w ↔ ∀ pb ∈ w.inst.queued, pb.len ≠ 0 := by
  induction hq : w.inst.queued generalizing w with
  | nil =>
    refine iff_of_true (fun n hn => ?_) fun pb hpb => by simp at hpb
    obtain rfl : n = 0 := by simpa [hq] using hn
    rfl
  | cons pb rest ih =>
    rw [progresses_cons hN h hq, List.forall_mem_cons]
    refine and_congr_right fun hl => ih (h.netReadPacket hN true) ?_
    rw [netReadPacket_head hN h.ring hq hl]
    exact (Instance.slot_next_odx hN h.ring hq).2

/-- Reading gets through the whole queue exactly when no queued chain begins
with an empty segment. -/
theorem reads_progress_iff (hN : N ≤ 256) (pfnEventCb : NetClientEvent → σ → σ) (app : σ)
    {evs : List NetEvent} (hr : Runs.run netStep (World.init pfnEventCb app) evs = some w) :
    Progresses w ↔ ∀ pb ∈ w.inst.queued, pb.len ≠ 0 :=
  progresses_iff hN (netOk_of_run hN hr)

theorem reads_progress_segment :
    ∃ w : World netclientQueueSize Unit,
      Runs.run netStep (World.init (fun _ s => s) ()) oneSegment = some w ∧
        (readTimes w 1).inst.queued = [] := by
  have hfacts : (Runs.run netStep (World.init (N := netclientQueueSize) (fun _ s => s) ())
      oneSegment).map (fun w => w.inst.queued) = some [pingresp 0] := by
    decide +kernel
  obtain ⟨w, hw, hq⟩ := Option.map_eq_some_iff.mp hfacts
  have hprog := (reads_progress_iff (by decide) (fun _ s => s) () hw).mpr (by
    rw [hq]
    decide)
  have hone := hprog 1 (by simp [hq])
  exact ⟨w, hw, by simpa [hq] using hone⟩

/-- What is left of a retransmitted segment after its overlap is cut off. -/
def trimmedChain : Chain where
  segs := [[], [2]]
  segs_ne_nil := List.cons_ne_nil _ _
  tot_lt := by decide

theorem not_reads_progress :
    ¬∀ (evs : List NetEvent) (w : World netclientQueueSize Unit),
      Runs.run netStep (World.init (fun _ s => s) ()) evs = some w → w.inst.queued ≠ [] →
        (netReadPacket w true).2.2.inst.queued.length + 1 = w.inst.queued.length := by
  intro hall
  have hfacts : (Runs.run netStep (World.init (N := netclientQueueSize) (fun _ s => s) ())
      (connectEvents ++ [.lwip (.receive 0 trimmedChain)])).map (fun w =>
        (w.inst.queued.length, (netReadPacket w true).2.2.inst.queued.length)) = some (1, 1) := by
    decide +kernel
  obtain ⟨w, hw, hf⟩ := Option.map_eq_some_iff.mp hfacts
  obtain ⟨hbefore, hafter⟩ := Prod.mk.inj hf
  have hne : w.inst.queued ≠ [] := by
    rintro hnil
    simp [hnil] at hbefore
  have hlen := hall _ w hw hne
  omega

end McuTest
