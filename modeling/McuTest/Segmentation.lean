import McuTest.Framing
import McuTest.Transport

/-! MQTT control packets against TCP segments. `netReadPacket` returns one
buffer for each pbuf, and `umqtt_DecodePacket` takes one packet from each buffer. -/

namespace McuTest

/-- The remaining length of a fixed header, seven bits a byte, and the number of
bytes that hold it, at most `k`. -/
def remainingLength : Nat → List Byte → Option (Nat × Nat)
  | 0, _ => none
  | _ + 1, [] => none
  | k + 1, b :: bs =>
    if b < 128 then some (b.toNat, 1)
    else (remainingLength k bs).map fun r => (b.toNat - 128 + 128 * r.1, r.2 + 1)

theorem remainingLength_append {k : Nat} {xs : List Byte} {r : Nat × Nat}
    (h : remainingLength k xs = some r) (ys : List Byte) :
    remainingLength k (xs ++ ys) = some r := by
  induction k generalizing xs r with
  | zero => simp [remainingLength] at h
  | succ k ih =>
    cases xs with
    | nil => simp [remainingLength] at h
    | cons b bs =>
      simp only [remainingLength, List.cons_append] at h ⊢
      split_ifs at h ⊢ with hb
      · exact h
      · obtain ⟨s, hs, rfl⟩ := Option.map_eq_some_iff.mp h
        rw [ih hs]
        rfl

def packetSize : List Byte → Option Nat
  | [] => none
  | _ :: bs => (remainingLength 4 bs).map fun r => 1 + r.2 + r.1

def mqtt : Framing Byte where
  size := packetSize
  size_append := by
    intro xs ys n h
    cases xs with
    | nil => simp [packetSize] at h
    | cons b bs =>
      obtain ⟨r, hr, rfl⟩ := Option.map_eq_some_iff.mp h
      simp only [packetSize, List.cons_append, remainingLength_append hr ys, Option.map_some]
  size_pos := by
    intro xs n h
    cases xs with
    | nil => simp [packetSize] at h
    | cons b bs =>
      obtain ⟨r, _, rfl⟩ := Option.map_eq_some_iff.mp h
      omega

/-- The fixed header size and the remaining length make up the packet. -/
abbrev ControlPacket (pkt : List Byte) : Prop :=
  mqtt.IsFrame pkt

example : ControlPacket [32, 2, 0, 0] := by decide

variable {N : Nat} [NeZero N] {σ : Type} {t t' : Transport N σ}

def NoneGivenUp (w : World N σ) : Prop :=
  (accepted w.lwip.log).map Prod.snd ++ (w.lwip.refused.map Prod.snd).toList = offers w.lwip.log

theorem noneGivenUp_step {w w' : World N σ} (hN : N ≤ 256) (h : NetOk w) (hk : NoneGivenUp w)
    {e : NetEvent} (he : netStep w e = some w') (hg : e ≠ .lwip .giveUp) : NoneGivenUp w' := by
  have heff := netStep_effect hN h he
  have hgoal : NoneGivenUp w' ↔
      (accepted w.lwip.log).map Prod.snd ++
        ((if w.full then [] else (w.arriving e).toList).map Prod.snd ++
          ((w.refusedAfter e).map Prod.snd).toList) =
        offers w.lwip.log ++ offers (w.actions e) := by
    simp only [NoneGivenUp, heff.log, heff.refused, accepted_append, offers_append,
      accepted_actions, List.map_append, List.append_assoc]
  rw [hgoal, ← hk, offers_actions]
  cases e with
  | call c => simp [World.arriving, World.refusedAfter]
  | lwip e =>
    cases fires_of_lwipStep he with
    | receive p chain _ hnone =>
      by_cases hfull : w.full <;>
        simp [World.arriving, World.refusedAfter, hfull, hnone]
    | redeliver p pb hr =>
      by_cases hfull : w.full <;>
        simp [World.arriving, World.refusedAfter, hr, hfull]
    | giveUp => exact absurd rfl hg
    | _ => simp [World.arriving, World.refusedAfter]

theorem noneGivenUp_transport (hN : N ≤ 256) (h : TransportOk t) (hk : NoneGivenUp t.world)
    {e : TransportEvent} (he : transportStep t e = some t') (hg : e ≠ .lwip .giveUp) :
    NoneGivenUp t'.world := by
  rcases transportStep_net he with ⟨d, hd, hnet⟩ | ⟨_, hsame⟩
  · refine noneGivenUp_step hN h.net hk hnet ?_
    rintro rfl
    cases e <;> simp [Transport.netEvent] at hd hg
    exact hg hd
  · rw [hsame]
    exact hk

structure Lossless (t : Transport N σ) : Prop extends TransportOk t where
  kept : NoneGivenUp t.world

theorem lossless_run (hN : N ≤ 256) (pfnEventCb : NetClientEvent → σ → σ) (app : σ)
    {es : List TransportEvent}
    (hr : Runs.run transportStep (Transport.init pfnEventCb app) es = some t)
    (hg : TransportEvent.lwip .giveUp ∉ es) : Lossless t := by
  have hstart : Lossless (Transport.init pfnEventCb app : Transport N σ) :=
    { transportOk_init pfnEventCb app with kept := rfl }
  have hall : Runs.AllSteps transportStep (fun _ e => e ≠ .lwip .giveUp)
      (Transport.init pfnEventCb app : Transport N σ) es :=
    Runs.allSteps_of_mem (fun _ e he => ne_of_mem_of_not_mem he hg) _
  refine Runs.run_invariant (fun s e u hs hne he => ?_) hstart hall hr
  exact { hs.toTransportOk.step hN he with
    kept := noneGivenUp_transport hN hs.toTransportOk hs.kept he hne }

theorem Lossless.reads_prefix (h : Lossless t) :
    reads t.world.lwip.log <+:
      ((offers t.world.lwip.log).map Pbuf.payload).map (List.map some) := by
  have hc : freedPbufs t.world.lwip.log ++ t.world.inst.queued =
      (accepted t.world.lwip.log).map Prod.snd := h.inv.conserved
  rw [h.copies, ← h.kept, ← hc, List.append_assoc, List.map_append, List.map_append, List.map_map]
  exact List.prefix_append _ _

theorem Lossless.reads_eq (h : Lossless t) (hq : t.world.inst.queued = [])
    (hr : t.world.lwip.refused = none) :
    reads t.world.lwip.log =
      ((offers t.world.lwip.log).map Pbuf.payload).map (List.map some) := by
  have hc : freedPbufs t.world.lwip.log ++ t.world.inst.queued =
      (accepted t.world.lwip.log).map Prod.snd := h.inv.conserved
  rw [h.copies, ← h.kept, ← hc, hq, hr, List.map_map]
  simp

theorem map_some_injective : Function.Injective (List.map (some : Byte → Option Byte)) :=
  List.map_injective_iff.mpr fun _ _ => Option.some.inj

theorem payloads_prefix {pbs : List Pbuf} {segs : List (List Byte)}
    (h : pbs.map (fun pb => pb.segs) <+: segs.map fun seg => [seg]) :
    pbs.map Pbuf.payload <+: segs := by
  induction pbs generalizing segs with
  | nil => exact List.nil_prefix
  | cons pb pbs ih =>
    cases segs with
    | nil => simp at h
    | cons seg segs =>
      simp only [List.map_cons, List.cons_prefix_cons] at h ⊢
      exact ⟨by simp [Pbuf.payload, h.1], ih h.2⟩

/-- However the packets `pkts` are cut into `segs`, the buffers that umqtt reads
are the packets exactly when each of the `segs` is one packet. -/
theorem reads_are_packets_iff {σ : Type} (pfnEventCb : NetClientEvent → σ → σ) (app : σ)
    {es : List TransportEvent} {t : Transport netclientQueueSize σ}
    (hr : Runs.run transportStep (Transport.init pfnEventCb app) es = some t)
    (hg : TransportEvent.lwip .giveUp ∉ es) {pkts segs : List (List Byte)}
    (hpkts : ∀ pkt ∈ pkts, ControlPacket pkt) (hcut : segs.flatten = pkts.flatten)
    (hoff : (offers t.world.lwip.log).map (fun pb => pb.segs) <+: segs.map fun seg => [seg]) :
    ((∀ seg ∈ segs, ControlPacket seg) →
      reads t.world.lwip.log <+: pkts.map (List.map some)) ∧
    ((offers t.world.lwip.log).length = segs.length → t.world.inst.queued = [] →
      t.world.lwip.refused = none →
        (reads t.world.lwip.log = pkts.map (List.map some) ↔ ∀ seg ∈ segs, ControlPacket seg)) := by
  have h := lossless_run (by decide) pfnEventCb app hr hg
  have hpre := payloads_prefix hoff
  have hiff := Framing.eq_frames_iff hpkts hcut
  refine ⟨fun hall => ?_, fun hlen hq hnone => ?_⟩
  · rw [← hiff.mpr hall]
    exact h.reads_prefix.trans (hpre.map _)
  · have hsegs : (offers t.world.lwip.log).map Pbuf.payload = segs :=
      hpre.eq_of_length (by rw [List.length_map, hlen])
    rw [h.reads_eq hq hnone, hsegs, List.map_inj_right fun _ _ he => map_some_injective he]
    exact hiff

def aligned : List (List Byte) :=
  [[208, 0], [144, 3, 0, 1, 0]]

def alignedEvents : List TransportEvent :=
  connectTransport ++
    [.lwip (.receive 0 (pingresp 0).toChain),
      .lwip (.receive 0 (.ofSegment [144, 3, 0, 1, 0] (by decide))), .peek, .copy, .peek, .copy]

theorem reads_are_packets_iff_aligned :
    ∃ t : Transport netclientQueueSize Unit,
      Runs.run transportStep (Transport.init (fun _ s => s) ()) alignedEvents = some t ∧
        reads t.world.lwip.log = aligned.map (List.map some) := by
  have hfacts : (Runs.run transportStep (Transport.init (N := netclientQueueSize) (fun _ s => s) ())
      alignedEvents).map (fun t => ((offers t.world.lwip.log).map (fun pb => pb.segs),
        t.world.inst.queued, t.world.lwip.refused)) =
          some (aligned.map (fun seg => [seg]), [], none) := by
    decide +kernel
  obtain ⟨t, ht, hf⟩ := Option.map_eq_some_iff.mp hfacts
  obtain ⟨hoff, hq, hr⟩ := by simpa only [Prod.mk.injEq] using hf
  have hpkts : ∀ pkt ∈ aligned, ControlPacket pkt := by decide
  have hgive : TransportEvent.lwip .giveUp ∉ alignedEvents := by decide
  have hlen : (offers t.world.lwip.log).length = aligned.length := by
    simpa using congrArg List.length hoff
  have hpre : (offers t.world.lwip.log).map (fun pb => pb.segs) <+: aligned.map fun seg => [seg] :=
    hoff ▸ List.prefix_rfl
  have hiff := (reads_are_packets_iff (fun _ s => s) () ht hgive hpkts rfl hpre).2 hlen hq hr
  exact ⟨t, ht, hiff.mpr hpkts⟩

/-- Two PINGRESP packets in one segment come back as one buffer. -/
theorem not_reads_are_packets :
    ¬∀ (es : List TransportEvent) (t : Transport netclientQueueSize Unit)
      (pkts segs : List (List Byte)),
      Runs.run transportStep (Transport.init (fun _ s => s) ()) es = some t →
      TransportEvent.lwip .giveUp ∉ es → (∀ pkt ∈ pkts, ControlPacket pkt) →
      (∀ seg ∈ segs, seg ≠ []) → segs.flatten = pkts.flatten →
      (offers t.world.lwip.log).map (fun pb => pb.segs) = segs.map (fun seg => [seg]) →
      t.world.inst.queued = [] → t.world.lwip.refused = none →
        reads t.world.lwip.log = pkts.map (List.map some) := by
  intro hall
  have hfacts : (Runs.run transportStep (Transport.init (N := netclientQueueSize) (fun _ s => s) ())
      (connectTransport ++
        [.lwip (.receive 0 (.ofSegment [208, 0, 208, 0] (by decide))), .peek, .copy])).map
        (fun t => ((offers t.world.lwip.log).map (fun pb => pb.segs),
          t.world.inst.queued.isEmpty && t.world.lwip.refused.isNone, reads t.world.lwip.log)) =
      some ([[[208, 0, 208, 0]]], true, [[some 208, some 0, some 208, some 0]]) := by
    decide +kernel
  obtain ⟨t, ht, hf⟩ := Option.map_eq_some_iff.mp hfacts
  obtain ⟨hoff, hdone, hreads⟩ := by simpa only [Prod.mk.injEq] using hf
  obtain ⟨hq, hr⟩ := by simpa using hdone
  have heq := hall _ t [[208, 0], [208, 0]] [[208, 0, 208, 0]] ht (by decide) (by decide)
    (by decide) rfl hoff hq hr
  rw [hreads] at heq
  simp at heq

end McuTest
