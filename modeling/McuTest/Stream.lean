import McuTest.Transport

/-! The bytes that umqtt reads against the bytes that lwIP has delivered.
`net_ReadPacket` copies the first segment of a chain and frees the chain. -/

namespace McuTest

variable {N : Nat} [NeZero N] {σ : Type} {t t' : Transport N σ}

def stream (log : List Action) : List Byte :=
  (accepted log).flatMap fun x => x.2.contents

/-- A copy takes a chain whose first segment is all of it. -/
def TakesWhole (t : Transport N σ) (e : TransportEvent) : Prop :=
  e = .copy → ∀ pb rest, t.world.inst.queued = pb :: rest → pb.len = pb.totLen

def FreedWhole (t : Transport N σ) : Prop :=
  ∀ pb ∈ freedPbufs t.world.lwip.log, pb.len = pb.totLen

theorem freed_of_not_copy (hN : N ≤ 256) (h : TransportOk t) {e : TransportEvent}
    (he : transportStep t e = some t') (hc : e ≠ .copy) :
    freedPbufs t'.world.lwip.log = freedPbufs t.world.lwip.log := by
  rcases transportStep_net he with ⟨d, hd, hnet⟩ | ⟨_, hsame⟩
  · have hread := netEvent_ne_read he hc hd
    rw [(netStep_effect hN h.net hnet).log, freedPbufs_append,
      (reads_actions_of_ne_read t.world hread).2, List.append_nil]
  · rw [hsame]

theorem freed_of_copy (hN : N ≤ 256) (h : TransportOk t) (he : transportStep t .copy = some t') :
    ∃ pb rest, t.world.inst.queued = pb :: rest ∧
      freedPbufs t'.world.lwip.log = freedPbufs t.world.lwip.log ++ [pb] := by
  obtain ⟨len, hp, rfl⟩ := Option.map_eq_some_iff.mp he
  obtain ⟨pb, rest, hq, hacts⟩ := h.actions_copy hp
  have hstep : netStep t.world (.call (.readPacket len)) =
      some (callStep t.world (.readPacket len)) := rfl
  refine ⟨pb, rest, hq, ?_⟩
  rw [(netStep_effect hN h.net hstep).log, hacts, freedPbufs_append]
  rfl

theorem freedWhole_step (hN : N ≤ 256) (h : TransportOk t) (hf : FreedWhole t)
    {e : TransportEvent} (he : transportStep t e = some t') : FreedWhole t' ↔ TakesWhole t e := by
  by_cases hc : e = .copy
  · subst e
    obtain ⟨pb, rest, hq, hfreed⟩ := freed_of_copy hN h he
    constructor
    · intro hw _ pb' rest' hq'
      obtain ⟨rfl, _⟩ := List.cons.inj (hq'.symm.trans hq)
      exact hw pb' (by simp [hfreed])
    · intro ht x hx
      rw [hfreed, List.mem_append, List.mem_singleton] at hx
      rcases hx with hx | rfl
      · exact hf x hx
      · exact ht rfl x rest hq
  · refine iff_of_true ?_ fun he' => absurd he' hc
    intro pb hpb
    rw [freed_of_not_copy hN h he hc] at hpb
    exact hf pb hpb

theorem freedWhole_of_step (hN : N ≤ 256) (h : TransportOk t) {e : TransportEvent}
    (he : transportStep t e = some t') (hf : FreedWhole t') : FreedWhole t := by
  intro pb hpb
  by_cases hc : e = .copy
  · subst e
    obtain ⟨_, _, _, hfreed⟩ := freed_of_copy hN h he
    exact hf pb (by rw [hfreed]; exact List.mem_append_left _ hpb)
  · rw [← freed_of_not_copy hN h he hc] at hpb
    exact hf pb hpb

theorem freedWhole_iff (hN : N ≤ 256) (pfnEventCb : NetClientEvent → σ → σ) (app : σ)
    {es : List TransportEvent} (hr : Runs.run transportStep (Transport.init pfnEventCb app) es = some t) :
    FreedWhole t ↔
      Runs.AllSteps transportStep TakesWhole (Transport.init pfnEventCb app : Transport N σ) es := by
  have hstart : FreedWhole (Transport.init pfnEventCb app : Transport N σ) :=
    fun pb hpb => by simp [Transport.init, World.init, freedPbufs] at hpb
  exact Runs.run_iff_allSteps (fun _ _ _ hi he => TransportOk.step hN hi he)
    (fun _ _ _ hi hf he => freedWhole_step hN hi hf he)
    (fun _ _ _ hi he hf => freedWhole_of_step hN hi he hf) (transportOk_init pfnEventCb app) hstart hr

theorem stream_eq (h : TransportOk t) :
    stream t.world.lwip.log =
      (freedPbufs t.world.lwip.log).flatMap Pbuf.contents ++
        t.world.inst.queued.flatMap Pbuf.contents := by
  have hc : freedPbufs t.world.lwip.log ++ t.world.inst.queued =
      (accepted t.world.lwip.log).map Prod.snd := h.inv.conserved
  rw [← List.flatMap_append, hc, List.flatMap_map]
  rfl

theorem reads_flatten (h : TransportOk t) :
    (reads t.world.lwip.log).flatten =
      ((freedPbufs t.world.lwip.log).flatMap Pbuf.payload).map some := by
  rw [h.copies, List.map_flatMap]
  rfl

theorem flatMap_payload_eq_iff (pbs : List Pbuf) :
    pbs.flatMap Pbuf.payload = pbs.flatMap Pbuf.contents ↔ ∀ pb ∈ pbs, pb.len = pb.totLen := by
  have hle : ∀ qs : List Pbuf, (qs.flatMap Pbuf.payload).length ≤ (qs.flatMap Pbuf.contents).length := by
    intro qs
    induction qs with
    | nil => simp
    | cons q qs ih =>
      have hq := q.payload_prefix.length_le
      simp only [List.flatMap_cons, List.length_append]
      omega
  induction pbs with
  | nil => simp
  | cons pb pbs ih =>
    simp only [List.flatMap_cons, List.forall_mem_cons]
    constructor
    · intro he
      have hlen := congrArg List.length he
      simp only [List.length_append] at hlen
      have hpb := pb.payload_prefix.length_le
      have hrest := hle pbs
      have hl : pb.payload.length = pb.contents.length := by omega
      have hpc : pb.payload = pb.contents := pb.payload_prefix.eq_of_length hl
      refine ⟨UInt16.toNat_inj.mp (by simpa using hl), ih.mp ?_⟩
      rw [hpc] at he
      exact List.append_cancel_left he
    · rintro ⟨hl, hall⟩
      rw [ih.mpr hall, Pbuf.contents_eq_payload hl]

/-- What umqtt has read is a prefix of the delivered stream as long as every
chain it takes is in one piece; once the queue is empty, exactly then. -/
theorem reads_prefix_of_stream {σ : Type} (pfnEventCb : NetClientEvent → σ → σ) (app : σ)
    {es : List TransportEvent} {t : Transport netclientQueueSize σ}
    (hr : Runs.run transportStep (Transport.init pfnEventCb app) es = some t) :
    let whole := Runs.AllSteps transportStep TakesWhole
      (Transport.init pfnEventCb app : Transport netclientQueueSize σ) es
    let read := (reads t.world.lwip.log).flatten
    let delivered := (stream t.world.lwip.log).map some
    (whole → read <+: delivered) ∧
      (t.world.inst.queued = [] → (read = delivered ↔ whole)) := by
  have hN : netclientQueueSize ≤ 256 := by decide
  have hok : TransportOk t :=
    Runs.run_invariant' (fun _ _ _ hi he => TransportOk.step hN hi he)
      (transportOk_init pfnEventCb app) hr
  have hwhole := freedWhole_iff hN pfnEventCb app hr
  have heq := flatMap_payload_eq_iff (freedPbufs t.world.lwip.log)
  refine ⟨fun hw => ?_, fun hq => ?_⟩
  · rw [reads_flatten hok, stream_eq hok, heq.mpr (hwhole.mpr hw), List.map_append]
    exact List.prefix_append _ _
  · rw [reads_flatten hok, stream_eq hok, hq, List.flatMap_nil, List.append_nil,
      List.map_inj_right (fun _ _ => Option.some.inj), heq]
    exact hwhole

def OnConnection : TransportEvent → Prop
  | .lwip (.receive p _) => p = 0
  | .lwip .redeliver | .peek | .copy => True
  | _ => False

def wholeEvents : List TransportEvent :=
  connectTransport ++
    [.lwip (.receive 0 connack), .peek,
      .lwip (.receive 0 (pingresp 0).toChain), .copy, .peek, .copy]

theorem reads_prefix_of_stream_whole :
    ∃ t : Transport netclientQueueSize Unit,
      Runs.run transportStep (Transport.init (fun _ s => s) ()) wholeEvents = some t ∧
        (stream t.world.lwip.log).length = 6 ∧
        (reads t.world.lwip.log).flatten = (stream t.world.lwip.log).map some := by
  have hfacts : (Runs.run transportStep (Transport.init (N := netclientQueueSize) (fun _ s => s) ())
      wholeEvents).map (fun t => (t.world.inst.queued, (stream t.world.lwip.log).length,
        (freedPbufs t.world.lwip.log).all fun pb => pb.len = pb.totLen)) = some ([], 6, true) := by
    decide +kernel
  obtain ⟨t, ht, hf⟩ := Option.map_eq_some_iff.mp hfacts
  obtain ⟨hq, hlen, hall⟩ := by simpa only [Prod.mk.injEq] using hf
  have hfreed : FreedWhole t := by simpa [FreedWhole] using hall
  have hwhole := (freedWhole_iff (by decide) (fun _ s => s) () ht).mp hfreed
  exact ⟨t, ht, hlen, ((reads_prefix_of_stream (fun _ s => s) () ht).2 hq).mpr hwhole⟩

/-- Of a segment in two pbufs only the first is read; the queue is then empty. -/
theorem not_reads_prefix_of_stream :
    ¬∀ es : List TransportEvent, (∀ e ∈ es, OnConnection e) →
      ∀ t : Transport netclientQueueSize Unit,
        Runs.run transportStep (Transport.init (fun _ s => s) ()) (connectTransport ++ es) = some t →
          (reads t.world.lwip.log).flatten <+: (stream t.world.lwip.log).map some ∧
            (t.world.inst.queued = [] →
              (reads t.world.lwip.log).flatten = (stream t.world.lwip.log).map some) := by
  intro hall
  have hfacts : (Runs.run transportStep (Transport.init (N := netclientQueueSize) (fun _ s => s) ())
      (connectTransport ++ [.lwip (.receive 0 splitChain), .peek, .copy])).map
        (fun t => (t.world.inst.queued, reads t.world.lwip.log, stream t.world.lwip.log)) =
          some ([], [[some 32]], [32, 2]) := by
    decide +kernel
  obtain ⟨t, ht, hf⟩ := Option.map_eq_some_iff.mp hfacts
  obtain ⟨hq, hreads, hstream⟩ := by simpa only [Prod.mk.injEq] using hf
  have hon : ∀ e ∈ [TransportEvent.lwip (.receive 0 splitChain), .peek, .copy], OnConnection e := by
    simp [OnConnection]
  have heq := (hall _ hon t ht).2 hq
  rw [hreads, hstream] at heq
  simp at heq

end McuTest
