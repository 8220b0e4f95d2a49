import McuTest.NetHandover

/-! The transport functions that umqtt reads and writes with. lwIP may run
between the statements of `netReadPacket`. -/

namespace McuTest

variable {N : Nat} [NeZero N] {σ : Type}

/-- `netReadPacket`, with the block behind `*ppBuf` where it is set. `avail` is
the answer of the allocator. -/
def netReadPacket (w : World N σ) (avail : Bool) : UInt16 × Option Mem × World N σ :=
  let len := Net.getReadLen w.inst
  if len ≠ 0 then
    if avail then
      let r := Net.readPacket w .inst (some (freshMem len)) len
      (UInt16.ofInt r.1, r.2.1, r.2.2)
    else (len, none, w)
  else (len, none, w)

/-- `peeked` is the length that `netReadPacket` is about to allocate. -/
structure Transport (N : Nat) (σ : Type) where
  world : World N σ
  peeked : Option UInt16 := none

inductive TransportEvent where
  | call (c : ApiCall)
  | lwip (e : LwipEvent)
  | peek
  | copy
  | allocFail
  deriving DecidableEq

/-- The application makes no other call inside `netReadPacket`, and reads
through it only. -/
def transportStep (t : Transport N σ) : TransportEvent → Option (Transport N σ)
  | .call (.readPacket _) => none
  | .call c => if t.peeked = none then some { t with world := callStep t.world c } else none
  | .lwip e => (lwipStep t.world e).map fun w => { t with world := w }
  | .peek =>
    if t.peeked = none then
      let len := Net.getReadLen t.world.inst
      some { t with peeked := if len ≠ 0 then some len else none }
    else none
  | .copy => t.peeked.map fun len => { world := callStep t.world (.readPacket len) }
  | .allocFail => if t.peeked = none then none else some { t with peeked := none }

def Transport.init (pfnEventCb : NetClientEvent → σ → σ) (app : σ) : Transport N σ where
  world := World.init pfnEventCb app

variable {t t' : Transport N σ}

theorem transportStep_call {c : ApiCall} (he : transportStep t (.call c) = some t') :
    t.peeked = none ∧ (∀ len, c ≠ .readPacket len) ∧
      t' = { t with world := callStep t.world c } := by
  cases c with
  | readPacket len => simp [transportStep] at he
  | _ =>
    simp only [transportStep, Option.ite_none_right_eq_some, Option.some.injEq] at he
    exact ⟨he.1, by simp, he.2.symm⟩

def Transport.netEvent (t : Transport N σ) : TransportEvent → Option NetEvent
  | .call c => some (.call c)
  | .lwip e => some (.lwip e)
  | .copy => t.peeked.map fun len => .call (.readPacket len)
  | .peek | .allocFail => none

theorem transportStep_net {e : TransportEvent} (he : transportStep t e = some t') :
    (∃ d, t.netEvent e = some d ∧ netStep t.world d = some t'.world) ∨
      t.netEvent e = none ∧ t'.world = t.world := by
  cases e with
  | call c =>
    obtain ⟨_, _, rfl⟩ := transportStep_call he
    exact .inl ⟨.call c, rfl, rfl⟩
  | lwip e =>
    obtain ⟨w, hw, rfl⟩ := Option.map_eq_some_iff.mp he
    exact .inl ⟨.lwip e, rfl, hw⟩
  | peek =>
    simp only [transportStep, Option.ite_none_right_eq_some, Option.some.injEq] at he
    exact .inr ⟨rfl, by rw [← he.2]⟩
  | copy =>
    obtain ⟨len, hlen, rfl⟩ := Option.map_eq_some_iff.mp he
    exact .inl ⟨.call (.readPacket len), by simp [Transport.netEvent, hlen], rfl⟩
  | allocFail =>
    simp only [transportStep, Option.ite_none_left_eq_some, Option.some.injEq] at he
    exact .inr ⟨rfl, by rw [← he.2]⟩

theorem netEvent_ne_read {e : TransportEvent} (he : transportStep t e = some t') (hc : e ≠ .copy)
    {d : NetEvent} (hd : t.netEvent e = some d) : ∀ len, d ≠ .call (.readPacket len) := by
  intro len hr
  cases e with
  | call c =>
    obtain rfl := Option.some.inj hd
    exact (transportStep_call he).2.1 len (NetEvent.call.inj hr)
  | lwip e =>
    obtain rfl := Option.some.inj hd
    simp at hr
  | copy => exact hc rfl
  | peek => simp [Transport.netEvent] at hd
  | allocFail => simp [Transport.netEvent] at hd

/-- While a length is peeked, the pbuf it was read from stays at the head. -/
structure TransportOk (t : Transport N σ) : Prop extends HandoverOk t.world where
  head : ∀ len, t.peeked = some len →
    len ≠ 0 ∧ ∃ pb rest, t.world.inst.queued = pb :: rest ∧ pb.len = len
  copies : reads t.world.lwip.log =
    (freedPbufs t.world.lwip.log).map fun pb => pb.payload.map some

theorem transportOk_init (pfnEventCb : NetClientEvent → σ → σ) (app : σ) :
    TransportOk (Transport.init pfnEventCb app : Transport N σ) :=
  { handoverOk_init pfnEventCb app with
    head := fun len hl => by simp [Transport.init] at hl
    copies := rfl }

theorem queued_prefix {w w' : World N σ} (hN : N ≤ 256) (h : NetOk w) {e : NetEvent}
    (he : netStep w e = some w') (hread : ∀ len, e ≠ .call (.readPacket len)) :
    w.inst.queued <+: w'.inst.queued := by
  rw [(netStep_effect hN h he).queued, queueAfter_of_ne_read w hread]
  exact List.prefix_append _ _

theorem TransportOk.of_not_read (hN : N ≤ 256) (h : TransportOk t) {e : NetEvent}
    (he : netStep t.world e = some t'.world) (hread : ∀ len, e ≠ .call (.readPacket len))
    (hp : t'.peeked = t.peeked) : TransportOk t' := by
  have hlog := (netStep_effect hN h.net he).log
  obtain ⟨hr, hf⟩ := reads_actions_of_ne_read t.world hread
  refine { h.toHandoverOk.step hN he with head := fun len hl => ?_, copies := ?_ }
  · obtain ⟨hne, pb, rest, hq, hpb⟩ := h.head len (hp ▸ hl)
    obtain ⟨more, hmore⟩ := queued_prefix hN h.net he hread
    exact ⟨hne, pb, rest ++ more, by rw [← hmore, hq, List.cons_append], hpb⟩
  · rw [hlog, reads_append, freedPbufs_append, hr, hf, List.append_nil, List.append_nil]
    exact h.copies

theorem TransportOk.peek (hN : N ≤ 256) (h : TransportOk t)
    (he : transportStep t .peek = some t') : TransportOk t' := by
  simp only [transportStep, Option.ite_none_right_eq_some, Option.some.injEq] at he
  obtain ⟨_, rfl⟩ := he
  refine { h with head := fun len hl => ?_ }
  cases hq : t.world.inst.queued with
  | nil =>
    have hlen := Instance.getReadLen_nil h.net.ring hq
    simp [hlen] at hl
  | cons pb rest =>
    have hlen := Instance.getReadLen_cons hN h.net.ring hq
    simp only [hlen, ne_eq, ite_not, Option.ite_none_left_eq_some, Option.some.injEq] at hl
    exact ⟨hl.2 ▸ hl.1, pb, rest, rfl, hl.2⟩

theorem TransportOk.actions_copy (h : TransportOk t) {len : UInt16} (hp : t.peeked = some len) :
    ∃ pb rest, t.world.inst.queued = pb :: rest ∧
      t.world.actions (.call (.readPacket len)) =
        [.tcpRecved t.world.inst.hNet pb.len, .pbufFree pb, .netRead pb (pb.payload.map some)] := by
  obtain ⟨_, pb, rest, hq, rfl⟩ := h.head len hp
  refine ⟨pb, rest, hq, ?_⟩
  simp only [World.actions, hq, pb.takenBytes_len]

theorem TransportOk.copy (hN : N ≤ 256) (h : TransportOk t)
    (he : transportStep t .copy = some t') : TransportOk t' := by
  obtain ⟨len, hp, rfl⟩ := Option.map_eq_some_iff.mp he
  have hstep : netStep t.world (.call (.readPacket len)) =
      some (callStep t.world (.readPacket len)) := rfl
  obtain ⟨pb, rest, _, hacts⟩ := h.actions_copy hp
  have hlog := (netStep_effect hN h.net hstep).log
  refine { h.toHandoverOk.step hN hstep with head := fun l hl => by simp at hl, copies := ?_ }
  rw [hlog, hacts, reads_append, freedPbufs_append, h.copies, List.map_append]
  rfl

theorem TransportOk.step (hN : N ≤ 256) (h : TransportOk t) {e : TransportEvent}
    (he : transportStep t e = some t') : TransportOk t' := by
  cases e with
  | call c =>
    obtain ⟨_, hread, rfl⟩ := transportStep_call he
    exact h.of_not_read (e := .call c) hN rfl (fun len hl => hread len (NetEvent.call.inj hl)) rfl
  | lwip e =>
    obtain ⟨w, hw, rfl⟩ := Option.map_eq_some_iff.mp he
    exact h.of_not_read (e := .lwip e) hN hw (fun len => by simp) rfl
  | peek => exact h.peek hN he
  | copy => exact h.copy hN he
  | allocFail =>
    simp only [transportStep, Option.ite_none_left_eq_some, Option.some.injEq] at he
    obtain ⟨_, rfl⟩ := he
    exact { h with head := fun len hl => by simp at hl }

theorem ofInt_toNat (n : UInt16) : UInt16.ofInt (n.toNat : Int) = n := by
  apply UInt16.toNat_inj.mp
  have hlt := n.toNat_lt
  simp only [UInt16.ofInt, UInt16.toNat_ofNat']
  omega

theorem readPacket_head {w : World N σ} (hN : N ≤ 256) (h : w.inst.RingOk) {pb : Pbuf}
    {rest : List Pbuf} (hq : w.inst.queued = pb :: rest) :
    Net.readPacket w .inst (some (freshMem pb.len)) pb.len =
      ((pb.len.toNat : Int), some (pb.payload.map some), w.taken pb) := by
  have hno : ¬pb.len > pb.len := UInt16.lt_irrefl _
  have htake : pb.payload.take pb.len.toNat = pb.payload := by
    rw [Pbuf.len_toNat, List.take_length]
  have hdrop : (freshMem pb.len).drop pb.payload.length = [] := by
    simp [freshMem]
  simp only [readPacket_cons hN h hq, hno, if_false, htake, Net.memcpy, hdrop, List.append_nil]

theorem netReadPacket_head {w : World N σ} (hN : N ≤ 256) (h : w.inst.RingOk) {pb : Pbuf}
    {rest : List Pbuf} (hq : w.inst.queued = pb :: rest) (hl : pb.len ≠ 0) :
    netReadPacket w true = (pb.len, some (pb.payload.map some), w.taken pb) := by
  simp only [netReadPacket, Instance.getReadLen_cons hN h hq, hl, ne_eq, not_false_eq_true, if_true,
    readPacket_head hN h hq, ofInt_toNat]

/-- With nothing in between, `peek` and `copy` are `netReadPacket`. -/
theorem netReadPacket_uninterrupted (hN : N ≤ 256) (h : TransportOk t) (hp : t.peeked = none)
    {pb : Pbuf} {rest : List Pbuf} (hq : t.world.inst.queued = pb :: rest) (hl : pb.len ≠ 0) :
    netReadPacket t.world true = (pb.len, some (pb.payload.map some), t.world.taken pb) ∧
      Runs.run transportStep t [.peek, .copy] =
        some { world := (t.world.taken pb).note (.netRead pb (pb.payload.map some)) } := by
  have hlen := Instance.getReadLen_cons hN h.net.ring hq
  have hcall := callStep_read_cons hN h.net.ring hq pb.len
  rw [pb.takenBytes_len] at hcall
  refine ⟨netReadPacket_head hN h.net.ring hq hl, ?_⟩
  simp [Runs.run, transportStep, hp, hlen, hl, hcall]

def connectTransport : List TransportEvent :=
  [.call (.connect ⟨10, 0, 0, 12⟩ 1883 true .ok .ok), .lwip (.connected 0)]

end McuTest
