import McuTest.LoopInvariant
import McuTest.Receivers

/-! Reads across connections. The queue is the instance's and not the
connection's, and nothing empties it when a connection ends or begins. -/

namespace McuTest

/-- What a read returns is the payload of a pbuf accepted on the PCB of the
latest connection, and on no other. -/
def ReadsOwn (pre : List Action) : Action → Prop
  | .netRead pb buf => ∀ p, session pre = some p →
    (p, pb) ∈ accepted pre ∧ (∀ q, (q, pb) ∈ accepted pre → q = p) ∧ buf = pb.payload.map some
  | _ => True

def Isolated (log : List Action) : Prop :=
  Lifetime.Throughout ReadsOwn log

theorem session_append (l l' : List Action) :
    session (l ++ l') = (session l').or (session l) := by
  simp [session, List.getLast?_append]

theorem readsOwn_of_reads_nil {as : List Action} (h : reads as = []) :
    ∀ a ∈ as, ∀ pre, ReadsOwn pre a := by
  intro a ha pre
  cases a with
  | netRead pb buf =>
    have hm : buf ∈ reads as := List.mem_filterMap.mpr ⟨_, ha, rfl⟩
    simp [h] at hm
  | _ => trivial

theorem isolated_read {log : List Action} (h : Isolated log) {pb : Pbuf}
    (hown : ∀ p, session log = some p → (p, pb) ∈ accepted log)
    (hnodup : ((accepted log).map Prod.snd).Nodup) (hNet : Option Pcb) :
    Isolated (log ++ [.tcpRecved hNet pb.len, .pbufFree pb, .netRead pb (pb.payload.map some)]) := by
  let calls : List Action := [.tcpRecved hNet pb.len, .pbufFree pb]
  have hcalls : Isolated (log ++ calls) := Lifetime.Throughout.append h (readsOwn_of_reads_nil rfl)
  have haccepted : accepted (log ++ calls) = accepted log := by
    rw [accepted_append]
    exact List.append_nil _
  have hsession : session (log ++ calls) = session log := by
    rw [session_append]
    rfl
  have hread : ReadsOwn (log ++ calls) (.netRead pb (pb.payload.map some)) := by
    intro p hs
    rw [hsession] at hs
    rw [haccepted]
    have hmem := hown p hs
    refine ⟨hmem, fun q hm => ?_, rfl⟩
    have heq := List.inj_on_of_nodup_map hnodup hm hmem rfl
    exact congrArg Prod.fst heq
  have hall := Lifetime.throughout_append_singleton.mpr ⟨hcalls, hread⟩
  rw [List.append_assoc] at hall
  exact hall

section Net

variable {N : Nat} [NeZero N] {σ : Type} {w w' : World N σ}

def Fresh (w : World N σ) : Prop :=
  ∀ p, session w.lwip.log = some p → ∀ pb ∈ w.inst.queued, (p, pb) ∈ accepted w.lwip.log

/-- An empty first segment at the head: `net_GetReadLen` is 0, so nobody reads. -/
def Stuck (w : World N σ) : Prop :=
  ∃ pb rest, w.inst.queued = pb :: rest ∧ pb.len = 0

structure SessionOk (w : World N σ) : Prop where
  receives : ReceivesCurrent w
  current : ∀ p, w.inst.hNet = some p → session w.lwip.log = some p
  own : Fresh w ∨ Stuck w

theorem sessionOk_init (pfnEventCb : NetClientEvent → σ → σ) (app : σ) :
    SessionOk (World.init pfnEventCb app : World N σ) where
  receives := fun q hq => by simp [World.receives, World.init] at hq
  current := fun p hp => by simp [World.init, Net.init] at hp
  own := .inl fun p hp => by simp [World.init, session] at hp

theorem session_actions (w : World N σ) {e : NetEvent}
    (he : ∀ addr port closeErr, e ≠ .call (.connect addr port true .ok closeErr)) :
    session (w.actions e) = none := by
  by_cases hconn : ∃ addr port avail connErr closeErr,
      e = .call (.connect addr port avail connErr closeErr)
  · obtain ⟨addr, port, avail, connErr, closeErr, rfl⟩ := hconn
    cases avail with
    | false => rfl
    | true =>
      have hfail : connErr ≠ .ok := by
        rintro rfl
        exact he addr port closeErr rfl
      simp only [World.actions, connectCalls, if_true, if_neg hfail]
      rfl
  · exact session_actions_of_ne_connect w fun a b c d f hl => hconn ⟨a, b, c, d, f, hl⟩

theorem getReadLen_eq_zero (hN : N ≤ 256) (h : w.inst.RingOk) (hl : Net.getReadLen w.inst = 0) :
    w.inst.queued = [] ∨ Stuck w := by
  cases hq : w.inst.queued with
  | nil => exact .inl rfl
  | cons pb rest =>
    rw [Instance.getReadLen_cons hN h hq] at hl
    exact .inr ⟨pb, rest, hq, hl⟩

theorem SessionOk.connect (hN : N ≤ 256) (h : SessionOk w) (hok : NetOk w) {addr : IpAddr}
    {port : UInt16} {closeErr : ErrT}
    (hdown : ConnectsWhenDown w (.call (.connect addr port true .ok closeErr)))
    (hlen : Net.getReadLen w.inst = 0)
    (he : netStep w (.call (.connect addr port true .ok closeErr)) = some w') : SessionOk w' := by
  have heff := netStep_effect hN hok he
  have hqueue : w'.inst.queued = w.inst.queued := heff.queued
  refine ⟨h.receives.step hN hok hdown he, fun p hp => ?_, ?_⟩
  · rw [heff.hNet] at hp
    rw [heff.log, session_append, ← hp]
    rfl
  · rcases getReadLen_eq_zero hN hok.ring hlen with hq | ⟨pb, rest, hq, hpb⟩
    · exact .inl fun p _ pb hpb => by simp [hqueue, hq] at hpb
    · exact .inr ⟨pb, rest, hqueue.trans hq, hpb⟩

/-- What is queued is accepted on the current PCB, which is that of the session. -/
theorem Fresh.step (hN : N ≤ 256) (hf : Fresh w) (h : SessionOk w) (hok : NetOk w) {e : NetEvent}
    (hconn : ∀ addr port closeErr, e ≠ .call (.connect addr port true .ok closeErr))
    (hread : ∀ len, e ≠ .call (.readPacket len)) (he : netStep w e = some w') : Fresh w' := by
  have heff := netStep_effect hN hok he
  intro p hp pb hpb
  rw [heff.log, session_append, session_actions w hconn, Option.none_or] at hp
  rw [heff.log, accepted_append, List.mem_append]
  rw [heff.queued, queueAfter_of_ne_read w hread, List.mem_append] at hpb
  rcases hpb with hpb | hpb
  · exact .inl (hf p hp pb hpb)
  · obtain ⟨⟨q, pb⟩, hm, rfl⟩ := List.mem_map.mp hpb
    have harr : w.arriving e = some (q, pb) := by
      rw [accepted_actions] at hm
      split_ifs at hm with hfull
      · simp at hm
      · simpa using hm
    have hcur := h.current q (h.receives q (arriving_live he harr))
    obtain rfl : q = p := Option.some.inj (hcur.symm.trans hp)
    exact .inr hm

theorem SessionOk.other (hN : N ≤ 256) (h : SessionOk w) (hok : NetOk w) {e : NetEvent}
    (hdown : ConnectsWhenDown w e)
    (hconn : ∀ addr port closeErr, e ≠ .call (.connect addr port true .ok closeErr))
    (hread : ∀ len, e ≠ .call (.readPacket len)) (he : netStep w e = some w') : SessionOk w' := by
  have heff := netStep_effect hN hok he
  refine ⟨h.receives.step hN hok hdown he, fun p hp => ?_, ?_⟩
  · rw [heff.log, session_append, session_actions w hconn, Option.none_or]
    rw [heff.hNet] at hp
    rcases hNetAfter_cases w e with hk | hk | ⟨_, addr, port, closeErr, rfl⟩
    · exact h.current p (hk ▸ hp)
    · simp [hk] at hp
    · exact absurd rfl (hconn addr port closeErr)
  · rcases h.own with hf | ⟨pb, rest, hq, hpb⟩
    · exact .inl (hf.step hN h hok hconn hread he)
    · obtain ⟨more, hmore⟩ := queued_prefix hN hok he hread
      exact .inr ⟨pb, rest ++ more, by rw [← hmore, hq, List.cons_append], hpb⟩

theorem SessionOk.read (hN : N ≤ 256) (h : SessionOk w) (hok : NetOk w) {len : UInt16}
    (hf : Fresh w) (he : netStep w (.call (.readPacket len)) = some w') : SessionOk w' := by
  have heff := netStep_effect hN hok he
  have hdown : ConnectsWhenDown w (.call (.readPacket len)) := fun _ _ _ _ _ hl => by simp at hl
  have hsession : session w'.lwip.log = session w.lwip.log := by
    rw [heff.log, session_append, session_actions w (fun _ _ _ => by simp), Option.none_or]
  refine ⟨h.receives.step hN hok hdown he, fun p hp => ?_, .inl fun p hp pb hpb => ?_⟩
  · rw [hsession]
    exact h.current p (heff.hNet.symm.trans hp)
  · rw [heff.log, accepted_append]
    rw [hsession] at hp
    rw [heff.queued] at hpb
    exact List.mem_append_left _ (hf p hp pb (List.mem_of_mem_tail hpb))

theorem SessionOk.fresh {t : Transport N σ} (h : SessionOk t.world) (ht : TransportOk t)
    {len : UInt16} (hp : t.peeked = some len) : Fresh t.world := by
  refine h.own.resolve_right ?_
  rintro ⟨pb, rest, hq, hzero⟩
  obtain ⟨hne, pb', rest', hq', hlen⟩ := ht.head len hp
  obtain ⟨rfl, _⟩ := List.cons.inj (hq.symm.trans hq')
  exact hne (hlen.symm.trans hzero)

end Net

variable {s s' : Main}

def ConnectsClean (s : Main) : MainEvent → Prop
  | .exec ans => s.pc = .netConnect ∧ ans.avail = true ∧ ans.connErr = .ok →
    Net.getReadLen s.world.inst = 0
  | _ => True

instance (s : Main) : (e : MainEvent) → Decidable (ConnectsClean s e)
  | .exec ans =>
    inferInstanceAs (Decidable (s.pc = .netConnect ∧ ans.avail = true ∧ ans.connErr = .ok →
      Net.getReadLen s.world.inst = 0))
  | .transport _ | .lwip _ | .sysTick => isTrue trivial

structure IsolationInv (s : Main) : Prop extends LoopOk s where
  sessions : SessionOk s.world
  isolated : Isolated s.world.lwip.log

theorem isolationInv_init (clock : Clock) : IsolationInv (Main.init clock) :=
  { loopOk_init clock with
    sessions := sessionOk_init netEventCb {}
    isolated := Lifetime.throughout_nil }

theorem IsolationInv.read (h : IsolationInv s) {len : UInt16} (hp : s.net.peeked = some len)
    (hnet : netStep s.world (.call (.readPacket len)) = some s'.world) :
    SessionOk s'.world ∧ Isolated s'.world.lwip.log := by
  have hN : netclientQueueSize ≤ 256 := by decide
  have htransport : TransportOk s.net := h.toTransportOk
  have hfresh : Fresh s.net.world := SessionOk.fresh h.sessions htransport hp
  obtain ⟨pb, rest, hq, hacts⟩ := htransport.actions_copy hp
  have hlog : s'.world.lwip.log = s.net.world.lwip.log ++ _ := (netStep_effect hN h.netOk hnet).log
  have hown : ∀ p, session s.net.world.lwip.log = some p →
      (p, pb) ∈ accepted s.net.world.lwip.log :=
    fun p hs => hfresh p hs pb (by simp [hq])
  refine ⟨h.sessions.read hN h.netOk hfresh hnet, ?_⟩
  rw [hlog]
  exact hacts ▸ isolated_read h.isolated hown h.inv.accepted_nodup _

theorem IsolationInv.step (h : IsolationInv s) {e : MainEvent} (hclean : ConnectsClean s e)
    (he : mainStep s e = some s') : IsolationInv s' := by
  have hN : netclientQueueSize ≤ 256 := by decide
  suffices hnew : SessionOk s'.world ∧ Isolated s'.world.lwip.log from
    { h.toLoopOk.step he with sessions := hnew.1, isolated := hnew.2 }
  rcases mainStep_world he with ⟨d, hd, hnet⟩ | ⟨_, hi, hl⟩
  · have hdown := h.toLoopOk.connectsWhenDown he hd
    have hkeep : (∀ len, d ≠ .call (.readPacket len)) → SessionOk s'.world →
        SessionOk s'.world ∧ Isolated s'.world.lwip.log := by
      intro hread hs
      refine ⟨hs, ?_⟩
      rw [(netStep_effect hN h.netOk hnet).log]
      exact Lifetime.Throughout.append h.isolated
        (readsOwn_of_reads_nil (reads_actions_of_ne_read s.world hread).1)
    cases drives_of_netEvent he hd with
    | connect ans hpc =>
      refine hkeep (by simp) ?_
      by_cases hok : ans.avail = true ∧ ans.connErr = .ok
      · have hlen := hclean ⟨hpc, hok⟩
        rw [hok.1, hok.2] at hdown hnet
        exact h.sessions.connect hN h.netOk hdown hlen hnet
      · refine h.sessions.other hN h.netOk hdown (fun addr port closeErr hl => ?_) (by simp) hnet
        simp only [NetEvent.call.injEq, ApiCall.connect.injEq] at hl
        exact hok ⟨hl.2.2.1, hl.2.2.2.1⟩
    | read len _ hp => exact h.read hp hnet
    | _ =>
      have hother := h.sessions.other hN h.netOk hdown (by simp) (by simp) hnet
      exact hkeep (by simp) hother
  · refine ⟨⟨?_, ?_, ?_⟩, hl ▸ h.isolated⟩
    · intro q hq
      rw [hi]
      exact h.sessions.receives q (by simpa only [World.receives, hl] using hq)
    · rw [hi, hl]
      exact h.sessions.current
    · simpa only [Fresh, Stuck, hi, hl] using h.sessions.own

/-- As long as every connection starts with nothing to read, umqtt gets only
what the connection of its session has received. -/
theorem reads_of_current_session (clock : Clock) {es : List MainEvent} {s : Main}
    (hr : Runs.run mainStep (Main.init clock) es = some s)
    (hclean : Runs.AllSteps mainStep ConnectsClean (Main.init clock) es) :
    Isolated s.world.lwip.log := by
  have h : IsolationInv s :=
    Runs.run_invariant (fun _ _ _ hi hok he => IsolationInv.step hi hok he)
      (isolationInv_init clock) hclean hr
  exact h.isolated

/-- A session on `p`: inside `umqtt_Connect` a pbuf arrives, umqtt does what is
given and the peer closes. The loop goes on until its delay is over. -/
def shortSession (p : Pcb) (inUmqtt : List TransportEvent) : List MainEvent :=
  List.replicate 7 (MainEvent.exec { ipAddr := 1 }) ++ [MainEvent.lwip (.connected p)] ++
    List.replicate 3 (MainEvent.exec {}) ++
      [MainEvent.lwip (.receive p (.ofSegment [208, UInt8.ofNat p] (by simp)))] ++
        inUmqtt.map MainEvent.transport ++ [MainEvent.lwip (.peerClose p)] ++ List.replicate 16 (MainEvent.exec {}) ++
          List.replicate 300 MainEvent.sysTick ++ List.replicate 2 (MainEvent.exec {})

theorem reads_of_current_session_drained :
    ∃ s : Main, Runs.run mainStep (Main.init {})
        (shortSession 0 [.peek, .copy] ++ shortSession 1 [.peek, .copy]) = some s ∧
      session s.world.lwip.log = some 1 ∧
      reads s.world.lwip.log = [[some 208, some 0], [some 208, some 1]] ∧
      Isolated s.world.lwip.log := by
  have hfacts : (Runs.run mainStep (Main.init {})
      (shortSession 0 [.peek, .copy] ++ shortSession 1 [.peek, .copy])).map
        (fun s => (session s.world.lwip.log, reads s.world.lwip.log)) =
          some (some 1, [[some 208, some 0], [some 208, some 1]]) := by
    decide +kernel
  obtain ⟨s, hs, hf⟩ := Option.map_eq_some_iff.mp hfacts
  obtain ⟨hsession, hreads⟩ := Prod.mk.inj hf
  exact ⟨s, hs, hsession, hreads, reads_of_current_session {} hs (by decide +kernel)⟩

/-- The peer closes with a pbuf still queued, and the next session reads it. -/
def staleRead : List MainEvent :=
  shortSession 0 [] ++ List.replicate 7 (MainEvent.exec { ipAddr := 1 }) ++ [MainEvent.lwip (.connected 1)] ++
    List.replicate 3 (MainEvent.exec {}) ++ [MainEvent.transport .peek, MainEvent.transport .copy]

def stalePbuf : Pbuf :=
  pingresp 0

theorem not_reads_of_current_session :
    ¬∀ (clock : Clock) (es : List MainEvent) (s : Main),
      Runs.run mainStep (Main.init clock) es = some s → Isolated s.world.lwip.log := by
  intro hall
  have hfacts : (Runs.run mainStep (Main.init {}) staleRead).map (fun s =>
      (s.world.lwip.log.getLast?, session s.world.lwip.log.dropLast,
        (accepted s.world.lwip.log.dropLast).map Prod.fst)) =
          some (some (.netRead stalePbuf [some 208, some 0]), some 1, [0]) := by
    decide +kernel
  obtain ⟨s, hs, hf⟩ := Option.map_eq_some_iff.mp hfacts
  simp only [Prod.mk.injEq] at hf
  obtain ⟨hlast, hsession, howners⟩ := hf
  have hlog := List.dropLast_append_getLast? _ hlast
  have hread := hall {} staleRead s hs _ _ [] hlog.symm
  have hmem := List.mem_map_of_mem (f := Prod.fst) (hread 1 hsession).1
  simp [howners] at hmem

end McuTest
