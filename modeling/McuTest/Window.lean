import McuTest.NetHandover

/-! The receive window given back to the peer. `net_ReadPacket` credits the
length of the first segment to whatever PCB is current. -/

namespace McuTest

section Owners

variable {α β : Type*} [DecidableEq α] [DecidableEq β]

theorem filter_owner_append {queue : List β} {owned new : List (α × β)}
    (hnd : ((owned ++ new).map Prod.snd).Nodup) (hq : ∀ b ∈ queue, b ∈ owned.map Prod.snd)
    (a : α) :
    ((queue ++ new.map Prod.snd).filter fun b => (a, b) ∈ owned ++ new) =
      (queue.filter fun b => (a, b) ∈ owned) ++
        (new.filter fun x => x.1 = a).map Prod.snd := by
  rw [List.map_append, List.nodup_append] at hnd
  obtain ⟨_, hnew, hdisj⟩ := hnd
  have hsep : ∀ b, b ∈ owned.map Prod.snd → (a, b) ∉ new := by
    intro b hb hm
    exact hdisj b hb b (List.mem_map_of_mem (f := Prod.snd) hm) rfl
  rw [List.filter_append, List.filter_map]
  congr 1
  · refine List.filter_congr fun b hb => ?_
    simp [hsep b (hq b hb)]
  · congr 1
    refine List.filter_congr fun x hx => ?_
    have hno : (a, x.2) ∉ owned := by
      intro hm
      have howned : x.2 ∈ owned.map Prod.snd := List.mem_map.mpr ⟨(a, x.2), hm, rfl⟩
      exact hdisj x.2 howned x.2 (List.mem_map_of_mem hx) rfl
    have hiff : (a, x.2) ∈ new ↔ x.1 = a := by
      constructor
      · intro hm
        have he := List.inj_on_of_nodup_map hnew hx hm rfl
        rw [he]
      · intro he
        rw [← he]
        exact hx
    simp [hno, hiff]

end Owners

variable {N : Nat} [NeZero N] {σ : Type} {w w' : World N σ}

def bytesOn (p : Pcb) (xs : List (Pcb × Pbuf)) : Nat :=
  ((xs.filter fun x => x.1 = p).map fun x => x.2.totLen.toNat).sum

def World.queuedOn (w : World N σ) (p : Pcb) : List Pbuf :=
  w.inst.queued.filter fun pb => (p, pb) ∈ accepted w.lwip.log

/-- The credit given for the current PCB and the bytes still queued from it
make up the bytes accepted on it. -/
def Credit (w : World N σ) : Prop :=
  ∀ p, w.inst.hNet = some p →
    recved p w.lwip.log + ((w.queuedOn p).map fun pb => pb.totLen.toNat).sum =
      bytesOn p (accepted w.lwip.log)

/-- A read takes a pbuf of the current PCB whose first segment is all of it,
or one of an earlier PCB whose first segment is empty. -/
def CreditsAll (w : World N σ) (e : NetEvent) : Prop :=
  ∀ len pb rest p, e = .call (.readPacket len) → w.inst.queued = pb :: rest →
    w.inst.hNet = some p →
      if (p, pb) ∈ accepted w.lwip.log then pb.len = pb.totLen else pb.len = 0

structure WindowOk (w : World N σ) : Prop extends HandoverOk w where
  owners : ∀ x ∈ accepted w.lwip.log, x.1 ∈ allocated w.lwip.log
  credited : ∀ p, p ∉ allocated w.lwip.log → recved p w.lwip.log = 0

theorem windowOk_init (pfnEventCb : NetClientEvent → σ → σ) (app : σ) :
    WindowOk (World.init pfnEventCb app : World N σ) :=
  { handoverOk_init pfnEventCb app with
    owners := fun x hx => by simp [World.init, accepted] at hx
    credited := fun p _ => rfl }

theorem recved_read (w : World N σ) {pb : Pbuf} {rest : List Pbuf}
    (hq : w.inst.queued = pb :: rest) (len : UInt16) (p : Pcb) :
    recved p (w.actions (.call (.readPacket len))) =
      if w.inst.hNet = some p then pb.len.toNat else 0 := by
  cases h : w.inst.hNet with
  | none => simp [World.actions, hq, h, recved]
  | some q => by_cases he : q = p <;> simp [World.actions, hq, h, recved, he]

theorem WindowOk.step (hN : N ≤ 256) (h : WindowOk w) {e : NetEvent}
    (he : netStep w e = some w') : WindowOk w' := by
  have hlog := (netStep_effect hN h.net he).log
  refine { h.toHandoverOk.step hN he with owners := fun x hx => ?_, credited := fun p hp => ?_ }
  · rw [hlog, accepted_append, List.mem_append] at hx
    rw [hlog, allocated_append]
    refine List.mem_append_left _ ?_
    rcases hx with hx | hx
    · exact h.owners x hx
    · rw [accepted_actions] at hx
      split_ifs at hx with hfull
      · simp at hx
      · have ha : w.arriving e = some (x.1, x.2) := by simpa using hx
        have hlive := (arriving_live he ha).1
        exact ((h.net.table.live_iff x.1).mp hlive).1
  · rw [hlog, allocated_append, List.mem_append, not_or] at hp
    rw [hlog, recved_append, h.credited p hp.1, Nat.zero_add]
    by_cases hread : ∃ len, e = .call (.readPacket len)
    · obtain ⟨len, rfl⟩ := hread
      cases hq : w.inst.queued with
      | nil => simp [World.actions, hq, recved]
      | cons pb rest =>
        have hne : w.inst.hNet ≠ some p := fun hn => hp.1 (h.net.alloc p hn)
        rw [recved_read w hq, if_neg hne]
    · exact recved_actions_of_ne_read w (fun len hl => hread ⟨len, hl⟩) p

theorem credit_read (hN : N ≤ 256) (h : WindowOk w) (hc : Credit w) {len : UInt16}
    (he : netStep w (.call (.readPacket len)) = some w') :
    Credit w' ↔ CreditsAll w (.call (.readPacket len)) := by
  obtain ⟨hlog, hnet, hqueue⟩ := netStep_effect hN h.net he
  have hacc : accepted w'.lwip.log = accepted w.lwip.log := by
    rw [hlog, accepted_append, accepted_actions]
    simp [World.arriving]
  change w'.inst.hNet = w.inst.hNet at hnet
  change w'.inst.queued = w.inst.queued.tail at hqueue
  cases hq : w.inst.queued with
  | nil =>
    refine iff_of_true ?_ (by simp [CreditsAll, hq])
    have hsame : w'.lwip.log = w.lwip.log := by simp [hlog, World.actions, hq]
    intro p hp
    have hcp := hc p (hnet ▸ hp)
    simpa [World.queuedOn, hsame, hqueue, hq] using hcp
  | cons pb rest =>
    cases hcur : w.inst.hNet with
    | none => exact iff_of_true (fun p hp => by simp [hnet, hcur] at hp) (by simp [CreditsAll, hcur])
    | some p =>
      have hcp := hc p hcur
      have hrec : recved p w'.lwip.log = recved p w.lwip.log + pb.len.toNat := by
        rw [hlog, recved_append, recved_read w hq, if_pos hcur]
      have hgoal : Credit w' ↔ recved p w.lwip.log + pb.len.toNat +
          ((rest.filter fun x => (p, x) ∈ accepted w.lwip.log).map fun x => x.totLen.toNat).sum =
            bytesOn p (accepted w.lwip.log) := by
        simp only [Credit, World.queuedOn, hnet, hcur, hqueue, hq, hacc, List.tail_cons,
          Option.some.injEq, forall_eq', hrec]
      have hok : CreditsAll w (.call (.readPacket len)) ↔
          if (p, pb) ∈ accepted w.lwip.log then pb.len = pb.totLen else pb.len = 0 := by
        simp only [CreditsAll, hq, hcur]
        constructor
        · intro hall
          exact hall len pb rest p rfl rfl rfl
        · rintro hif _ _ _ _ _ hl hs
          obtain ⟨rfl, rfl⟩ := List.cons.inj hl
          exact Option.some.inj hs ▸ hif
      rw [hgoal, hok]
      simp only [World.queuedOn, hq, List.filter_cons] at hcp
      split_ifs with hm
      · have hlen : pb.len = pb.totLen ↔ pb.len.toNat = pb.totLen.toNat := UInt16.toNat_inj.symm
        simp only [hm, decide_true, if_true, List.map_cons, List.sum_cons] at hcp
        rw [hlen]
        omega
      · have hlen : pb.len = 0 ↔ pb.len.toNat = 0 := UInt16.toNat_inj.symm
        simp only [hm, decide_false, Bool.false_eq_true, if_false] at hcp
        rw [hlen]
        omega

theorem credit_of_kept (hN : N ≤ 256) (h : WindowOk w) (hc : Credit w) {e : NetEvent}
    (he : netStep w e = some w') (hread : ∀ len, e ≠ .call (.readPacket len))
    (hkeep : w.hNetAfter e = w.inst.hNet) : Credit w' := by
  obtain ⟨hlog, hnet, hqueue⟩ := netStep_effect hN h.net he
  have hw' := h.step hN he
  have hacc : accepted w'.lwip.log = accepted w.lwip.log ++ accepted (w.actions e) := by
    rw [hlog, accepted_append]
  have hnd : ((accepted w.lwip.log ++ accepted (w.actions e)).map Prod.snd).Nodup := by
    rw [← hacc]
    exact hw'.inv.accepted_nodup
  have hmem : ∀ pb ∈ w.inst.queued, pb ∈ (accepted w.lwip.log).map Prod.snd :=
    fun pb hpb => h.inv.mem_accepted.mpr (.inr hpb)
  intro p hp
  rw [hnet, hkeep] at hp
  have hcp := hc p hp
  have hrec : recved p w'.lwip.log = recved p w.lwip.log := by
    rw [hlog, recved_append, recved_actions_of_ne_read w hread, Nat.add_zero]
  rw [queueAfter_of_ne_read w hread] at hqueue
  have hon : w'.queuedOn p =
      w.queuedOn p ++ ((accepted (w.actions e)).filter fun x => x.1 = p).map Prod.snd := by
    simp only [World.queuedOn, hqueue, hacc]
    exact filter_owner_append hnd hmem p
  rw [hrec, hon, hacc]
  simp only [bytesOn, List.filter_append, List.map_append, List.sum_append, List.map_map] at hcp ⊢
  rw [← hcp, Nat.add_assoc]
  rfl

theorem credit_of_connect (hN : N ≤ 256) (h : WindowOk w) {addr : IpAddr} {port : UInt16}
    {closeErr : ErrT} (he : netStep w (.call (.connect addr port true .ok closeErr)) = some w') :
    Credit w' := by
  have hfresh : w.lwip.nextPcb ∉ allocated w.lwip.log :=
    fun hm => Nat.lt_irrefl _ (h.net.table.fresh _ hm)
  have heff := netStep_effect hN h.net he
  have hacc : accepted w'.lwip.log = accepted w.lwip.log := by
    rw [heff.log, accepted_append, accepted_actions]
    simp [World.arriving]
  have hnone : ∀ pb, (w.lwip.nextPcb, pb) ∉ accepted w.lwip.log :=
    fun pb hm => hfresh (h.owners _ hm)
  have hon : ∀ x ∈ accepted w.lwip.log, ¬x.1 = w.lwip.nextPcb :=
    fun x hx hp => hfresh (hp ▸ h.owners x hx)
  intro p hp
  rw [heff.hNet] at hp
  obtain rfl : w.lwip.nextPcb = p := Option.some.inj hp
  rw [heff.log, recved_append, h.credited _ hfresh,
    recved_actions_of_ne_read w (fun len => by simp), ← heff.log, hacc]
  simp only [World.queuedOn, hacc, hnone, decide_false, List.filter_false, List.map_nil,
    List.sum_nil, bytesOn]
  rw [List.filter_eq_nil_iff.mpr fun x hx => by simpa using hon x hx]
  rfl

theorem credit_step (hN : N ≤ 256) (h : WindowOk w) (hc : Credit w) {e : NetEvent}
    (he : netStep w e = some w') : Credit w' ↔ CreditsAll w e := by
  by_cases hread : ∃ len, e = .call (.readPacket len)
  · obtain ⟨len, rfl⟩ := hread
    exact credit_read hN h hc he
  · have hno : ∀ len, e ≠ .call (.readPacket len) := fun len hl => hread ⟨len, hl⟩
    refine iff_of_true ?_ fun len _ _ _ hl => absurd hl (hno len)
    rcases hNetAfter_cases w e with hkeep | hnone | ⟨_, addr, port, closeErr, rfl⟩
    · exact credit_of_kept hN h hc he hno hkeep
    · intro p hp
      simp [(netStep_effect hN h.net he).hNet, hnone] at hp
    · exact credit_of_connect hN h he

/-- The window credit is right in every state of a run exactly when every read
credits what it takes from the current connection, and nothing else. -/
theorem credit_iff_credits_all {σ : Type} (pfnEventCb : NetClientEvent → σ → σ) (app : σ)
    (es : List NetEvent) :
    Runs.AllStates netStep Credit (World.init pfnEventCb app : World netclientQueueSize σ) es ↔
      Runs.AllSteps netStep CreditsAll
        (World.init pfnEventCb app : World netclientQueueSize σ) es := by
  have hN : netclientQueueSize ≤ 256 := by decide
  have hstart : Credit (World.init pfnEventCb app : World netclientQueueSize σ) :=
    fun p hp => by simp [World.init, Net.init] at hp
  exact Runs.allStates_iff_allSteps (fun _ _ _ hi he => WindowOk.step hN hi he)
    (fun _ _ _ hi hc he => credit_step hN hi hc he) (windowOk_init pfnEventCb app) hstart

theorem Credit.drained (h : Credit w) (hq : w.inst.queued = []) {p : Pcb}
    (hp : w.inst.hNet = some p) : recved p w.lwip.log = bytesOn p (accepted w.lwip.log) := by
  have hc := h p hp
  simpa [World.queuedOn, hq] using hc

/-- One of the two bytes is credited, and the queue is empty. -/
theorem not_credit_split_chain :
    ¬∀ es : List NetEvent, Runs.AllStates netStep Credit
      (World.init (fun _ s => s) () : World netclientQueueSize Unit) es := by
  intro hall
  have hfacts : (Runs.run netStep (World.init (N := netclientQueueSize) (fun _ s => s) ())
      (connectEvents ++ [.lwip (.receive 0 splitChain), .call (.readPacket 1)])).map
        (fun w => (w.inst.hNet, w.inst.queued, recved 0 w.lwip.log,
          bytesOn 0 (accepted w.lwip.log))) = some (some 0, [], 1, 2) := by
    decide +kernel
  obtain ⟨w, hw, hf⟩ := Option.map_eq_some_iff.mp hfacts
  obtain ⟨hnet, hq, hr, hb⟩ := by simpa using hf
  have hc := ((hall _).last hw).drained hq hnet
  omega

end McuTest
