import McuTest.NetHandover
import McuTest.PacketRead
import McuTest.Progress

/-! A pbuf that the full queue refuses is not left waiting: one read makes room,
one redelivery queues it, and at most `N - 1` further reads take it out. -/

namespace McuTest

open History Progress Runs

variable {N : Nat} [NeZero N] {σ : Type}

def NetEvent.isRead : NetEvent → Bool
  | .call (.readPacket _) => true
  | _ => false

def NetEvent.isRedeliver : NetEvent → Bool
  | .lwip .redeliver => true
  | _ => false

def KeepsHeld (_ : World N σ) (e : NetEvent) : Prop :=
  e ≠ .lwip .giveUp

def World.Taken (w : World N σ) (pb : Pbuf) : Prop :=
  pb ∈ w.inst.queued ∨ pb ∈ freedPbufs w.lwip.log

instance (w : World N σ) (pb : Pbuf) : Decidable (w.Taken pb) :=
  inferInstanceAs (Decidable (_ ∨ _))

variable {w w' : World N σ} {p : Pcb} {pb : Pbuf} {e : NetEvent}

theorem freedPbufs_step (hN : N ≤ 256) (h : NetOk w) (he : netStep w e = some w') :
    freedPbufs w'.lwip.log = freedPbufs w.lwip.log ++ freedPbufs (w.actions e) := by
  rw [(netStep_effect hN h he).log, freedPbufs_append]

theorem exists_len_of_isRead (he : e.isRead = true) : ∃ len, e = .call (.readPacket len) := by
  rcases e with c | e
  · cases c with
    | readPacket len => exact ⟨len, rfl⟩
    | _ => simp [NetEvent.isRead] at he
  · simp [NetEvent.isRead] at he

/-- A read takes out the pbuf or brings it one place forward; nothing else moves it. -/
theorem queued_step (hN : N ≤ 256) (h : NetOk w) (hpb : pb ∈ w.inst.queued)
    (he : netStep w e = some w') :
    pb ∈ freedPbufs w'.lwip.log ∨
      pb ∈ w'.inst.queued ∧
        w'.inst.queued.idxOf pb + (if e.isRead then 1 else 0) ≤ w.inst.queued.idxOf pb := by
  have hqueued := (netStep_effect hN h he).queued
  cases hread : e.isRead with
  | true =>
    obtain ⟨len, rfl⟩ := exists_len_of_isRead hread
    cases hq : w.inst.queued with
    | nil => simp [hq] at hpb
    | cons q rest =>
      by_cases heq : q = pb
      · left
        rw [freedPbufs_step hN h he]
        simp [World.actions, hq, heq, freedPbufs]
      · right
        have hrest : pb ∈ rest := by
          rw [hq] at hpb
          exact (List.mem_cons.mp hpb).resolve_left (Ne.symm heq)
        have hq' : w'.inst.queued = rest := by simpa [World.queueAfter, hq] using hqueued
        rw [hq', List.idxOf_cons_ne rest heq]
        exact ⟨hrest, by simp⟩
  | false =>
    right
    have hno : ∀ len, e ≠ .call (.readPacket len) := by
      rintro len rfl
      simp [NetEvent.isRead] at hread
    rw [queueAfter_of_ne_read w hno] at hqueued
    rw [hqueued, List.idxOf_append_of_mem hpb]
    exact ⟨List.mem_append_left _ hpb, by simp⟩

theorem freed_step (hN : N ≤ 256) (h : NetOk w) (hf : pb ∈ freedPbufs w.lwip.log)
    (he : netStep w e = some w') : pb ∈ freedPbufs w'.lwip.log := by
  rw [freedPbufs_step hN h he]
  exact List.mem_append_left _ hf

theorem World.Taken.step (hN : N ≤ 256) (h : NetOk w) (ht : w.Taken pb)
    (he : netStep w e = some w') : w'.Taken pb := by
  rcases ht with hq | hf
  · rcases queued_step hN h hq he with hfreed | ⟨hqueued, _⟩
    · exact .inr hfreed
    · exact .inl hqueued
  · exact .inr (freed_step hN h hf he)

/-- With at most `N - 1` pbufs in the queue, as many reads take out any of them. -/
theorem leads_freed (hN : N ≤ 256) (pb : Pbuf) :
    Leads netStep NetEvent.isRead (fun _ _ => True) (N - 1)
      (fun w : World N σ => NetOk w ∧ w.Taken pb)
      (fun w => NetOk w ∧ pb ∈ freedPbufs w.lwip.log) := by
  apply leads_of_rank (fun w => NetOk w ∧ w.Taken pb)
    fun w => if pb ∈ freedPbufs w.lwip.log then 0 else w.inst.queued.idxOf pb + 1
  · intro w ⟨h, _⟩ hzero
    refine ⟨h, ?_⟩
    by_contra hno
    simp [hno] at hzero
  · intro w e w' ⟨h, ht⟩ hnever _ he
    have hno : pb ∉ freedPbufs w.lwip.log := fun hfreed => hnever ⟨h, hfreed⟩
    refine ⟨⟨h.step hN he, ht.step hN h he⟩, ?_⟩
    have hone : (if e.isRead then 1 else 0) ≤ 1 := by split_ifs <;> omega
    rw [if_neg hno]
    by_cases hfreed : pb ∈ freedPbufs w'.lwip.log
    · rw [if_pos hfreed]
      omega
    · have hplace := (queued_step hN h (ht.resolve_right hno) he).resolve_left hfreed
      rw [if_neg hfreed]
      omega
  · intro w ⟨h, ht⟩
    refine ⟨⟨h, ht⟩, ?_⟩
    split_ifs with hfreed
    · exact Nat.zero_le _
    · have hlt := List.idxOf_lt_length_of_mem (ht.resolve_right hfreed)
      have hlen := h.ring.length_queued_lt
      omega

/-- lwIP holds the pbuf, and the queue has room for it. -/
def World.HeldWithRoom (w : World N σ) (p : Pcb) (pb : Pbuf) : Prop :=
  w.lwip.refused = some (p, pb) ∧ ¬w.full

/-- While lwIP holds a pbuf nothing else gets into the queue. -/
theorem held_step (hN : N ≤ 256) (h : NetOk w) (hheld : w.lwip.refused = some (p, pb))
    (hkeep : KeepsHeld w e) (he : netStep w e = some w') :
    w'.Taken pb ∨ w'.lwip.refused = some (p, pb) ∧ (e.isRedeliver = true → w.full) ∧
      w'.inst.queued = if e.isRead then w.inst.queued.tail else w.inst.queued := by
  have heff := netStep_effect hN h he
  have hrefused := heff.refused
  have hqueued := heff.queued
  cases e with
  | call c =>
    have hno : (NetEvent.call c).isRedeliver ≠ true := by simp [NetEvent.isRedeliver]
    cases c <;> exact .inr ⟨hrefused.trans hheld, fun hre => absurd hre hno, hqueued⟩
  | lwip e =>
    cases e with
    | receive q chain =>
      have hfires : lwipStep w (.receive q chain) = some w' := he
      cases fires_of_lwipStep hfires with
      | receive _ _ _ hnone => simp [hnone] at hheld
    | redeliver =>
      simp only [World.queueAfter, hheld] at hqueued
      simp only [World.refusedAfter, hheld] at hrefused
      by_cases hfull : w.full
      · rw [if_pos hfull] at hqueued hrefused
        exact .inr ⟨hrefused, fun _ => hfull, hqueued⟩
      · rw [if_neg hfull] at hqueued
        exact .inl (.inl (by rw [hqueued]; simp))
    | giveUp => exact absurd rfl hkeep
    | _ =>
      exact .inr ⟨hrefused.trans hheld, fun hre => by simp [NetEvent.isRedeliver] at hre, hqueued⟩

theorem not_full_tail (hN : 1 < N) (h : NetOk w) : w.inst.queued.tail.length + 1 ≠ N := by
  have hlen := h.ring.length_queued_lt
  rw [List.length_tail]
  omega

/-- A read makes room for the pbuf that lwIP holds. -/
theorem leads_room (hN : N ≤ 256) (hN' : 1 < N) (p : Pcb) (pb : Pbuf) :
    Leads netStep NetEvent.isRead KeepsHeld 1
      (fun w : World N σ => NetOk w ∧ w.lwip.refused = some (p, pb))
      (fun w => NetOk w ∧ (w.Taken pb ∨ w.HeldWithRoom p pb)) := by
  apply leads_of_rank (fun w => NetOk w ∧ (w.Taken pb ∨ w.lwip.refused = some (p, pb)))
    fun w => if w.Taken pb ∨ ¬w.full then 0 else 1
  · rintro w ⟨h, hwhere⟩ hzero
    by_cases hroom : w.Taken pb ∨ ¬w.full
    · refine ⟨h, ?_⟩
      rcases hroom with ht | hroom
      · exact .inl ht
      · exact hwhere.imp_right fun hheld => ⟨hheld, hroom⟩
    · simp [hroom] at hzero
  · rintro w e w' ⟨h, hwhere⟩ hno hkeep he
    have hnt : ¬w.Taken pb := fun ht => hno ⟨h, .inl ht⟩
    have hheld := hwhere.resolve_left hnt
    have hfull : w.full := by
      by_contra hroom
      exact hno ⟨h, .inr ⟨hheld, hroom⟩⟩
    have hone : (if e.isRead then 1 else 0) ≤ 1 := by split_ifs <;> omega
    rw [if_neg (by simp [hnt, hfull] : ¬(w.Taken pb ∨ ¬w.full))]
    rcases held_step hN h hheld hkeep he with ht | ⟨hheld', _, hqueued⟩
    · rw [if_pos (.inl ht)]
      exact ⟨⟨h.step hN he, .inl ht⟩, by omega⟩
    · refine ⟨⟨h.step hN he, .inr hheld'⟩, ?_⟩
      cases hread : e.isRead with
      | true =>
        rw [hread, if_pos rfl] at hqueued
        have hroom : ¬w'.full := by
          rw [World.full, hqueued]
          exact not_full_tail hN' h
        rw [if_pos (.inr hroom)]
        simp
      | false =>
        have hrank : (if w'.Taken pb ∨ ¬w'.full then 0 else 1) ≤ 1 := by split_ifs <;> omega
        exact hrank
  · rintro w ⟨h, hheld⟩
    exact ⟨⟨h, .inr hheld⟩, by split_ifs <;> omega⟩

theorem room_step (hN : N ≤ 256) (hN' : 1 < N) (h : NetOk w) (hroom : w.HeldWithRoom p pb)
    (hkeep : KeepsHeld w e) (he : netStep w e = some w') :
    w'.Taken pb ∨ w'.HeldWithRoom p pb ∧ e.isRedeliver = false := by
  rcases held_step hN h hroom.1 hkeep he with ht | ⟨hheld, hfull, hqueued⟩
  · exact .inl ht
  · refine .inr ⟨⟨hheld, ?_⟩, Bool.eq_false_iff.mpr fun hre => hroom.2 (hfull hre)⟩
    rw [World.full, hqueued]
    split_ifs
    · exact not_full_tail hN' h
    · exact hroom.2

/-- Once there is room, the pbuf is queued when lwIP offers it again. -/
theorem leads_taken (hN : N ≤ 256) (hN' : 1 < N) (p : Pcb) (pb : Pbuf) :
    Leads netStep NetEvent.isRedeliver KeepsHeld 1
      (fun w : World N σ => NetOk w ∧ (w.Taken pb ∨ w.HeldWithRoom p pb))
      (fun w => NetOk w ∧ w.Taken pb) := by
  apply leads_of_rank (fun w => NetOk w ∧ (w.Taken pb ∨ w.HeldWithRoom p pb))
    fun w => if w.Taken pb then 0 else 1
  · rintro w ⟨h, _⟩ hzero
    refine ⟨h, ?_⟩
    by_contra hnt
    simp [hnt] at hzero
  · rintro w e w' ⟨h, hwhere⟩ hno hkeep he
    have hnt : ¬w.Taken pb := fun ht => hno ⟨h, ht⟩
    rw [if_neg hnt]
    rcases room_step hN hN' h (hwhere.resolve_left hnt) hkeep he with ht | ⟨hroom, hre⟩
    · rw [if_pos ht]
      exact ⟨⟨h.step hN he, .inl ht⟩, by split_ifs <;> omega⟩
    · refine ⟨⟨h.step hN he, .inr hroom⟩, ?_⟩
      rw [hre]
      have hrank : (if w'.Taken pb then 0 else 1) ≤ 1 := by split_ifs <;> omega
      exact hrank
  · rintro w ⟨h, hwhere⟩
    exact ⟨⟨h, hwhere⟩, by split_ifs <;> omega⟩

theorem room_or_taken_step (hN : N ≤ 256) (hN' : 1 < N)
    (h : NetOk w ∧ (w.Taken pb ∨ w.HeldWithRoom p pb)) (hkeep : KeepsHeld w e)
    (he : netStep w e = some w') : NetOk w' ∧ (w'.Taken pb ∨ w'.HeldWithRoom p pb) := by
  obtain ⟨hok, ht | hroom⟩ := h
  · exact ⟨hok.step hN he, .inl (ht.step hN hok he)⟩
  · exact ⟨hok.step hN he, (room_step hN hN' hok hroom hkeep he).imp_right And.left⟩

/-- Whatever comes in between, a refused pbuf is read once there have been a read,
then a redelivery, and then as many reads as the queue has places. -/
theorem held_pbuf_read {pfnEventCb : NetClientEvent → σ → σ} {app : σ}
    {es es₁ es₂ es₃ : List NetEvent} {w z : World netclientQueueSize σ} {p : Pcb} {pb : Pbuf}
    (hr : run netStep (World.init pfnEventCb app) es = some w)
    (hheld : w.lwip.refused = some (p, pb))
    (hkeep : .lwip .giveUp ∉ es₁ ++ es₂)
    (hread : 1 ≤ es₁.countP NetEvent.isRead)
    (hredeliver : 1 ≤ es₂.countP NetEvent.isRedeliver)
    (hreads : netclientQueueSize - 1 ≤ es₃.countP NetEvent.isRead)
    (hr' : run netStep w (es₁ ++ es₂ ++ es₃) = some z) :
    pb ∈ freedPbufs z.lwip.log := by
  have hN : netclientQueueSize ≤ 256 := by decide
  have hN' : 1 < netclientQueueSize := by decide
  rw [run_append] at hr'
  obtain ⟨v, hv, hr₃⟩ := Option.bind_eq_some_iff.mp hr'
  have hv' := hv
  rw [run_append] at hv'
  obtain ⟨u, hu, hr₂⟩ := Option.bind_eq_some_iff.mp hv'
  have hkeeps : AllSteps netStep KeepsHeld w (es₁ ++ es₂) :=
    allSteps_of_mem (fun _ _ he => ne_of_mem_of_not_mem he hkeep) w
  obtain ⟨hkeep₁, hkeep₂⟩ := (allSteps_append hu).mp hkeeps
  have hroom : NetOk u ∧ (u.Taken pb ∨ u.HeldWithRoom p pb) :=
    (leads_room hN hN' p pb).holds (fun _ _ _ h hk he => room_or_taken_step hN hN' h hk he)
      ⟨netOk_of_run hN hr, hheld⟩ hkeep₁ hu hread
  have htaken : NetOk v ∧ v.Taken pb :=
    (leads_taken hN hN' p pb).holds (fun _ _ _ h _ he => ⟨h.1.step hN he, h.2.step hN h.1 he⟩)
      hroom hkeep₂ hr₂ hredeliver
  have hfreed : NetOk z ∧ pb ∈ freedPbufs z.lwip.log :=
    (leads_freed hN pb).holds (fun _ _ _ h _ he => ⟨h.1.step hN he, freed_step hN h.1 h.2 he⟩)
      htaken (allSteps_of_forall (fun _ _ => trivial) v es₃) hr₃ hreads
  exact hfreed.2

/-- The eighth pbuf finds the ring full; one read lets it in, and seven more take it out. -/
theorem held_pbuf_read_full_ring :
    ∃ w z : World netclientQueueSize Unit, ∃ pb,
      run netStep (World.init (fun _ s => s) ())
          (connectEvents ++ List.replicate 8 (.lwip (.receive 0 connack))) = some w ∧
        w.lwip.refused = some (0, pb) ∧
        run netStep w ([.call (.readPacket 2)] ++ [.lwip .redeliver] ++
          List.replicate 7 (.call (.readPacket 2))) = some z ∧
        pb ∈ freedPbufs z.lwip.log := by
  have hfacts : (run netStep (World.init (N := netclientQueueSize) (fun _ s => s) ())
      (connectEvents ++ List.replicate 8 (.lwip (.receive 0 connack)))).map (fun w =>
        (w.lwip.refused.map Prod.fst, (run netStep w ([.call (.readPacket 2)] ++
          [.lwip .redeliver] ++ List.replicate 7 (.call (.readPacket 2)))).isSome)) =
        some (some 0, true) := by
    decide +kernel
  obtain ⟨w, hw, hf⟩ := Option.map_eq_some_iff.mp hfacts
  obtain ⟨hheld, hsome⟩ := Prod.mk.inj hf
  obtain ⟨⟨p, pb⟩, hheld, rfl⟩ := Option.map_eq_some_iff.mp hheld
  obtain ⟨z, hz⟩ := Option.isSome_iff_exists.mp hsome
  exact ⟨w, z, pb, hw, hheld, hz, held_pbuf_read hw hheld (by decide) (by decide) (by decide)
    (by decide) hz⟩

end McuTest
