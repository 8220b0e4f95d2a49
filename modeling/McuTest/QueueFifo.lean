import McuTest.BoundedFifo
import McuTest.NetQueue

/-! The queue of net_client is a first-in first-out list of at most `N - 1`
pbufs, whatever the slots held before `net_Init`. -/

namespace McuTest

variable {N : Nat} [NeZero N] {σ : Type}

open BoundedFifo

def queueStep (this : Instance N σ) : Op Pbuf → Answer Pbuf UInt16 × Instance N σ
  | .put pb =>
    let r := Net.enqueuePbuf this pb
    (.accepted r.1, r.2)
  | .take =>
    let r := Net.dequeuePbuf this
    (.taken r.1, r.2)
  | .peek => (.seen (Net.getReadLen this), this)

def headLen : Option Pbuf → UInt16
  | some pb => pb.len
  | none => 0

/-- `net_Init` writes the two indices and no slot. -/
def initOver (mem : Fin N → Option Pbuf) (pfnEventCb : NetClientEvent → σ → σ) : Instance N σ :=
  { (Net.init pfnEventCb : Instance N σ) with queue := mem }

theorem positions_initOver (mem : Fin N → Option Pbuf) (pfnEventCb : NetClientEvent → σ → σ) :
    Cyclic.positions N (initOver mem pfnEventCb).odx.toNat (initOver mem pfnEventCb).idx.toNat =
      [] :=
  Cyclic.positions_self (Nat.pos_of_neZero N)

theorem ringOk_initOver (mem : Fin N → Option Pbuf) (pfnEventCb : NetClientEvent → σ → σ) :
    (initOver mem pfnEventCb).RingOk := by
  have hn : 0 < N := Nat.pos_of_neZero N
  refine ⟨hn, hn, fun k hk => ?_⟩
  rw [positions_initOver] at hk
  simp at hk

theorem queued_initOver (mem : Fin N → Option Pbuf) (pfnEventCb : NetClientEvent → σ → σ) :
    (initOver mem pfnEventCb).queued = [] := by
  rw [Instance.queued, positions_initOver, List.filterMap_nil]

variable {this : Instance N σ}

theorem room_iff (h : this.RingOk) : this.queued.length < N - 1 ↔ this.queued.length + 1 ≠ N := by
  have hlt := h.length_queued_lt
  omega

theorem queueStep_put (hN : N ≤ 256) (h : this.RingOk) (pb : Pbuf) :
    if this.queued.length < N - 1 then
      queueStep this (.put pb) = (.accepted true, this.pushed pb) ∧
        (this.pushed pb).queued = this.queued ++ [pb] ∧ (this.pushed pb).RingOk
    else queueStep this (.put pb) = (.accepted false, this) := by
  split_ifs with hq
  · have hroom := (room_iff h).mp hq
    refine ⟨?_, Instance.queued_pushed hN h hroom pb, Instance.ringOk_pushed hN h hroom pb⟩
    simp only [queueStep, Instance.enqueuePbuf_room h hroom]
  · have hfull : this.queued.length + 1 = N := by
      by_contra hne
      exact hq ((room_iff h).mpr hne)
    simp only [queueStep, Instance.enqueuePbuf_full h hfull]

theorem queueStep_take (hN : N ≤ 256) (h : this.RingOk) :
    (queueStep this .take).1 = .taken this.queued.head? ∧
      (queueStep this .take).2.queued = this.queued.tail ∧ (queueStep this .take).2.RingOk := by
  cases hq : this.queued with
  | nil =>
    simp only [queueStep, Instance.dequeuePbuf_nil h hq]
    exact ⟨rfl, hq, h⟩
  | cons pb rest =>
    have hrest := (Instance.slot_next_odx hN h hq).2
    simp only [queueStep, Instance.dequeuePbuf_cons hN h hq]
    exact ⟨rfl, hrest, Instance.ringOk_popped hN h (by simp [hq])⟩

theorem queueStep_peek (hN : N ≤ 256) (h : this.RingOk) :
    queueStep this .peek = (.seen (headLen this.queued.head?), this) := by
  cases hq : this.queued with
  | nil => simp only [queueStep, Instance.getReadLen_nil h hq, List.head?_nil, headLen]
  | cons pb rest => simp only [queueStep, Instance.getReadLen_cons hN h hq, List.head?_cons, headLen]

theorem queue_refines (hN : N ≤ 256) :
    Machine.Refines queueStep (BoundedFifo.step (N - 1) headLen)
      (Instance.RingOk (N := N) (σ := σ)) Instance.queued := by
  intro this op h
  cases op with
  | put pb =>
    have hput := queueStep_put hN h pb
    simp only [BoundedFifo.step]
    split_ifs at hput ⊢ with hq
    · obtain ⟨hstep, hqueued, hring⟩ := hput
      rw [hstep]
      exact ⟨hring, rfl, hqueued⟩
    · rw [hput]
      exact ⟨h, rfl, rfl⟩
  | take =>
    obtain ⟨hanswer, hqueued, hring⟩ := queueStep_take hN h
    exact ⟨hring, hanswer, hqueued⟩
  | peek =>
    rw [queueStep_peek hN h]
    exact ⟨h, rfl, rfl⟩

/-- The ring of `N` slots answers every sequence of calls as a list of at most
`N - 1` pbufs does, and `queued` is that list in every state reached. -/
theorem queue_is_bounded_fifo (hN : N ≤ 256) (mem : Fin N → Option Pbuf)
    (pfnEventCb : NetClientEvent → σ → σ) (ops : List (Op Pbuf)) :
    let this := Machine.after queueStep (initOver mem pfnEventCb) ops
    this.idx.toNat < N ∧ this.odx.toNat < N ∧ this.queued.length ≤ N - 1 ∧
    Machine.answers queueStep (initOver mem pfnEventCb) ops =
      Machine.answers (BoundedFifo.step (N - 1) headLen) [] ops ∧
    (∀ pb, if this.queued.length < N - 1 then
        (Net.enqueuePbuf this pb).1 = true ∧
          (Net.enqueuePbuf this pb).2.queued = this.queued ++ [pb]
      else Net.enqueuePbuf this pb = (false, this)) ∧
    (Net.dequeuePbuf this).1 = this.queued.head? ∧
    (Net.dequeuePbuf this).2.queued = this.queued.tail ∧
    Net.getReadLen this = headLen this.queued.head? := by
  intro this
  have hstart := ringOk_initOver mem pfnEventCb
  have hring : this.RingOk :=
    Machine.after_invariant (fun s op hs => (queue_refines hN s op hs).1) hstart ops
  have hview := (queue_refines hN).after_view hstart ops
  rw [queued_initOver] at hview
  have hlen : this.queued.length ≤ N - 1 := by
    rw [hview]
    exact BoundedFifo.length_after (Nat.zero_le _) ops
  have hanswers := (queue_refines hN).answers_eq hstart ops
  rw [queued_initOver] at hanswers
  obtain ⟨htaken, htail, _⟩ := queueStep_take hN hring
  refine ⟨hring.idx_lt, hring.odx_lt, hlen, hanswers, fun pb => ?_, ?_, htail, ?_⟩
  · have hput := queueStep_put hN hring pb
    split_ifs at hput ⊢ with hq
    · obtain ⟨hstep, hqueued, _⟩ := hput
      obtain ⟨hok, hafter⟩ := Prod.mk.inj hstep
      rw [hafter]
      exact ⟨Answer.accepted.inj hok, hqueued⟩
    · obtain ⟨hok, hafter⟩ := Prod.mk.inj hput
      exact Prod.ext (Answer.accepted.inj hok) hafter
  · exact Answer.taken.inj htaken
  · exact Answer.seen.inj (Prod.mk.inj (queueStep_peek hN hring)).1

/-- Two pbufs fill three slots; after a read the third one goes into slot 0. -/
theorem queue_is_bounded_fifo_wraps :
    Machine.answers queueStep (initOver (N := 3) (fun _ => some (pingresp 9)) fun _ (s : Unit) => s)
        [.peek, .put (pingresp 0), .put (pingresp 1), .put (pingresp 2), .take,
          .put (pingresp 2), .peek, .take, .take, .take] =
      [.seen 0, .accepted true, .accepted true, .accepted false, .taken (some (pingresp 0)),
        .accepted true, .seen 2, .taken (some (pingresp 1)), .taken (some (pingresp 2)),
        .taken none] := by
  have hfifo := queue_is_bounded_fifo (N := 3) (by decide) (fun _ => some (pingresp 9))
    (fun _ (s : Unit) => s) [.peek, .put (pingresp 0), .put (pingresp 1), .put (pingresp 2), .take,
      .put (pingresp 2), .peek, .take, .take, .take]
  exact hfifo.2.2.2.1.trans (by decide)

end McuTest
