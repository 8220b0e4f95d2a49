import McuTest.Cyclic
import McuTest.NetClient

/-! The circular queue of net_client as a list of pbufs, oldest first. -/

namespace McuTest

variable {N : Nat} [NeZero N] {σ : Type}

namespace Instance

def slot (this : Instance N σ) (k : Nat) : Option Pbuf :=
  this.queue (Fin.ofNat N k)

def queued (this : Instance N σ) : List Pbuf :=
  (Cyclic.positions N this.odx.toNat this.idx.toNat).filterMap this.slot

structure RingOk (this : Instance N σ) : Prop where
  idx_lt : this.idx.toNat < N
  odx_lt : this.odx.toNat < N
  filled : ∀ k ∈ Cyclic.positions N this.odx.toNat this.idx.toNat, (this.slot k).isSome

theorem filterMap_length_of_isSome {α β : Type*} {f : α → Option β} {l : List α}
    (h : ∀ a ∈ l, (f a).isSome) : (l.filterMap f).length = l.length := by
  induction l with
  | nil => rfl
  | cons a l ih =>
    obtain ⟨b, hb⟩ := Option.isSome_iff_exists.mp (h a (by simp))
    have hl := ih fun c hc => h c (by simp [hc])
    simp [hb, hl]

variable {this : Instance N σ}

theorem RingOk.length_queued (h : this.RingOk) :
    this.queued.length = Cyclic.count N this.odx.toNat this.idx.toNat := by
  rw [queued, filterMap_length_of_isSome h.filled, Cyclic.length_positions]

theorem RingOk.length_queued_lt (h : this.RingOk) : this.queued.length < N := by
  rw [h.length_queued]
  exact Cyclic.count_lt (Nat.pos_of_neZero N)

theorem RingOk.queued_eq_nil_iff (h : this.RingOk) : this.queued = [] ↔ this.idx = this.odx := by
  rw [← List.length_eq_zero_iff, h.length_queued, Cyclic.count_eq_zero_iff h.odx_lt h.idx_lt]
  exact UInt8.toNat_inj

theorem RingOk.full_iff (h : this.RingOk) :
    Cyclic.next N this.idx.toNat = this.odx.toNat ↔ this.queued.length + 1 = N := by
  rw [h.length_queued, Cyclic.next_eq_iff_count h.odx_lt h.idx_lt]

theorem RingOk.congr {that : Instance N σ} (h : this.RingOk) (hi : that.idx = this.idx)
    (ho : that.odx = this.odx) (hq : that.queue = this.queue) : that.RingOk := by
  refine ⟨hi ▸ h.idx_lt, ho ▸ h.odx_lt, fun k hk => ?_⟩
  rw [hi, ho] at hk
  simpa only [slot, hq] using h.filled k hk

theorem ringOk_init (pfnEventCb : NetClientEvent → σ → σ) :
    (Net.init pfnEventCb : Instance N σ).RingOk := by
  have hn : 0 < N := Nat.pos_of_neZero N
  refine ⟨hn, hn, fun k hk => ?_⟩
  have hp : Cyclic.positions N 0 0 = [] := Cyclic.positions_self hn
  change k ∈ Cyclic.positions N 0 0 at hk
  simp [hp] at hk

theorem queued_init (pfnEventCb : NetClientEvent → σ → σ) :
    (Net.init pfnEventCb : Instance N σ).queued = [] :=
  (ringOk_init pfnEventCb).queued_eq_nil_iff.mpr rfl

theorem toNat_ofNat_next (hN : N ≤ 256) (i : Nat) :
    (UInt8.ofNat (Cyclic.next N i)).toNat = Cyclic.next N i := by
  have hlt : Cyclic.next N i < N := Cyclic.next_lt (Nat.pos_of_neZero N)
  exact Nat.mod_eq_of_lt (by omega)

theorem slot_update_of_ne {k n : Nat} (hk : k < N) (hn : n < N) (hne : k ≠ n)
    (x : Option Pbuf) :
    Function.update this.queue (Fin.ofNat N n) x (Fin.ofNat N k) = this.slot k := by
  apply Function.update_of_ne
  intro he
  have hv : k % N = n % N := congrArg Fin.val he
  rw [Nat.mod_eq_of_lt hk, Nat.mod_eq_of_lt hn] at hv
  exact hne hv

def pushed (this : Instance N σ) (pbuf : Pbuf) : Instance N σ :=
  { this with
    queue := Function.update this.queue (Fin.ofNat N (Cyclic.next N this.idx.toNat)) (some pbuf)
    idx := UInt8.ofNat (Cyclic.next N this.idx.toNat) }

theorem enqueuePbuf_full (h : this.RingOk) (hfull : this.queued.length + 1 = N) (pbuf : Pbuf) :
    Net.enqueuePbuf this pbuf = (false, this) := by
  have hn : (this.idx.toNat + 1) % N = this.odx.toNat := h.full_iff.mpr hfull
  simp [Net.enqueuePbuf, hn]

theorem enqueuePbuf_room (h : this.RingOk) (hroom : this.queued.length + 1 ≠ N) (pbuf : Pbuf) :
    Net.enqueuePbuf this pbuf = (true, this.pushed pbuf) := by
  have hn : (this.idx.toNat + 1) % N ≠ this.odx.toNat := fun he => hroom (h.full_iff.mp he)
  simp only [Net.enqueuePbuf, hn, ne_eq, not_false_eq_true, if_true]
  rfl

theorem positions_pushed (hN : N ≤ 256) (h : this.RingOk) (hroom : this.queued.length + 1 ≠ N)
    (pbuf : Pbuf) :
    Cyclic.positions N (this.pushed pbuf).odx.toNat (this.pushed pbuf).idx.toNat =
      Cyclic.positions N this.odx.toNat this.idx.toNat ++ [Cyclic.next N this.idx.toNat] := by
  have hn : Cyclic.next N this.idx.toNat ≠ this.odx.toNat := fun he => hroom (h.full_iff.mp he)
  simp only [pushed, toNat_ofNat_next hN]
  exact Cyclic.positions_push h.odx_lt h.idx_lt hn

theorem slot_pushed_of_mem (h : this.RingOk) (hroom : this.queued.length + 1 ≠ N) (pbuf : Pbuf)
    {k : Nat} (hk : k ∈ Cyclic.positions N this.odx.toNat this.idx.toNat) :
    (this.pushed pbuf).slot k = this.slot k := by
  have hpos : 0 < N := Nat.pos_of_neZero N
  have hn : Cyclic.next N this.idx.toNat ≠ this.odx.toNat := fun he => hroom (h.full_iff.mp he)
  have hnot := Cyclic.next_not_mem_positions h.odx_lt h.idx_lt hn
  exact slot_update_of_ne (Cyclic.lt_of_mem_positions hpos hk) (Cyclic.next_lt hpos)
    (fun he => hnot (he ▸ hk)) (some pbuf)

theorem slot_pushed_next (this : Instance N σ) (pbuf : Pbuf) :
    (this.pushed pbuf).slot (Cyclic.next N this.idx.toNat) = some pbuf :=
  Function.update_self _ _ _

theorem ringOk_pushed (hN : N ≤ 256) (h : this.RingOk) (hroom : this.queued.length + 1 ≠ N)
    (pbuf : Pbuf) : (this.pushed pbuf).RingOk := by
  refine ⟨?_, h.odx_lt, fun k hk => ?_⟩
  · simp only [pushed, toNat_ofNat_next hN]
    exact Cyclic.next_lt (Nat.pos_of_neZero N)
  · rw [positions_pushed hN h hroom, List.mem_append, List.mem_singleton] at hk
    rcases hk with hk | rfl
    · rw [slot_pushed_of_mem h hroom pbuf hk]
      exact h.filled k hk
    · rw [slot_pushed_next]
      rfl

theorem queued_pushed (hN : N ≤ 256) (h : this.RingOk) (hroom : this.queued.length + 1 ≠ N)
    (pbuf : Pbuf) : (this.pushed pbuf).queued = this.queued ++ [pbuf] := by
  rw [queued, positions_pushed hN h hroom, List.filterMap_append]
  congr 1
  · exact List.filterMap_congr fun k hk => slot_pushed_of_mem h hroom pbuf hk
  · simp [slot_pushed_next]

def popped (this : Instance N σ) : Instance N σ :=
  { this with odx := UInt8.ofNat (Cyclic.next N this.odx.toNat) }

theorem dequeuePbuf_nil (h : this.RingOk) (hq : this.queued = []) :
    Net.dequeuePbuf this = (none, this) := by
  have he := h.queued_eq_nil_iff.mp hq
  simp [Net.dequeuePbuf, he]

theorem positions_popped (hN : N ≤ 256) (h : this.RingOk) (hq : this.queued ≠ []) :
    Cyclic.positions N this.odx.toNat this.idx.toNat =
      Cyclic.next N this.odx.toNat ::
        Cyclic.positions N this.popped.odx.toNat this.popped.idx.toNat := by
  have hne : this.idx.toNat ≠ this.odx.toNat :=
    fun he => hq (h.queued_eq_nil_iff.mpr (UInt8.toNat_inj.mp he))
  simp only [popped, toNat_ofNat_next hN]
  exact Cyclic.positions_pop h.odx_lt h.idx_lt hne

theorem ringOk_popped (hN : N ≤ 256) (h : this.RingOk) (hq : this.queued ≠ []) :
    this.popped.RingOk := by
  refine ⟨h.idx_lt, ?_, fun k hk => h.filled k ?_⟩
  · simp only [popped, toNat_ofNat_next hN]
    exact Cyclic.next_lt (Nat.pos_of_neZero N)
  · rw [positions_popped hN h hq]
    exact List.mem_cons_of_mem _ hk

theorem slot_next_odx (hN : N ≤ 256) (h : this.RingOk) {pb : Pbuf} {rest : List Pbuf}
    (hq : this.queued = pb :: rest) :
    this.slot (Cyclic.next N this.odx.toNat) = some pb ∧ this.popped.queued = rest := by
  have hpos := positions_popped hN h (by simp [hq])
  have hfill := h.filled (Cyclic.next N this.odx.toNat) (by simp [hpos])
  obtain ⟨x, hx⟩ := Option.isSome_iff_exists.mp hfill
  have hcons : this.queued = x :: this.popped.queued := by
    rw [queued, hpos, List.filterMap_cons_some hx]
    rfl
  obtain ⟨rfl, hrest⟩ := List.cons.inj (hcons.symm.trans hq)
  exact ⟨hx, hrest⟩

theorem dequeuePbuf_cons (hN : N ≤ 256) (h : this.RingOk) {pb : Pbuf} {rest : List Pbuf}
    (hq : this.queued = pb :: rest) : Net.dequeuePbuf this = (some pb, this.popped) := by
  have hne : this.idx ≠ this.odx := fun he => by
    simp [h.queued_eq_nil_iff.mpr he] at hq
  have hs := (slot_next_odx hN h hq).1
  simp only [Net.dequeuePbuf, hne, ne_eq, not_false_eq_true, if_true]
  exact Prod.ext hs rfl

theorem getReadLen_nil (h : this.RingOk) (hq : this.queued = []) : Net.getReadLen this = 0 := by
  have he := h.queued_eq_nil_iff.mp hq
  simp [Net.getReadLen, he]

theorem getReadLen_cons (hN : N ≤ 256) (h : this.RingOk) {pb : Pbuf} {rest : List Pbuf}
    (hq : this.queued = pb :: rest) : Net.getReadLen this = pb.len := by
  have hne : this.idx ≠ this.odx := fun he => by
    simp [h.queued_eq_nil_iff.mpr he] at hq
  have hs : this.queue (Fin.ofNat N ((this.odx.toNat + 1) % N)) = some pb :=
    (slot_next_odx hN h hq).1
  simp only [Net.getReadLen, hne, ne_eq, not_false_eq_true, if_true, hs]

end Instance

variable {w : World N σ}

theorem readPacket_nil (h : w.inst.RingOk) (hq : w.inst.queued = []) (buf : Mem) (len : UInt16) :
    Net.readPacket w .inst (some buf) len = (0, some buf, w) := by
  simp only [Net.readPacket, Instance.dequeuePbuf_nil h hq]

def World.taken (w : World N σ) (pb : Pbuf) : World N σ :=
  { w with
    inst := w.inst.popped
    lwip := { w.lwip with
      log := w.lwip.log ++ [.tcpRecved w.inst.hNet pb.len, .pbufFree pb] } }

theorem readPacket_cons (hN : N ≤ 256) (h : w.inst.RingOk) {pb : Pbuf} {rest : List Pbuf}
    (hq : w.inst.queued = pb :: rest) (buf : Mem) (len : UInt16) :
    Net.readPacket w .inst (some buf) len =
      (((if pb.len > len then len else pb.len).toNat : Int),
        some (Net.memcpy buf (pb.payload.take (if pb.len > len then len else pb.len).toNat)),
        w.taken pb) := by
  simp only [Net.readPacket, Instance.dequeuePbuf_cons hN h hq, Lwip.tcpRecved, Lwip.pbufFree,
    Lwip.note, List.append_assoc, List.cons_append, List.nil_append]
  rfl

theorem memcpy_take (dst : Mem) (src : List Byte) :
    (Net.memcpy dst src).take src.length = src.map some := by
  simp [Net.memcpy]

def Pbuf.takenBytes (pb : Pbuf) (len : UInt16) : Mem :=
  (pb.payload.take (if pb.len > len then len else pb.len).toNat).map some

theorem Pbuf.takenBytes_len (pb : Pbuf) : pb.takenBytes pb.len = pb.payload.map some := by
  have hlen : ¬pb.len > pb.len := UInt16.lt_irrefl _
  simp [Pbuf.takenBytes, hlen]

end McuTest
