import Mathlib.Algebra.Group.Int.Defs
import McuTest.BoundedFifo
import McuTest.NetSystem

/-! What the write functions report against what lwIP has queued. A length goes
through 32 bits, the 16 bits of `tcp_write` and an `int`. -/

namespace McuTest

variable {N : Nat} {σ : Type}

/-- `netWritePacket`. The result of `net_WritePacket` passes through `len`,
which is a `uint32_t`. -/
def netWritePacket (w : World N σ) (pBuf : Option (List Byte)) (len : UInt32) (isMore : Bool)
    (err : ErrT) : Int × World N σ :=
  let r := Net.writePacket w .inst pBuf len isMore err
  ((UInt32.ofInt r.1).toInt32.toInt, r.2)

/-- A write of `len` bytes from a buffer that has them, with lwIP's answer. -/
structure WriteRequest where
  buf : List Byte
  len : UInt32
  fits : len.toNat ≤ buf.length
  isMore : Bool
  err : ErrT
  byUmqtt : Bool

def writeStep (w : World N σ) (req : WriteRequest) : Int × World N σ :=
  if req.byUmqtt then netWritePacket w (some req.buf) req.len req.isMore req.err
  else Net.writePacket w .inst (some req.buf) req.len req.isMore req.err

/-- The bytes that lwIP has queued for sending on `p`. -/
def sendQueue (p : Pcb) (log : List Action) : List Byte :=
  log.flatMap fun
    | .tcpWrite (some q) data .ok => if q = p then data else []
    | _ => []

theorem toInt_toInt32 (len : UInt32) :
    len.toInt32.toInt = if len.toNat < 2 ^ 31 then (len.toNat : Int) else len.toNat - 2 ^ 32 := by
  have hcond : len.toInt32.toInt = _ := BitVec.toInt_eq_toNat_cond len.toBitVec
  rw [hcond]
  have hnat : len.toBitVec.toNat = len.toNat := rfl
  simp only [hnat]
  split_ifs <;> first | rfl | omega

theorem ofInt_toInt32 (len : UInt32) : UInt32.ofInt len.toInt32.toInt = len := by
  apply UInt32.toNat_inj.mp
  have hlt := len.toNat_lt
  have hint := toInt_toInt32 len
  simp only [UInt32.ofInt, UInt32.toNat_ofNat', hint]
  split_ifs <;> omega

variable {w : World N σ} {p : Pcb}

theorem netWritePacket_eq (w : World N σ) (buf : List Byte) (len : UInt32) (isMore : Bool)
    (err : ErrT) :
    netWritePacket w (some buf) len isMore err =
      Net.writePacket w .inst (some buf) len isMore err := by
  by_cases he : err = .ok
  · subst err
    exact Prod.ext (congrArg (fun n : UInt32 => n.toInt32.toInt) (ofInt_toInt32 len)) rfl
  · simp only [netWritePacket, Net.writePacket, he, ne_eq, not_false_eq_true, if_true]
    rfl

theorem writeStep_eq (h : w.inst.hNet = some p) (req : WriteRequest) :
    (writeStep w req).1 = (if req.err = .ok then req.len.toInt32.toInt else 0) ∧
      (writeStep w req).2.inst = w.inst ∧
      sendQueue p (writeStep w req).2.lwip.log = sendQueue p w.lwip.log ++
        (if req.err = .ok then req.buf.take (req.len.toNat % 2 ^ 16) else []) := by
  have hsame : writeStep w req =
      Net.writePacket w .inst (some req.buf) req.len req.isMore req.err := by
    unfold writeStep
    split_ifs
    · exact netWritePacket_eq w req.buf req.len req.isMore req.err
    · rfl
  rw [hsame]
  by_cases he : req.err = .ok
  · cases hm : req.isMore with
    | true =>
      refine ⟨by simp [Net.writePacket, he], by simp [Net.writePacket, he], ?_⟩
      simp [Net.writePacket, he, Lwip.tcpWrite, Lwip.note, sendQueue, h]
    | false =>
      refine ⟨by simp [Net.writePacket, he], by simp [Net.writePacket, he], ?_⟩
      simp [Net.writePacket, he, Lwip.tcpWrite, Lwip.tcpOutput, Lwip.note, sendQueue, h]
  · refine ⟨by simp [Net.writePacket, he], by simp [Net.writePacket, he], ?_⟩
    simp [Net.writePacket, he, Lwip.tcpWrite, Lwip.note, sendQueue]

/-- The call reports `r ≥ 0` and has queued just the first `r` bytes. -/
def ReportsQueued (p : Pcb) (w : World N σ) (req : WriteRequest) : Prop :=
  0 ≤ (writeStep w req).1 ∧ sendQueue p (writeStep w req).2.lwip.log =
    sendQueue p w.lwip.log ++ req.buf.take (writeStep w req).1.toNat

theorem take_eq_take_mod_iff {buf : List Byte} {len : Nat} (hfits : len ≤ buf.length) :
    buf.take (len % 2 ^ 16) = buf.take len ↔ len < 2 ^ 16 := by
  constructor
  · intro h
    have hlen := congrArg List.length h
    simp only [List.length_take] at hlen
    omega
  · intro h
    rw [Nat.mod_eq_of_lt h]

theorem reportsQueued_iff (h : w.inst.hNet = some p) (req : WriteRequest) :
    ReportsQueued p w req ↔ (req.err = .ok → req.len.toNat < 2 ^ 16) := by
  obtain ⟨hret, _, hqueue⟩ := writeStep_eq h req
  rw [ReportsQueued, hret, hqueue, List.append_cancel_left_eq]
  by_cases he : req.err = .ok
  · simp only [he, if_true, toInt_toInt32, forall_const]
    by_cases hbig : req.len.toNat < 2 ^ 31
    · simp only [hbig, if_true, Int.natCast_nonneg, true_and, Int.toNat_natCast]
      exact take_eq_take_mod_iff req.fits
    · have hlt := req.len.toNat_lt
      refine iff_of_false (fun hr => ?_) (by omega)
      have hneg := hr.1
      rw [if_neg hbig] at hneg
      omega
  · simp [he]

def writeRun (w : World N σ) (req : WriteRequest) : Option (World N σ) :=
  some (writeStep w req).2

theorem hNet_writeStep (h : w.inst.hNet = some p) (req : WriteRequest) :
    (writeStep w req).2.inst.hNet = some p := by
  rw [(writeStep_eq h req).2.1]
  exact h

theorem allSteps_reportsQueued_iff {reqs : List WriteRequest} (h : w.inst.hNet = some p) :
    Runs.AllSteps writeRun (ReportsQueued p) w reqs ↔
      ∀ req ∈ reqs, req.err = .ok → req.len.toNat < 2 ^ 16 := by
  induction reqs generalizing w with
  | nil => exact iff_of_true trivial (by simp)
  | cons req reqs ih =>
    rw [List.forall_mem_cons, ← reportsQueued_iff h req, ← ih (hNet_writeStep h req)]
    exact ⟨fun hall => hall _ rfl, fun hall _ ht => Option.some.inj ht ▸ hall⟩

/-- The bytes that the calls claim to have sent, in call order. -/
def reported (reqs : List WriteRequest) (rets : List Int) : List Byte :=
  (List.zipWith (fun req r => req.buf.take r.toNat) reqs rets).flatten

theorem sendQueue_after {reqs : List WriteRequest}
    (hall : Runs.AllSteps writeRun (ReportsQueued p) w reqs) :
    sendQueue p (Machine.after writeStep w reqs).lwip.log =
      sendQueue p w.lwip.log ++ reported reqs (Machine.answers writeStep w reqs) := by
  induction reqs generalizing w with
  | nil => simp [Machine.after, reported]
  | cons req reqs ih =>
    obtain ⟨hone, hrest⟩ := hall _ rfl
    simp only [Machine.after, ih hrest, hone.2, Machine.answers, reported, List.zipWith_cons_cons,
      List.flatten_cons, List.append_assoc]

/-- Over a sequence of writes every call queues what it reports, and so the
queue holds the reported prefixes in order, exactly when no call that lwIP
accepts is longer than 65535. -/
theorem writes_report_queued_iff (w : World N σ) {p : Pcb} (h : w.inst.hNet = some p)
    (reqs : List WriteRequest) :
    (Runs.AllSteps writeRun (ReportsQueued p) w reqs ∧
      sendQueue p (Machine.after writeStep w reqs).lwip.log =
        sendQueue p w.lwip.log ++ reported reqs (Machine.answers writeStep w reqs)) ↔
      ∀ req ∈ reqs, req.err = .ok → req.len.toNat < 2 ^ 16 := by
  rw [← allSteps_reportsQueued_iff h]
  exact ⟨fun hall => hall.1, fun hall => ⟨hall, sendQueue_after hall⟩⟩

def openConnection : World netclientQueueSize Unit :=
  callStep (World.init (fun _ s => s) ()) (.connect ⟨10, 0, 0, 12⟩ 1883 true .ok .ok)

def threeWrites : List WriteRequest :=
  [{ buf := [16, 1, 0], len := 2, fits := by decide, isMore := true, err := .ok, byUmqtt := true },
    { buf := [48], len := 1, fits := by decide, isMore := false, err := .mem, byUmqtt := true },
    { buf := [192, 0], len := 2, fits := by decide, isMore := false, err := .ok, byUmqtt := false }]

theorem writes_report_queued_three :
    Machine.answers writeStep openConnection threeWrites = [2, 0, 2] ∧
      sendQueue 0 (Machine.after writeStep openConnection threeWrites).lwip.log =
        [16, 1, 192, 0] := by
  have hanswers : Machine.answers writeStep openConnection threeWrites = [2, 0, 2] := by decide
  have hqueue := ((writes_report_queued_iff openConnection (p := 0) rfl threeWrites).mpr
    (by decide)).2
  rw [hanswers] at hqueue
  exact ⟨hanswers, hqueue⟩

/-- One byte more than 16 bits can say: one byte is queued and 65537 reported. -/
def longWrite : WriteRequest where
  buf := List.replicate 65537 0
  len := 65537
  fits := List.length_replicate.ge
  isMore := false
  err := .ok
  byUmqtt := true

theorem not_writes_report_queued :
    ¬∀ (w : World netclientQueueSize Unit) (p : Pcb), w.inst.hNet = some p →
      ∀ reqs, Runs.AllSteps writeRun (ReportsQueued p) w reqs := by
  intro hall
  have hsteps := hall openConnection 0 rfl [longWrite]
  have hshort := (allSteps_reportsQueued_iff rfl).mp hsteps longWrite (by simp) rfl
  exact absurd hshort (by decide)

end McuTest
