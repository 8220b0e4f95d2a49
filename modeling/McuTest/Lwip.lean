import Mathlib.Algebra.GroupWithZero.Nat
import Mathlib.Data.List.Basic
import McuTest.Lifetime

/-! The part of lwIP that net_client sees: packet buffers, the callback slots
of each protocol control block, and a log of what passes between the two. -/

namespace McuTest

abbrev Byte := UInt8

/-- The address of a `tcp_pcb`. Every `tcp_new` yields a fresh one. -/
abbrev Pcb := Nat

/-- A received TCP segment: a chain of one or more buffers whose total
length fits the 16-bit `tot_len`. -/
structure Chain where
  segs : List (List Byte)
  segs_ne_nil : segs ≠ []
  tot_lt : segs.flatten.length < 2 ^ 16
  deriving DecidableEq

def Chain.ofSegment (seg : List Byte) (h : seg.length < 2 ^ 16) : Chain where
  segs := [seg]
  segs_ne_nil := List.cons_ne_nil _ _
  tot_lt := by simpa using h

def connack : Chain :=
  .ofSegment [32, 2, 0, 0] (by decide)

def splitChain : Chain where
  segs := [[32], [2]]
  segs_ne_nil := List.cons_ne_nil _ _
  tot_lt := by decide

/-- A `struct pbuf *`; the address tells two equal chains apart. -/
structure Pbuf extends Chain where
  addr : Nat
  deriving DecidableEq

def pingresp (addr : Nat) : Pbuf :=
  { Chain.ofSegment [208, 0] (by decide) with addr := addr }

/-- The bytes at `pb->payload`, which are those of the first segment. -/
def Pbuf.payload (pb : Pbuf) : List Byte :=
  pb.segs.head pb.segs_ne_nil

def Pbuf.contents (pb : Pbuf) : List Byte :=
  pb.segs.flatten

def Pbuf.len (pb : Pbuf) : UInt16 :=
  UInt16.ofNat pb.payload.length

def Pbuf.totLen (pb : Pbuf) : UInt16 :=
  UInt16.ofNat pb.contents.length

theorem Pbuf.payload_prefix (pb : Pbuf) : pb.payload <+: pb.contents := by
  obtain ⟨⟨segs, hne, ht⟩, addr⟩ := pb
  cases segs with
  | nil => exact absurd rfl hne
  | cons s rest => exact List.prefix_append s rest.flatten

@[simp] theorem Pbuf.totLen_toNat (pb : Pbuf) : pb.totLen.toNat = pb.contents.length :=
  Nat.mod_eq_of_lt pb.tot_lt

@[simp] theorem Pbuf.len_toNat (pb : Pbuf) : pb.len.toNat = pb.payload.length :=
  Nat.mod_eq_of_lt (Nat.lt_of_le_of_lt pb.payload_prefix.length_le pb.tot_lt)

theorem Pbuf.contents_eq_payload {pb : Pbuf} (h : pb.len = pb.totLen) :
    pb.contents = pb.payload := by
  have hl : pb.payload.length = pb.contents.length := by
    simpa using congrArg UInt16.toNat h
  exact (pb.payload_prefix.eq_of_length hl).symm

inductive ErrT where
  | ok
  | mem
  | other (code : Int)
  deriving DecidableEq

inductive Callback where
  | errorCb
  | pollCb
  | receiveCb
  | sentCb
  | connectedCb
  deriving DecidableEq

/-- A `void *` that is either NULL or the one network instance. -/
inductive Handle where
  | null
  | inst
  deriving DecidableEq

/-- The callback slots of a PCB. `live` is false before `tcp_new` and after
the PCB has been released. -/
structure TcpPcb where
  live : Bool := false
  established : Bool := false
  arg : Handle := .null
  sent : Option Callback := none
  recv : Option Callback := none
  err : Option Callback := none
  poll : Option Callback := none
  connected : Option Callback := none
  deriving DecidableEq

inductive TcpFn where
  | arg
  | sent
  | recv
  | err
  | poll
  | output
  deriving DecidableEq

inductive NetClientEvent where
  | none
  | disconnected
  | connected
  | poll
  deriving DecidableEq

structure IpAddr where
  a : Byte
  b : Byte
  c : Byte
  d : Byte
  deriving DecidableEq

/-- Memory behind a pointer; `none` is a byte that was never written. -/
abbrev Mem := List (Option Byte)

inductive Action where
  | tcpNew (pcb : Option Pcb)
  | tcpCall (fn : TcpFn) (pcb : Option Pcb)
  | tcpConnect (pcb : Option Pcb) (addr : IpAddr) (port : UInt16) (err : ErrT)
  | tcpRecved (pcb : Option Pcb) (len : UInt16)
  | tcpWrite (pcb : Option Pcb) (data : List Byte) (err : ErrT)
  | tcpClose (pcb : Option Pcb) (err : ErrT)
  | tcpAbort (pcb : Option Pcb)
  | pbufFree (pb : Pbuf)
  | pcbFreed (p : Pcb)
  | entered (cb : Callback) (arg : Handle)
  | offered (p : Pcb) (pb : Pbuf)
  | received (p : Pcb) (pb : Pbuf) (ret : ErrT)
  | notified (ev : NetClientEvent)
  | netConnect (ret : Int) (hNet : Option Pcb)
  | netRead (pb : Pbuf) (buf : Mem)
  deriving DecidableEq

def Action.uses : Action → Option Pcb
  | .tcpCall _ pcb => pcb
  | .tcpConnect pcb _ _ _ => pcb
  | .tcpRecved pcb _ => pcb
  | .tcpWrite pcb _ _ => pcb
  | .tcpClose pcb _ => pcb
  | .tcpAbort pcb => pcb
  | _ => none

/-- A PCB is released by `tcp_abort`, by a `tcp_close` that returns `ERR_OK`
and by lwIP itself when it invokes the err callback. -/
def Action.frees : Action → Option Pcb
  | .tcpClose pcb .ok => pcb
  | .tcpAbort pcb => pcb
  | .pcbFreed p => some p
  | _ => none

abbrev released (log : List Action) : List Pcb :=
  Lifetime.freed Action.frees log

def allocated (log : List Action) : List Pcb :=
  log.filterMap fun
    | .tcpNew pcb => pcb
    | _ => none

def offers (log : List Action) : List Pbuf :=
  log.filterMap fun
    | .offered _ pb => some pb
    | _ => none

/-- The pbufs for which `net_ReceiveCb` returned `ERR_OK`, with their PCB. -/
def accepted (log : List Action) : List (Pcb × Pbuf) :=
  log.filterMap fun
    | .received p pb .ok => some (p, pb)
    | _ => none

def freedPbufs (log : List Action) : List Pbuf :=
  log.filterMap fun
    | .pbufFree pb => some pb
    | _ => none

def recved (p : Pcb) (log : List Action) : Nat :=
  (log.map fun
    | .tcpRecved (some q) len => if q = p then len.toNat else 0
    | _ => 0).sum

def reads (log : List Action) : List Mem :=
  log.filterMap fun
    | .netRead _ buf => some buf
    | _ => none

def session (log : List Action) : Option Pcb :=
  (log.filterMap fun
    | .netConnect 0 pcb => pcb
    | _ => none).getLast?

structure Lwip where
  pcbs : Pcb → TcpPcb := fun _ => {}
  nextPcb : Nat := 0
  /-- The pbuf that `net_ReceiveCb` refused last and that lwIP still holds. -/
  refused : Option (Pcb × Pbuf) := none
  nextPbuf : Nat := 0
  log : List Action := []

namespace Lwip

def note (l : Lwip) (a : Action) : Lwip :=
  { l with log := l.log ++ [a] }

/-- A call on a NULL PCB or on a released one changes no PCB. -/
def onPcb (l : Lwip) (pcb : Option Pcb) (f : TcpPcb → TcpPcb) : Lwip :=
  { l with pcbs := fun q => if pcb = some q ∧ (l.pcbs q).live then f (l.pcbs q) else l.pcbs q }

def tcpNew (l : Lwip) (avail : Bool) : Option Pcb × Lwip :=
  if avail then
    (some l.nextPcb,
      { l.note (.tcpNew (some l.nextPcb)) with
        pcbs := fun q => if q = l.nextPcb then { live := true } else l.pcbs q
        nextPcb := l.nextPcb + 1 })
  else (none, l.note (.tcpNew none))

def tcpArg (l : Lwip) (pcb : Option Pcb) (arg : Handle) : Lwip :=
  (l.note (.tcpCall .arg pcb)).onPcb pcb fun s => { s with arg := arg }

def tcpSent (l : Lwip) (pcb : Option Pcb) (cb : Option Callback) : Lwip :=
  (l.note (.tcpCall .sent pcb)).onPcb pcb fun s => { s with sent := cb }

def tcpRecv (l : Lwip) (pcb : Option Pcb) (cb : Option Callback) : Lwip :=
  (l.note (.tcpCall .recv pcb)).onPcb pcb fun s => { s with recv := cb }

def tcpErr (l : Lwip) (pcb : Option Pcb) (cb : Option Callback) : Lwip :=
  (l.note (.tcpCall .err pcb)).onPcb pcb fun s => { s with err := cb }

def tcpPoll (l : Lwip) (pcb : Option Pcb) (cb : Option Callback) (_interval : Byte) : Lwip :=
  (l.note (.tcpCall .poll pcb)).onPcb pcb fun s => { s with poll := cb }

/-- `tcp_connect` records the callback; whether the SYN could be queued is
lwIP's answer `err`. -/
def tcpConnect (l : Lwip) (pcb : Option Pcb) (addr : IpAddr) (port : UInt16) (cb : Callback)
    (err : ErrT) : Lwip :=
  (l.note (.tcpConnect pcb addr port err)).onPcb pcb fun s => { s with connected := some cb }

def tcpRecved (l : Lwip) (pcb : Option Pcb) (len : UInt16) : Lwip :=
  l.note (.tcpRecved pcb len)

/-- `tcp_write` takes a 16-bit length and queues all of these bytes or none. -/
def tcpWrite (l : Lwip) (pcb : Option Pcb) (data : List Byte) (len : UInt16) (err : ErrT) : Lwip :=
  l.note (.tcpWrite pcb (data.take len.toNat) err)

def tcpOutput (l : Lwip) (pcb : Option Pcb) : Lwip :=
  l.note (.tcpCall .output pcb)

def tcpClose (l : Lwip) (pcb : Option Pcb) (err : ErrT) : Lwip :=
  (l.note (.tcpClose pcb err)).onPcb pcb fun s => { s with live := s.live && err ≠ .ok }

def tcpAbort (l : Lwip) (pcb : Option Pcb) : Lwip :=
  (l.note (.tcpAbort pcb)).onPcb pcb fun s => { s with live := false }

def pbufFree (l : Lwip) (pb : Pbuf) : Lwip :=
  l.note (.pbufFree pb)

end Lwip

end McuTest
