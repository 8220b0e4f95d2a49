import Mathlib.Logic.Function.Basic
import McuTest.Lwip

/-! The functions of net_client.c. The instance is the one in `netInst`;
`σ` is the state of the application that the event callback updates. -/

namespace McuTest

abbrev netclientQueueSize := 8

instance : NeZero netclientQueueSize := ⟨by decide⟩

/-- `idx` is the last slot written, `odx` the last slot read; they are equal
when the queue is empty. -/
structure Instance (N : Nat) (σ : Type) where
  idx : UInt8
  odx : UInt8
  queue : Fin N → Option Pbuf
  hNet : Option Pcb
  pfnCb : NetClientEvent → σ → σ
  isConnected : Bool

structure World (N : Nat) (σ : Type) where
  inst : Instance N σ
  lwip : Lwip
  app : σ

variable {N : Nat} [NeZero N] {σ : Type}

namespace Net

def enqueuePbuf (this : Instance N σ) (pbuf : Pbuf) : Bool × Instance N σ :=
  let ndx := (this.idx.toNat + 1) % N
  if ndx ≠ this.odx.toNat then
    (true, { this with
      queue := Function.update this.queue (Fin.ofNat N ndx) (some pbuf)
      idx := UInt8.ofNat ndx })
  else (false, this)

def dequeuePbuf (this : Instance N σ) : Option Pbuf × Instance N σ :=
  if this.idx ≠ this.odx then
    let ndx := (this.odx.toNat + 1) % N
    (this.queue (Fin.ofNat N ndx), { this with odx := UInt8.ofNat ndx })
  else (none, this)

/-- `net_GetReadLen`. The slot read is never NULL when the queue is not empty. -/
def getReadLen (this : Instance N σ) : UInt16 :=
  if this.idx ≠ this.odx then
    match this.queue (Fin.ofNat N ((this.odx.toNat + 1) % N)) with
    | some pb => pb.len
    | none => 0
  else 0

def notify (w : World N σ) (ev : NetClientEvent) : World N σ :=
  { w with app := w.inst.pfnCb ev w.app, lwip := w.lwip.note (.notified ev) }

/-- The five calls with which a PCB forgets the instance. -/
def deregister (l : Lwip) (hNet : Option Pcb) : Lwip :=
  ((((l.tcpArg hNet .null).tcpSent hNet none).tcpRecv hNet none).tcpErr hNet none).tcpPoll
    hNet none 0

/-- `net_ErrorCb`. With a NULL `arg` it dereferences NULL, and nothing is
said of what follows. -/
def errorCb (w : World N σ) : Handle → World N σ
  | .null => w
  | .inst =>
    let l := (deregister w.lwip w.inst.hNet).tcpAbort w.inst.hNet
    notify { w with lwip := l, inst := { w.inst with hNet := none, isConnected := false } }
      .disconnected

def pollCb (w : World N σ) : Handle → World N σ
  | .null => w
  | .inst => notify w .poll

/-- `net_ReceiveCb`; a NULL `pb` says that the peer has closed. -/
def receiveCb (w : World N σ) (arg : Handle) (pcb : Option Pcb) (pb : Option Pbuf) :
    ErrT × World N σ :=
  if arg = .inst ∧ pcb ≠ none then
    match pb with
    | some pb =>
      let r := enqueuePbuf w.inst pb
      if r.1 then (.ok, { w with inst := r.2 }) else (.mem, { w with inst := r.2 })
    | none => (.ok, errorCb w .inst)
  else (.ok, w)

def sentCb (w : World N σ) (_arg : Handle) (_len : UInt16) : ErrT × World N σ :=
  (.ok, w)

def connectedCb (w : World N σ) : Handle → World N σ
  | .null => w
  | .inst =>
    let hNet := w.inst.hNet
    let l := (((w.lwip.tcpErr hNet (some .errorCb)).tcpPoll hNet (some .pollCb) 20).tcpRecv
      hNet (some .receiveCb)).tcpSent hNet (some .sentCb)
    notify { w with lwip := l, inst := { w.inst with isConnected := true } } .connected

/-- `net_Init`; the memory of the queue slots is all zero. -/
def init (pfnEventCb : NetClientEvent → σ → σ) : Instance N σ where
  idx := 0
  odx := 0
  queue := fun _ => none
  hNet := none
  pfnCb := pfnEventCb
  isConnected := false

/-- `net_Connect`. What lwIP answers is given: whether `tcp_new` has a PCB, the
result of `tcp_connect` and, for the failure path, that of `tcp_close`. -/
def connect (w : World N σ) (h : Handle) (addr : IpAddr) (port : UInt16) (avail : Bool)
    (connErr closeErr : ErrT) : Int × World N σ :=
  if h = .null then (-1, w)
  else
    match w.lwip.tcpNew avail with
    | (none, l) => (-2, { w with lwip := l })
    | (some p, l) =>
      let l := ((l.tcpErr (some p) (some .errorCb)).tcpArg (some p) .inst).tcpConnect (some p)
        addr port .connectedCb connErr
      if connErr ≠ .ok then
        (-4, { w with
          lwip := l.tcpClose (some p) closeErr
          inst := { w.inst with isConnected := false, hNet := none } })
      else (0, { w with lwip := l, inst := { w.inst with hNet := some p } })

/-- `net_Disconnect`; the result of `tcp_close` is not looked at. -/
def disconnect (w : World N σ) (h : Handle) (closeErr : ErrT) : World N σ :=
  if h = .null then w
  else
    let l := (deregister w.lwip w.inst.hNet).tcpClose w.inst.hNet closeErr
    notify { w with lwip := l, inst := { w.inst with hNet := none, isConnected := false } }
      .disconnected

def memcpy (dst : Mem) (src : List Byte) : Mem :=
  src.map some ++ dst.drop src.length

/-- `net_ReadPacket`; the result has the block behind `pBuf` as it is afterwards. -/
def readPacket (w : World N σ) (h : Handle) (pBuf : Option Mem) (len : UInt16) :
    Int × Option Mem × World N σ :=
  match h, pBuf with
  | .inst, some buf =>
    match dequeuePbuf w.inst with
    | (some pb, inst) =>
      let pktlen := pb.len
      let len := if pktlen > len then len else pktlen
      (len.toNat, some (memcpy buf (pb.payload.take len.toNat)),
        { w with inst := inst, lwip := (w.lwip.tcpRecved w.inst.hNet pktlen).pbufFree pb })
    | (none, inst) => (0, some buf, { w with inst := inst })
  | _, _ => (-1, pBuf, w)

/-- `net_WritePacket`. The length is cut to 16 bits where it is passed to
`tcp_write`, and the result is the 32-bit length read as an `int`. -/
def writePacket (w : World N σ) (h : Handle) (pBuf : Option (List Byte)) (len : UInt32)
    (isMore : Bool) (err : ErrT) : Int × World N σ :=
  match h, pBuf with
  | .inst, some buf =>
    let l := w.lwip.tcpWrite w.inst.hNet buf len.toUInt16 err
    if err ≠ .ok then (0, { w with lwip := l })
    else (len.toInt32.toInt, { w with lwip := if isMore then l else l.tcpOutput w.inst.hNet })
  | _, _ => (-1, w)

def isConnected (w : World N σ) (h : Handle) : Bool :=
  h = .inst && w.inst.isConnected

end Net

end McuTest
