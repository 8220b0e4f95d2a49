import McuTest.NetQueue
import McuTest.PcbTable
import McuTest.Runs

/-! net_client driven by any order of API calls and of lwIP callbacks, each
taken as one step. What lwIP answers to a call is part of the event. -/

namespace McuTest

inductive ApiCall where
  | connect (addr : IpAddr) (port : UInt16) (avail : Bool) (connErr closeErr : ErrT)
  | disconnect (closeErr : ErrT)
  | readPacket (len : UInt16)
  | writePacket (buf : List Byte) (len : UInt32) (isMore : Bool) (err : ErrT)
  deriving DecidableEq

/-- What lwIP does on its own. `receive` offers a new pbuf, `redeliver` the one
it still holds after a refusal, and `fatal` frees the PCB. -/
inductive LwipEvent where
  | connected (p : Pcb)
  | receive (p : Pcb) (chain : Chain)
  | redeliver
  | giveUp
  | peerClose (p : Pcb)
  | poll (p : Pcb)
  | sent (p : Pcb) (len : UInt16)
  | fatal (p : Pcb)
  deriving DecidableEq

inductive NetEvent where
  | call (c : ApiCall)
  | lwip (e : LwipEvent)
  deriving DecidableEq

variable {N : Nat} [NeZero N] {σ : Type}

def World.init (pfnEventCb : NetClientEvent → σ → σ) (app : σ) : World N σ where
  inst := Net.init pfnEventCb
  lwip := {}
  app := app

def World.note (w : World N σ) (a : Action) : World N σ :=
  { w with lwip := w.lwip.note a }

def freshMem (len : UInt16) : Mem :=
  List.replicate len.toNat none

def callStep (w : World N σ) : ApiCall → World N σ
  | .connect addr port avail connErr closeErr =>
    let r := Net.connect w .inst addr port avail connErr closeErr
    r.2.note (.netConnect r.1 r.2.inst.hNet)
  | .disconnect closeErr => Net.disconnect w .inst closeErr
  | .readPacket len =>
    let r := Net.readPacket w .inst (some (freshMem len)) len
    match (Net.dequeuePbuf w.inst).1, r.2.1 with
    | some pb, some buf => r.2.2.note (.netRead pb (buf.take r.1.toNat))
    | _, _ => r.2.2
  | .writePacket buf len isMore err => (Net.writePacket w .inst (some buf) len isMore err).2

/-- lwIP hands `pb` to `net_ReceiveCb` and keeps it if it is refused. -/
def deliver (w : World N σ) (p : Pcb) (pb : Pbuf) : World N σ :=
  let arg := (w.lwip.pcbs p).arg
  let r := Net.receiveCb (w.note (.entered .receiveCb arg)) arg (some p) (some pb)
  { r.2 with lwip := { r.2.lwip.note (.received p pb r.1) with
      refused := if r.1 = .ok then none else some (p, pb) } }

def World.offer (w : World N σ) (p : Pcb) (pb : Pbuf) : World N σ :=
  { w with lwip := { w.lwip.note (.offered p pb) with nextPbuf := w.lwip.nextPbuf + 1 } }

def World.receives (w : World N σ) (p : Pcb) : Prop :=
  (w.lwip.pcbs p).live = true ∧ (w.lwip.pcbs p).recv = some .receiveCb

instance (w : World N σ) (p : Pcb) : Decidable (w.receives p) :=
  inferInstanceAs (Decidable (_ ∧ _))

def lwipStep (w : World N σ) : LwipEvent → Option (World N σ)
  | .connected p =>
    let s := w.lwip.pcbs p
    if s.live = true ∧ s.established = false ∧ s.connected = some .connectedCb then
      let l := w.lwip.onPcb (some p) fun s => { s with established := true }
      some (Net.connectedCb ({ w with lwip := l }.note (.entered .connectedCb s.arg)) s.arg)
    else none
  | .receive p chain =>
    if w.receives p ∧ w.lwip.refused = none then
      let pb : Pbuf := { chain with addr := w.lwip.nextPbuf }
      some (deliver (w.offer p pb) p pb)
    else none
  | .redeliver =>
    match w.lwip.refused with
    | some (p, pb) => if w.receives p then some (deliver w p pb) else none
    | none => none
  | .giveUp => some { w with lwip := { w.lwip with refused := none } }
  | .peerClose p =>
    let arg := (w.lwip.pcbs p).arg
    if w.receives p then
      some (Net.receiveCb (w.note (.entered .receiveCb arg)) arg (some p) none).2
    else none
  | .poll p =>
    let s := w.lwip.pcbs p
    if s.live = true ∧ s.poll = some .pollCb then
      some (Net.pollCb (w.note (.entered .pollCb s.arg)) s.arg)
    else none
  | .sent p len =>
    let s := w.lwip.pcbs p
    if s.live = true ∧ s.sent = some .sentCb then
      some (Net.sentCb (w.note (.entered .sentCb s.arg)) s.arg len).2
    else none
  | .fatal p =>
    let s := w.lwip.pcbs p
    if s.live = true ∧ s.err = some .errorCb then
      let l := (w.lwip.note (.pcbFreed p)).onPcb (some p) fun s => { s with live := false }
      some (Net.errorCb ({ w with lwip := l }.note (.entered .errorCb s.arg)) s.arg)
    else none

def World.newPbuf (w : World N σ) (chain : Chain) : Pbuf :=
  { chain with addr := w.lwip.nextPbuf }

/-- A step of lwIP with what has to hold for it. -/
inductive Fires (w : World N σ) : LwipEvent → World N σ → Prop where
  | connected (p : Pcb) (hlive : (w.lwip.pcbs p).live = true)
      (hnew : (w.lwip.pcbs p).established = false)
      (hcb : (w.lwip.pcbs p).connected = some .connectedCb) :
      Fires w (.connected p) (Net.connectedCb
        ({ w with lwip := w.lwip.onPcb (some p) fun s => { s with established := true } }.note
          (.entered .connectedCb (w.lwip.pcbs p).arg)) (w.lwip.pcbs p).arg)
  | receive (p : Pcb) (chain : Chain) (hr : w.receives p) (hheld : w.lwip.refused = none) :
      Fires w (.receive p chain) (deliver (w.offer p (w.newPbuf chain)) p (w.newPbuf chain))
  | redeliver (p : Pcb) (pb : Pbuf) (hheld : w.lwip.refused = some (p, pb)) (hr : w.receives p) :
      Fires w .redeliver (deliver w p pb)
  | giveUp : Fires w .giveUp { w with lwip := { w.lwip with refused := none } }
  | peerClose (p : Pcb) (hr : w.receives p) :
      Fires w (.peerClose p) (Net.receiveCb (w.note (.entered .receiveCb (w.lwip.pcbs p).arg))
        (w.lwip.pcbs p).arg (some p) none).2
  | poll (p : Pcb) (hlive : (w.lwip.pcbs p).live = true)
      (hcb : (w.lwip.pcbs p).poll = some .pollCb) :
      Fires w (.poll p)
        (Net.pollCb (w.note (.entered .pollCb (w.lwip.pcbs p).arg)) (w.lwip.pcbs p).arg)
  | sent (p : Pcb) (len : UInt16) (hlive : (w.lwip.pcbs p).live = true)
      (hcb : (w.lwip.pcbs p).sent = some .sentCb) :
      Fires w (.sent p len)
        (Net.sentCb (w.note (.entered .sentCb (w.lwip.pcbs p).arg)) (w.lwip.pcbs p).arg len).2
  | fatal (p : Pcb) (hlive : (w.lwip.pcbs p).live = true)
      (hcb : (w.lwip.pcbs p).err = some .errorCb) :
      Fires w (.fatal p) (Net.errorCb
        ({ w with lwip := (w.lwip.note (.pcbFreed p)).onPcb (some p) fun s =>
            { s with live := false } }.note (.entered .errorCb (w.lwip.pcbs p).arg))
        (w.lwip.pcbs p).arg)

theorem fires_of_lwipStep {w w' : World N σ} {e : LwipEvent} (he : lwipStep w e = some w') :
    Fires w e w' := by
  cases e with
  | connected p =>
    simp only [lwipStep, Option.ite_none_right_eq_some, Option.some.injEq] at he
    obtain ⟨⟨hlive, hnew, hcb⟩, rfl⟩ := he
    exact .connected p hlive hnew hcb
  | receive p chain =>
    simp only [lwipStep, Option.ite_none_right_eq_some, Option.some.injEq] at he
    obtain ⟨⟨hr, hheld⟩, rfl⟩ := he
    exact .receive p chain hr hheld
  | redeliver =>
    cases hheld : w.lwip.refused with
    | none => simp [lwipStep, hheld] at he
    | some x =>
      simp only [lwipStep, hheld, Option.ite_none_right_eq_some, Option.some.injEq] at he
      obtain ⟨hr, rfl⟩ := he
      exact .redeliver x.1 x.2 hheld hr
  | giveUp =>
    obtain rfl := Option.some.inj he
    exact .giveUp
  | peerClose p =>
    simp only [lwipStep, Option.ite_none_right_eq_some, Option.some.injEq] at he
    obtain ⟨hr, rfl⟩ := he
    exact .peerClose p hr
  | poll p =>
    simp only [lwipStep, Option.ite_none_right_eq_some, Option.some.injEq] at he
    obtain ⟨⟨hlive, hcb⟩, rfl⟩ := he
    exact .poll p hlive hcb
  | sent p len =>
    simp only [lwipStep, Option.ite_none_right_eq_some, Option.some.injEq] at he
    obtain ⟨⟨hlive, hcb⟩, rfl⟩ := he
    exact .sent p len hlive hcb
  | fatal p =>
    simp only [lwipStep, Option.ite_none_right_eq_some, Option.some.injEq] at he
    obtain ⟨⟨hlive, hcb⟩, rfl⟩ := he
    exact .fatal p hlive hcb

def World.concerns (w : World N σ) (p : Pcb) : LwipEvent → Prop
  | .connected q | .receive q _ | .peerClose q | .poll q | .sent q _ | .fatal q => q = p
  | .redeliver => w.lwip.refused.map Prod.fst = some p
  | .giveUp => True

instance (w : World N σ) (p : Pcb) (e : LwipEvent) : Decidable (w.concerns p e) := by
  cases e <;> unfold World.concerns <;> infer_instance

def netStep (w : World N σ) : NetEvent → Option (World N σ)
  | .call c => some (callStep w c)
  | .lwip e => lwipStep w e

def connectEvents : List NetEvent :=
  [.call (.connect ⟨10, 0, 0, 12⟩ 1883 true .ok .ok), .lwip (.connected 0)]

end McuTest
