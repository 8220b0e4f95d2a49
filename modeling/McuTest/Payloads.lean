import McuTest.Texts
import McuTest.TopicFilter

/-! What the others can tell of a node: its reports can be read back from topic
and payload, and the topics say which nodes hear each other. -/

namespace McuTest

open Printf Numerals TopicFilter

/-- What a subscriber learns. -/
inductive Told where
  | online
  | mac (m : MacAddr)
  | ip (addr : UInt32)
  | uptime (seconds : UInt32)
  deriving DecidableEq

def MacAddr.ofOctets : List Nat → Option MacAddr
  | [a, b, c, d, e, f] =>
    some ⟨UInt8.ofNat a, UInt8.ofNat b, UInt8.ofNat c, UInt8.ofNat d, UInt8.ofNat e, UInt8.ofNat f⟩
  | _ => none

def addrOfOctets : List Nat → Option UInt32
  | [a, b, c, d] => some (UInt32.ofNat (a + 256 * (b + 256 * (c + 256 * d))))
  | _ => none

def upTimeOfFields : List Nat → Option UInt32
  | [h, m, s] => some (UInt32.ofNat (60 * (60 * h + m) + s))
  | _ => none

def Told.read (suffix payload : List Byte) : Option Told :=
  if suffix = bytes "/status" then if payload = bytes "1" then some .online else none
  else if suffix = bytes "/mac" then
    ((readFields 16 45 payload).bind MacAddr.ofOctets).map .mac
  else if suffix = bytes "/ip" then ((readFields 10 46 payload).bind addrOfOctets).map .ip
  else if suffix = bytes "/uptime" then
    ((readFields 10 58 payload).bind upTimeOfFields).map .uptime
  else none

variable (m : MacAddr)

section Names

variable {m m' : MacAddr} {flashUser0 flashUser1 otherUser0 otherUser1 : UInt32}

end Names

section Subscription

end Subscription

end McuTest
