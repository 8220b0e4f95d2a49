import McuTest.NetSystem

/-! `PublishCb`: the block for the larger of topic and message, and the writes
into it. A write outside the block leaves the model. -/

namespace McuTest

def writeAt (buf : Mem) (i : Nat) (src : List Byte) : Option Mem :=
  if i + src.length ≤ buf.length then
    some (buf.take i ++ src.map some ++ buf.drop (i + src.length))
  else none

/-- What umqtt hands to `PublishCb`; both lengths fit their 16 bits. -/
structure Publish where
  dup : Bool
  retain : Bool
  qos : Byte
  topic : List Byte
  msg : List Byte
  topic_lt : topic.length < 2 ^ 16
  msg_lt : msg.length < 2 ^ 16

namespace Publish

def topicLen (p : Publish) : UInt16 :=
  UInt16.ofNat p.topic.length

def msgLen (p : Publish) : UInt16 :=
  UInt16.ofNat p.msg.length

/-- The local `len`, which is a `uint16_t` again. -/
def bufLen (p : Publish) : UInt16 :=
  (if p.topicLen > p.msgLen then p.topicLen else p.msgLen) + 1

@[simp] theorem topicLen_toNat (p : Publish) : p.topicLen.toNat = p.topic.length :=
  Nat.mod_eq_of_lt p.topic_lt

@[simp] theorem msgLen_toNat (p : Publish) : p.msgLen.toNat = p.msg.length :=
  Nat.mod_eq_of_lt p.msg_lt

end Publish

/-- What goes to the console. A string is shown with the block it starts. -/
inductive Printed where
  | publish (dup retain : Bool) (qos : Byte)
  | noTopic
  | topic (buf : Mem)
  | msg (buf : Mem)
  deriving DecidableEq

/-- `PublishCb`; `avail` is the answer of `app_malloc`. -/
def publishCb (avail : Bool) (p : Publish) : Option (List Printed) :=
  let head : Printed := .publish p.dup p.retain p.qos
  if avail then do
    let buf ← writeAt (freshMem p.bufLen) 0 p.topic
    let topic ← writeAt buf p.topicLen.toNat [0]
    let buf ← writeAt topic 0 p.msg
    let msg ← writeAt buf p.msgLen.toNat [0]
    some [head, .topic topic, .msg msg]
  else some [head, .noTopic]

def HoldsString (buf : Mem) (s : List Byte) : Prop :=
  s.map some ++ [some 0] <+: buf

theorem writeAt_of_le {buf : Mem} {i : Nat} {src : List Byte} (h : i + src.length ≤ buf.length) :
    ∃ buf', writeAt buf i src = some buf' ∧ buf'.length = buf.length ∧
      buf' = buf.take i ++ src.map some ++ buf.drop (i + src.length) := by
  refine ⟨_, by simp only [writeAt, h, if_true], ?_, rfl⟩
  simp only [List.length_append, List.length_take, List.length_map, List.length_drop]
  omega

theorem writeAt_string {buf : Mem} {s : List Byte} (h : s.length < buf.length) :
    ∃ mid buf', writeAt buf 0 s = some mid ∧ writeAt mid s.length [0] = some buf' ∧
      buf'.length = buf.length ∧ HoldsString buf' s := by
  have hstart : 0 + s.length ≤ buf.length := by omega
  obtain ⟨mid, hmid, hlen, heq⟩ := writeAt_of_le hstart
  have hroom : s.length + [(0 : Byte)].length ≤ mid.length := by
    rw [hlen]
    exact h
  obtain ⟨buf', hbuf, hlen', heq'⟩ := writeAt_of_le hroom
  have htake : mid.take s.length = s.map some := by
    rw [heq, List.take_zero, List.nil_append]
    exact List.take_left' (List.length_map _)
  refine ⟨mid, buf', hmid, hbuf, hlen'.trans hlen, ?_⟩
  rw [heq', htake]
  exact List.prefix_append _ _

theorem bufLen_toNat (p : Publish) :
    p.bufLen.toNat = (max p.topic.length p.msg.length + 1) % 2 ^ 16 := by
  have hmax : (if p.topicLen > p.msgLen then p.topicLen else p.msgLen).toNat =
      max p.topic.length p.msg.length := by
    split_ifs with h
    · have hlt := UInt16.lt_iff_toNat_lt.mp h
      simp only [Publish.topicLen_toNat, Publish.msgLen_toNat] at hlt ⊢
      omega
    · have hle := UInt16.le_iff_toNat_le.mp (UInt16.not_lt.mp h)
      simp only [Publish.topicLen_toNat, Publish.msgLen_toNat] at hle ⊢
      omega
  rw [Publish.bufLen, UInt16.toNat_add, hmax]
  rfl

theorem bufLen_gt_iff (p : Publish) :
    (p.topicLen < p.bufLen ∧ p.msgLen < p.bufLen) ↔ p.topicLen ≠ 65535 ∧ p.msgLen ≠ 65535 := by
  have htopic := p.topic_lt
  have hmsg := p.msg_lt
  simp only [UInt16.lt_iff_toNat_lt, bufLen_toNat, Publish.topicLen_toNat, Publish.msgLen_toNat,
    ne_eq, ← UInt16.toNat_inj]
  have hmax : (65535 : UInt16).toNat = 65535 := rfl
  rw [hmax]
  omega

theorem publishCb_prints (p : Publish) (ht : p.topicLen < p.bufLen) (hm : p.msgLen < p.bufLen) :
    ∃ topic msg, publishCb true p = some [.publish p.dup p.retain p.qos, .topic topic, .msg msg] ∧
      HoldsString topic p.topic ∧ HoldsString msg p.msg := by
  rw [UInt16.lt_iff_toNat_lt, Publish.topicLen_toNat] at ht
  rw [UInt16.lt_iff_toNat_lt, Publish.msgLen_toNat] at hm
  have hfresh : (freshMem p.bufLen).length = p.bufLen.toNat := List.length_replicate
  obtain ⟨mid, topic, hmid, htopic, hlen, hholds⟩ := writeAt_string (hfresh.symm ▸ ht)
  have hroom : p.msg.length < topic.length := by
    rw [hlen, hfresh]
    exact hm
  obtain ⟨mid', msg, hmid', hmsg, _, hholds'⟩ := writeAt_string hroom
  refine ⟨topic, msg, ?_, hholds, hholds'⟩
  simp [publishCb, hmid, htopic, hmid', hmsg]

/-- The block is larger than topic and message, every write stays inside it and
both strings are printed with their terminator. -/
def PrintsSafely (p : Publish) : Prop :=
  p.topicLen < p.bufLen ∧ p.msgLen < p.bufLen ∧
    ∀ avail, ∃ out, publishCb avail p = some out ∧ (avail = true →
      ∃ topic msg, out = [.publish p.dup p.retain p.qos, .topic topic, .msg msg] ∧
        HoldsString topic p.topic ∧ HoldsString msg p.msg)

/-- The length plus one wraps to 0 at 65535 and nowhere else. -/
theorem publishCb_safe_iff (p : Publish) :
    PrintsSafely p ↔ p.topicLen ≠ 65535 ∧ p.msgLen ≠ 65535 := by
  rw [← bufLen_gt_iff]
  constructor
  · rintro ⟨ht, hm, _⟩
    exact ⟨ht, hm⟩
  · rintro ⟨ht, hm⟩
    refine ⟨ht, hm, fun avail => ?_⟩
    cases avail with
    | false => exact ⟨_, rfl, nofun⟩
    | true =>
      obtain ⟨topic, msg, hout, hholds⟩ := publishCb_prints p ht hm
      exact ⟨_, hout, fun _ => ⟨topic, msg, rfl, hholds⟩⟩

def longPublish : Publish where
  dup := false
  retain := false
  qos := 0
  topic := [116]
  msg := List.replicate 65535 0
  topic_lt := by decide
  msg_lt := by rw [List.length_replicate]; decide

theorem not_publishCb_safe : ¬∀ p, PrintsSafely p := by
  intro hall
  have hsize : longPublish.msgLen = 65535 := by
    apply UInt16.toNat_inj.mp
    rw [Publish.msgLen_toNat]
    exact List.length_replicate
  have hgt := (bufLen_gt_iff longPublish).mp ⟨(hall longPublish).1, (hall longPublish).2.1⟩
  exact hgt.2 hsize

end McuTest
