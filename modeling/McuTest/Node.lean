import McuTest.LoopCalls
import McuTest.PublishCb
import McuTest.Texts

/-! The loop with its text buffers. All topics go through `topicBuf` and all
payloads through `msgBuf`; what umqtt is handed is read from them. -/

namespace McuTest

open Printf

/-- A text that fits is stored as a string. Of one that does not nothing is said. -/
def Formats (usnprintf : Mem → String → List Arg → Mem) : Prop :=
  ∀ buf format args, (text format args).length < buf.length →
    (usnprintf buf format args).length = buf.length ∧
      HoldsString (usnprintf buf format args) (text format args)

/-- The bytes up to the terminator; a byte that was never written or does not
belong to the array is not read. -/
def cstring : Mem → Option (List Byte)
  | [] => none
  | none :: _ => none
  | some c :: rest => if c = 0 then some [] else (cstring rest).map fun s => c :: s

/-- The static arrays of `main`. -/
structure Texts where
  nodeName : Mem
  nodeTopic : Mem
  topicBuf : Mem
  msgBuf : Mem
  deriving DecidableEq

def stringMem (s : String) : Mem :=
  (bytes s).map some ++ [some 0]

def zeroMem (n : Nat) : Mem :=
  List.replicate n (some 0)

def Texts.statics : Texts where
  nodeName := stringMem "mcu_test-000000000000"
  nodeTopic := stringMem "mcu-test/000000"
  topicBuf := zeroMem 32
  msgBuf := zeroMem 32

/-- What umqtt is handed, without its handle and without `pUser` and `pId`,
which are NULL. -/
inductive Request where
  | connect (cleanSession willRetain : Bool) (willQos : Byte) (keepAlive : UInt16)
      (clientId willTopic willPayload : List Byte) (username password : Option (List Byte))
  | subscribe (topics : List (List Byte)) (qoss : List Byte)
  | publish (topic payload : List Byte) (qos : Byte) (retain : Bool)
  deriving DecidableEq

def MainCall.request (m : MacAddr) : MainCall → Option Request
  | .umqttConnect _ =>
    some (.connect true true 0 60 m.nodeName (m.topic .status) (bytes "0") none none)
  | .umqttSubscribe => some (.subscribe [m.filter] [0])
  | .umqttPublish r => some (.publish (m.topic r) (m.payload r) 0 r.retain)
  | _ => none

/-- The requests that the calls of the loop stand for, each with its tick. -/
def Main.requests (m : MacAddr) (s : Main) : List (Nat × Request) :=
  s.calls.filterMap fun x => (x.2.request m).map fun r => (x.1, r)

section Buffers

variable (usnprintf : Mem → String → List Arg → Mem) (m : MacAddr)

namespace Texts

/-- Before the loop the name and the root topic of the node are formatted. -/
def start : Texts :=
  { statics with
    nodeName := usnprintf statics.nodeName nodeNameFormat (m.octets.map .num)
    nodeTopic := usnprintf statics.nodeTopic nodeTopicFormat m.nodeArgs }

def setTopic (t : Texts) (format : String) : Option Texts :=
  (cstring t.nodeTopic).map fun node =>
    { t with topicBuf := usnprintf t.topicBuf format [.str node] }

def setMsg (t : Texts) (format : String) (args : List Nat) : Texts :=
  { t with msgBuf := usnprintf t.msgBuf format (args.map .num) }

/-- `umqtt_Publish` of `strlen(msgBuf)` bytes. -/
def publish (t : Texts) (retain : Bool) : Option (Texts × Option Request) := do
  let topic ← cstring t.topicBuf
  let payload ← cstring t.msgBuf
  some (t, some (.publish topic payload 0 retain))

def publishStatus (t : Texts) : Option (Texts × Option Request) := do
  let msgBuf ← writeAt t.msgBuf 0 (bytes "1")
  let topic ← cstring t.topicBuf
  let payload ← (msgBuf.take 1).mapM id
  some ({ t with msgBuf := msgBuf }, some (.publish topic payload 0 true))

def connect (t : Texts) : Option (Texts × Option Request) := do
  let nodeName ← cstring t.nodeName
  let topic ← cstring t.topicBuf
  some (t, some (.connect true true 0 60 nodeName topic (bytes "0") none none))

def subscribe (t : Texts) : Option (Texts × Option Request) := do
  let topic ← cstring t.topicBuf
  some (t, some (.subscribe [topic] [0]))

/-- What a statement of the loop does to the buffers and hands to umqtt. -/
def issue (t : Texts) (s : Main) : Option (Texts × Option Request) :=
  match s.pc with
  | .umqttConnect => (t.setTopic usnprintf "%s/status").bind connect
  | .umqttSubscribe => (t.setTopic usnprintf subscribeFormat).bind subscribe
  | .publishStatus => (t.setTopic usnprintf "%s/status").bind publishStatus
  | .publishMac =>
    (t.setTopic usnprintf "%s/mac").bind fun t => (t.setMsg usnprintf macFormat m.octets).publish true
  | .publishIp =>
    (t.setTopic usnprintf "%s/ip").bind fun t =>
      (t.setMsg usnprintf ipFormat (addrOctets s.ipAddr)).publish true
  | .publishUptime =>
    (t.setTopic usnprintf "%s/uptime").bind fun t =>
      (t.setMsg usnprintf uptimeFormat (hoursMinutesSeconds s.clock.upTime)).publish false
  | _ => some (t, none)

end Texts

structure Node where
  main : Main
  texts : Texts
  requests : List (Nat × Request) := []

def Node.init (clock : Clock) : Node where
  main := Main.init clock
  texts := Texts.start usnprintf m

def nodeStep (n : Node) (e : MainEvent) : Option Node :=
  match e with
  | .exec _ => do
    let main ← mainStep n.main e
    let (texts, req) ← n.texts.issue usnprintf m n.main
    some { main := main, texts := texts
           requests := n.requests ++ req.toList.map fun r => (n.main.clock.elapsed, r) }
  | _ => (mainStep n.main e).map fun main => { n with main := main }

end Buffers

theorem cstring_of_holdsString {buf : Mem} {s : List Byte} (h : HoldsString buf s) (hs : 0 ∉ s) :
    cstring buf = some s := by
  obtain ⟨rest, rfl⟩ := h
  induction s with
  | nil => rfl
  | cons c s ih =>
    have hc : c ≠ 0 := fun hz => hs (by simp [hz])
    have hrest : 0 ∉ s := fun hz => hs (List.mem_cons_of_mem c hz)
    simp only [List.map_cons, List.cons_append, cstring, hc, if_false, ih hrest, Option.map_some]

/-- The name and the root topic are in place; the other two are arrays of their
size with anything in them. -/
structure Texts.Ok (m : MacAddr) (t : Texts) : Prop where
  nodeName : HoldsString t.nodeName m.nodeName
  nodeTopic : HoldsString t.nodeTopic m.nodeTopic
  topicBuf : t.topicBuf.length = 32
  msgBuf : t.msgBuf.length = 32

variable {usnprintf : Mem → String → List Arg → Mem} {m : MacAddr} {t : Texts} {s s' : Main}
  {n : Node}

theorem texts_start_ok (hu : Formats usnprintf) (m : MacAddr) :
    (Texts.start usnprintf m).Ok m where
  nodeName := by
    have hfits : m.nodeName.length < Texts.statics.nodeName.length := by
      rw [nodeName_length]
      decide
    exact (hu _ _ _ hfits).2
  nodeTopic := by
    have hfits : m.nodeTopic.length < Texts.statics.nodeTopic.length := by
      rw [nodeTopic_length]
      decide
    exact (hu _ _ _ hfits).2
  topicBuf := List.length_replicate
  msgBuf := List.length_replicate

namespace Texts.Ok

theorem setTopic (hu : Formats usnprintf) (h : t.Ok m) {format : String}
    (hlen : (text format [.str m.nodeTopic]).length < 32)
    (hzero : 0 ∉ text format [.str m.nodeTopic]) :
    ∃ t', t.setTopic usnprintf format = some t' ∧ t'.Ok m ∧
      cstring t'.topicBuf = some (text format [.str m.nodeTopic]) := by
  have hnode := cstring_of_holdsString h.nodeTopic (zero_not_mem_nodeTopic m)
  have hfits := hu t.topicBuf format [.str m.nodeTopic] (by rw [h.topicBuf]; exact hlen)
  refine ⟨_, by rw [Texts.setTopic, hnode, Option.map_some], ?_, ?_⟩
  · exact { h with topicBuf := hfits.1.trans h.topicBuf }
  · exact cstring_of_holdsString hfits.2 hzero

theorem setMsg (hu : Formats usnprintf) (h : t.Ok m) {format : String} {args : List Nat}
    (hlen : (text format (args.map .num)).length < 32)
    (hzero : 0 ∉ text format (args.map .num)) :
    (t.setMsg usnprintf format args).Ok m ∧
      cstring (t.setMsg usnprintf format args).msgBuf = some (text format (args.map .num)) := by
  have hfits := hu t.msgBuf format (args.map .num) (by rw [h.msgBuf]; exact hlen)
  exact ⟨{ h with msgBuf := hfits.1.trans h.msgBuf }, cstring_of_holdsString hfits.2 hzero⟩

theorem setTopic_report (hu : Formats usnprintf) (h : t.Ok m) (r : Report) :
    ∃ t', t.setTopic usnprintf r.topicFormat = some t' ∧ t'.Ok m ∧
      cstring t'.topicBuf = some (m.topic r) :=
  h.setTopic hu (topic_length_lt m r) (zero_not_mem_topic m r)

/-- A topic, a payload and the publish of both. -/
theorem publish (hu : Formats usnprintf) (h : t.Ok m) (r : Report) {format : String}
    {args : List Nat} (hr : m.payload r = text format (args.map .num)) :
    ∃ t', ((t.setTopic usnprintf r.topicFormat).bind fun t =>
        (t.setMsg usnprintf format args).publish r.retain) =
          some (t', MainCall.request m (.umqttPublish r)) ∧ t'.Ok m := by
  obtain ⟨u, hu', huOk, htopic⟩ := h.setTopic_report hu r
  obtain ⟨hok, hmsg⟩ := huOk.setMsg hu (hr ▸ payload_length_lt m r) (hr ▸ zero_not_mem_payload m r)
  have hkeep : cstring (u.setMsg usnprintf format args).topicBuf = some (m.topic r) := htopic
  refine ⟨_, ?_, hok⟩
  rw [hu', Option.bind_some, Texts.publish, hkeep, hmsg, MainCall.request, hr]
  rfl

theorem publishStatus (hu : Formats usnprintf) (h : t.Ok m) :
    ∃ t', (t.setTopic usnprintf "%s/status").bind Texts.publishStatus =
      some (t', MainCall.request m (.umqttPublish .status)) ∧ t'.Ok m := by
  obtain ⟨u, hu', huOk, htopic⟩ := h.setTopic_report hu .status
  have hroom : 0 + (bytes "1").length ≤ u.msgBuf.length := by
    rw [huOk.msgBuf]
    decide
  obtain ⟨buf, hbuf, hlen, heq⟩ := writeAt_of_le hroom
  have hfirst : (buf.take 1).mapM id = some (bytes "1") := by
    rw [heq]
    rfl
  refine ⟨{ u with msgBuf := buf }, ?_, { huOk with msgBuf := hlen.trans huOk.msgBuf }⟩
  change (t.setTopic usnprintf Report.status.topicFormat).bind Texts.publishStatus = _
  rw [hu', Option.bind_some, Texts.publishStatus, hbuf, htopic]
  simp only [Option.bind_eq_bind, Option.bind_some, hfirst]
  rfl

theorem issue (hu : Formats usnprintf) (h : t.Ok m) (s : Main) (ans : Answers) :
    ∃ t', t.issue usnprintf m s = some (t', (s.issues ans).bind (MainCall.request m)) ∧ t'.Ok m := by
  cases hpc : s.pc <;> simp only [Texts.issue, Main.issues, hpc]
  case umqttConnect =>
    obtain ⟨u, hu', huOk, htopic⟩ := h.setTopic_report hu .status
    have hname := cstring_of_holdsString huOk.nodeName (zero_not_mem_nodeName m)
    refine ⟨u, ?_, huOk⟩
    change (t.setTopic usnprintf Report.status.topicFormat).bind Texts.connect = _
    rw [hu', Option.bind_some, Texts.connect, hname, htopic]
    rfl
  case umqttSubscribe =>
    obtain ⟨u, hu', huOk, htopic⟩ := h.setTopic hu (filter_length_lt m) (zero_not_mem_filter m)
    refine ⟨u, ?_, huOk⟩
    rw [hu', Option.bind_some, Texts.subscribe, htopic]
    rfl
  case publishStatus => exact h.publishStatus hu
  case publishMac => exact h.publish hu .mac rfl
  case publishIp => exact h.publish hu (.ip s.ipAddr) rfl
  case publishUptime => exact h.publish hu (.uptime s.clock.upTime) rfl
  case testReport => split <;> exact ⟨t, rfl, h⟩
  all_goals exact ⟨t, rfl, h⟩

end Texts.Ok

/-- The node has made the requests that belong to the calls of its loop. -/
structure NodeOk (m : MacAddr) (s : Main) (n : Node) : Prop where
  main : n.main = s
  texts : n.texts.Ok m
  requests : n.requests = s.requests m

theorem exec_requests (s : Main) (ans : Answers) :
    (exec s ans).requests m = s.requests m ++
      ((s.issues ans).bind (MainCall.request m)).toList.map fun r => (s.clock.elapsed, r) := by
  rw [Main.requests, exec_calls, List.filterMap_append]
  congr 1
  cases s.issues ans with
  | none => rfl
  | some c => cases hc : c.request m <;> simp [hc]

theorem NodeOk.of_calls (h : NodeOk m s n) (hcalls : s'.calls = s.calls) :
    NodeOk m s' { n with main := s' } where
  main := rfl
  texts := h.texts
  requests := by rw [Main.requests, hcalls]; exact h.requests

theorem NodeOk.step (hu : Formats usnprintf) (h : NodeOk m s n) {e : MainEvent}
    (he : mainStep s e = some s') :
    ∃ n', nodeStep usnprintf m n e = some n' ∧ NodeOk m s' n' := by
  obtain rfl := h.main
  by_cases hx : ∃ ans, e = .exec ans
  · obtain ⟨ans, rfl⟩ := hx
    obtain ⟨_, hs'⟩ := mainStep_exec he
    obtain ⟨t', ht, htOk⟩ := h.texts.issue hu n.main ans
    refine ⟨{ main := s', texts := t', requests := s'.requests m }, ?_, rfl, htOk, rfl⟩
    rw [hs', exec_requests, ← h.requests, ← hs']
    simp only [nodeStep, he, ht, Option.bind_eq_bind, Option.bind_some]
  · have hno : ∀ ans, e ≠ .exec ans := fun ans hl => hx ⟨ans, hl⟩
    have hcalls : s'.calls = n.main.calls := by
      obtain ⟨net, clock, _, rfl⟩ := mainStep_interrupt he hno
      rfl
    refine ⟨{ n with main := s' }, ?_, h.of_calls hcalls⟩
    cases e with
    | exec ans => exact absurd rfl (hno ans)
    | transport te => simp only [nodeStep, he, Option.map_some]
    | lwip le => simp only [nodeStep, he, Option.map_some]
    | sysTick => simp only [nodeStep, he, Option.map_some]

theorem nodeOk_init (hu : Formats usnprintf) (m : MacAddr) (clock : Clock) :
    NodeOk m (Main.init clock) (Node.init usnprintf m clock) where
  main := rfl
  texts := texts_start_ok hu m
  requests := rfl

theorem NodeOk.run (hu : Formats usnprintf) (m : MacAddr) (clock : Clock)
    {es : List MainEvent} (hr : Runs.run mainStep (Main.init clock) es = some s) :
    ∃ n, Runs.run (nodeStep usnprintf m) (Node.init usnprintf m clock) es = some n ∧
      NodeOk m s n := by
  have hstep : ∀ s e s' n, NodeOk m s n → mainStep s e = some s' →
      ∃ n', nodeStep usnprintf m n e = some n' ∧ NodeOk m s' n' :=
    fun s e s' n h he => h.step hu he
  exact Runs.run_simulation hstep (nodeOk_init hu m clock) hr

end McuTest
