import McuTest.History
import McuTest.LoopCalls

/-! What the loop announces when it gets online: the status, the MAC and the IP
address, as a whole right after the subscription, and the address is the one
under which it has dialed. -/

namespace McuTest

open History Lifetime

/-- How far the announcement has got. -/
inductive Greeting where
  | quiet
  | subscribed
  | online
  | located
  deriving DecidableEq

/-- The state in which alone the call is made. -/
def MainCall.turn : MainCall → Greeting
  | .umqttPublish .status => .subscribed
  | .umqttPublish .mac => .online
  | .umqttPublish (.ip _) => .located
  | _ => .quiet

def MainCall.announces : MainCall → Greeting
  | .umqttSubscribe => .subscribed
  | .umqttPublish .status => .online
  | .umqttPublish .mac => .located
  | _ => .quiet

def Greeting.step (g : Greeting) (c : MainCall) : Option Greeting :=
  if g = c.turn then some c.announces else none

/-- The calls that have been made of an announcement. -/
def Greeting.made : Greeting → List MainCall
  | .quiet => []
  | .subscribed => [.umqttSubscribe]
  | .online => [.umqttSubscribe, .umqttPublish .status]
  | .located => [.umqttSubscribe, .umqttPublish .status, .umqttPublish .mac]

def Pc.greeting : Pc → Greeting
  | .publishStatus => .subscribed
  | .publishMac => .online
  | .publishIp => .located
  | _ => .quiet

/-- No call comes before its turn, and while the announcement is being made no
other call is made. -/
def AnnouncedInOrder (calls : List MainCall) : Prop :=
  Throughout (fun pre c =>
    match c with
    | .umqttPublish .status => Greeting.subscribed.made <:+ pre
    | .umqttPublish .mac => Greeting.online.made <:+ pre
    | .umqttPublish (.ip _) => Greeting.located.made <:+ pre
    | _ => ∀ g : Greeting, g ≠ .quiet → ¬g.made <:+ pre) calls

variable {s s' : Main} {calls : List MainCall} {g g' : Greeting} {c : MainCall}

theorem exec_greeting (s : Main) (ans : Answers) :
    Runs.run Greeting.step s.pc.greeting (s.issues ans).toList = some (exec s ans).pc.greeting := by
  cases hpc : s.pc <;> simp only [exec, Main.issues, hpc] <;> repeat' split
  all_goals simp [Runs.run, Pc.greeting, Greeting.step, MainCall.turn, MainCall.announces, Main.goto,
    Main.setState, Main.call, Main.setWorld]

def GreetingOk (s : Main) : Prop :=
  Runs.run Greeting.step .quiet s.called = some s.pc.greeting

theorem GreetingOk.step (h : GreetingOk s) {e : LoopEvent} (he : loopStep s e = some s') :
    GreetingOk s' := by
  rcases loopStep_cases he with ⟨ans, _, rfl⟩ | ⟨_, net, clock, _, rfl⟩
  · rw [GreetingOk, exec_called, run_append, h]
    exact exec_greeting s ans
  · exact h

theorem suffix_append_singleton {as bs : List MainCall} {a b : MainCall} :
    as ++ [a] <:+ bs ++ [b] ↔ a = b ∧ as <:+ bs := by
  rw [List.suffix_concat_iff]
  constructor
  · rintro (h | ⟨t, ht, hsuffix⟩)
    · simp at h
    · obtain ⟨rfl, hlast⟩ := List.append_inj' ht rfl
      exact ⟨(List.cons.inj hlast).1, hsuffix⟩
  · rintro ⟨rfl, hsuffix⟩
    exact .inr ⟨as, rfl, hsuffix⟩

/-- The calls end with just what has been made of the announcement. -/
def Greeting.Remembers (g : Greeting) (calls : List MainCall) : Prop :=
  ∀ g' : Greeting, g' ≠ .quiet → (g'.made <:+ calls ↔ g' = g)

theorem made_append (calls : List MainCall) (c : MainCall) :
    (Greeting.subscribed.made <:+ calls ++ [c] ↔ c = .umqttSubscribe) ∧
      (Greeting.online.made <:+ calls ++ [c] ↔
        c = .umqttPublish .status ∧ Greeting.subscribed.made <:+ calls) ∧
      (Greeting.located.made <:+ calls ++ [c] ↔
        c = .umqttPublish .mac ∧ Greeting.online.made <:+ calls) := by
  have hsubscribed : Greeting.subscribed.made = [] ++ [.umqttSubscribe] := rfl
  have honline : Greeting.online.made = Greeting.subscribed.made ++ [.umqttPublish .status] := rfl
  have hlocated : Greeting.located.made = Greeting.online.made ++ [.umqttPublish .mac] := rfl
  rw [hlocated, suffix_append_singleton, honline, suffix_append_singleton, hsubscribed,
    suffix_append_singleton]
  simp [eq_comm]

theorem announces_iff (c : MainCall) :
    (c = .umqttSubscribe ↔ .subscribed = c.announces) ∧
      (c = .umqttPublish .status ∧ .subscribed = c.turn ↔ .online = c.announces) ∧
      (c = .umqttPublish .mac ∧ .online = c.turn ↔ .located = c.announces) := by
  cases c with
  | umqttPublish what => cases what <;> simp [MainCall.announces, MainCall.turn]
  | _ => simp [MainCall.announces]

theorem Greeting.step_eq_some (hs : Greeting.step g c = some g') : g = c.turn ∧ g' = c.announces := by
  simp only [Greeting.step, Option.ite_none_right_eq_some, Option.some.injEq] at hs
  exact ⟨hs.1, hs.2.symm⟩

theorem Greeting.Remembers.step (h : g.Remembers calls) (hs : Greeting.step g c = some g') :
    g'.Remembers (calls ++ [c]) := by
  obtain ⟨hsubscribed, honline, hlocated⟩ := made_append calls c
  obtain ⟨hsub, hon, hloc⟩ := announces_iff c
  obtain ⟨rfl, rfl⟩ := Greeting.step_eq_some hs
  intro x hx
  cases x with
  | quiet => exact absurd rfl hx
  | subscribed => exact hsubscribed.trans hsub
  | online => rw [honline, h .subscribed (by simp), hon]
  | located => rw [hlocated, h .online (by simp), hloc]

theorem remembers_quiet : Greeting.quiet.Remembers [] := by
  intro x hx
  cases x <;> simp [Greeting.made] at hx ⊢

theorem announcedInOrder_of_run (hr : Runs.run Greeting.step .quiet calls = some g) :
    AnnouncedInOrder calls := by
  intro pre c post he
  obtain ⟨x, y, hx, hy⟩ := throughout_of_run hr pre c post he
  have hrem : x.Remembers pre :=
    run_remembers (H := Greeting.Remembers) remembers_quiet
      (fun _ _ _ _ h hs => Greeting.Remembers.step h hs) hx
  have hturn := (Greeting.step_eq_some hy).1
  have hquiet : x = .quiet → ∀ g : Greeting, g ≠ .quiet → ¬g.made <:+ pre :=
    fun h g hg hmade => hg ((hrem g hg).mp hmade |>.trans h)
  cases c with
  | umqttPublish what =>
    cases what with
    | status => exact (hrem .subscribed (by simp)).mpr hturn.symm
    | mac => exact (hrem .online (by simp)).mpr hturn.symm
    | ip addr => exact (hrem .located (by simp)).mpr hturn.symm
    | uptime seconds => exact hquiet hturn
  | _ => exact hquiet hturn

/-- In any run the announcement is made as a whole, and nothing of it at any
other time. -/
theorem announced_in_order (clock : Clock) {es : List LoopEvent}
    (hr : Runs.run loopStep (Main.init clock) es = some s) : AnnouncedInOrder s.called := by
  have hinit : GreetingOk (Main.init clock) := rfl
  have hok : GreetingOk s := Runs.run_invariant' (fun _ _ _ h he => GreetingOk.step h he) hinit hr
  exact announcedInOrder_of_run hok

theorem announced_in_order_first :
    ∃ s : Main, Runs.run loopStep (Main.init {}) (announcedSession.map .main) = some s ∧
      .umqttPublish (.ip 0x0B00000A) ∈ s.called ∧ AnnouncedInOrder s.called := by
  have hfacts : (Runs.run mainStep (Main.init {}) announcedSession).map
      (fun s => decide (.umqttPublish (.ip 0x0B00000A) ∈ s.called)) = some true := by
    decide +kernel
  obtain ⟨s, hs, hip⟩ := Option.map_eq_some_iff.mp hfacts
  rw [← run_loopStep_main] at hs
  exact ⟨s, hs, of_decide_eq_true hip, announced_in_order {} hs⟩

/-- A statement that runs `net_Connect`. -/
def Dials (s : Main) : LoopEvent → Prop
  | .main (.exec _) => s.pc = .netConnect
  | _ => False

/-- From a `net_Connect` that returned 0 until the recovery. -/
def Main.dialed (s : Main) : Prop :=
  s.runState = .waitNet ∨ s.runState = .waitMqtt ∨ s.runState = .runMqtt ∨ s.pc = .setWaitNet ∨
    s.pc = .testRet ∧ s.ret = 0

/-- The last `net_Connect` before `s` succeeded, and `addr` was the address of
the node when it was called. -/
def DialedUnder (addr : UInt32) (start : Main) (es : List LoopEvent) (s : Main) : Prop :=
  ∃ pre ans mid t, es = pre ++ .main (.exec ans) :: mid ∧ Runs.run loopStep start pre = some t ∧
    t.pc = .netConnect ∧ t.ipAddr = addr ∧ (exec t ans).ret = 0 ∧
      Runs.run loopStep (exec t ans) mid = some s ∧
        Runs.AllSteps loopStep (fun u e => ¬Dials u e) (exec t ans) mid

theorem DialedUnder.snoc {addr : UInt32} {start : Main} {es : List LoopEvent} {e : LoopEvent}
    (h : DialedUnder addr start es s) (hd : ¬Dials s e) (he : loopStep s e = some s') :
    DialedUnder addr start (es ++ [e]) s' := by
  obtain ⟨pre, ans, mid, t, rfl, hpre, hpc, haddr, hret, hmid, hall⟩ := h
  refine ⟨pre, ans, mid ++ [e], t, by simp, hpre, hpc, haddr, hret, ?_, hall.snoc hmid hd⟩
  rw [run_append_singleton, hmid]
  exact he

theorem exec_dialed (ans : Answers) (h : s.placed) (hpc : s.pc ≠ .netConnect)
    (hd : (exec s ans).dialed) : s.dialed ∧ (exec s ans).ipAddr = s.ipAddr := by
  unfold Main.placed at h
  cases hs : s.pc <;> rw [hs] at h <;> simp only [exec, hs] at hd ⊢ <;> (try split at hd) <;>
    (try split)
  case netConnect => exact absurd hs hpc
  all_goals
    simp_all [Main.dialed, Main.goto, Main.setState, Main.call, Main.setWorld, Pc.states]

theorem exec_toNetConnect (ans : Answers) (h : (exec s ans).pc = .netConnect) :
    s.ipAddr ≠ 0 ∧ (exec s ans).ipAddr = s.ipAddr := by
  cases hs : s.pc <;> simp only [exec, hs] at h ⊢ <;> (try split at h) <;> (try split)
  all_goals simp_all [Main.goto, Main.setState, Main.call, Main.setWorld]

structure AddressOk (start s : Main) (es : List LoopEvent) : Prop where
  run : Runs.run loopStep start es = some s
  placed : s.placed
  dialing : s.pc = .netConnect → s.ipAddr ≠ 0
  dialed : s.dialed → s.ipAddr ≠ 0 ∧ DialedUnder s.ipAddr start es s

theorem AddressOk.exec {start : Main} {es : List LoopEvent} (h : AddressOk start s es)
    {ans : Answers} (he : loopStep s (.main (.exec ans)) = some (exec s ans)) :
    AddressOk start (exec s ans) (es ++ [.main (.exec ans)]) where
  run := by
    rw [run_append_singleton, h.run]
    exact he
  placed := exec_placed ans h.placed
  dialing := fun hpc => by
    obtain ⟨hne, haddr⟩ := exec_toNetConnect ans hpc
    rw [haddr]
    exact hne
  dialed := fun hd => by
    by_cases hpc : s.pc = .netConnect
    · have haddr : (McuTest.exec s ans).ipAddr = s.ipAddr := by
        simp [McuTest.exec, hpc, Main.call, Main.setWorld]
      have hret : (McuTest.exec s ans).ret = 0 := by
        have hplaced := h.placed
        simp [Main.placed, hpc, Pc.states] at hplaced
        simpa [Main.dialed, McuTest.exec, hpc, Main.call, Main.setWorld, hplaced] using hd
      rw [haddr]
      exact ⟨h.dialing hpc, es, ans, [], s, rfl, h.run, hpc, rfl, hret, rfl, trivial⟩
    · obtain ⟨hold, haddr⟩ := exec_dialed ans h.placed hpc hd
      rw [haddr]
      exact ⟨(h.dialed hold).1, (h.dialed hold).2.snoc hpc he⟩

theorem AddressOk.step {start : Main} {es : List LoopEvent} (h : AddressOk start s es)
    {e : LoopEvent} (he : loopStep s e = some s') : AddressOk start s' (es ++ [e]) := by
  rcases loopStep_cases he with ⟨ans, rfl, rfl⟩ | ⟨hx, net, clock, _, rfl⟩
  · exact h.exec he
  · have hno : ¬Dials s e := by
      intro hd
      cases e with
      | network net => exact hd
      | main e => cases e <;> first | exact hd | exact hx _ rfl
    refine ⟨?_, h.placed, h.dialing, fun hd => ?_⟩
    · rw [run_append_singleton, h.run]
      exact he
    · exact ⟨(h.dialed hd).1, (h.dialed hd).2.snoc hno he⟩

theorem addressOk_init (clock : Clock) :
    AddressOk (Main.init clock) (Main.init clock) [] where
  run := rfl
  placed := (loopOk_init clock).placed
  dialing := by simp [Main.init]
  dialed := by simp [Main.dialed, Main.init]

theorem addressOk_run {clock : Clock} {es : List LoopEvent}
    (hr : Runs.run loopStep (Main.init clock) es = some s) : AddressOk (Main.init clock) s es :=
  run_remembers (H := AddressOk (Main.init clock)) (addressOk_init clock)
    (fun _ _ _ _ h he => AddressOk.step h he) hr

theorem AddressOk.publishIp {start : Main} {es : List LoopEvent} (h : AddressOk start s es)
    (hpc : s.pc = .publishIp) : s.ipAddr ≠ 0 ∧ DialedUnder s.ipAddr start es s := by
  have hplaced := h.placed
  simp only [Main.placed, hpc, Pc.states, List.mem_singleton] at hplaced
  exact h.dialed (.inr (.inr (.inl hplaced)))

/-- Of all addresses that lwIP may have given the node, the one that a session
publishes is that under which its connection has been made. -/
theorem published_address (clock : Clock) {es : List LoopEvent}
    (hr : Runs.run loopStep (Main.init clock) es = some s) (hpc : s.pc = .publishIp) :
    s.ipAddr ≠ 0 ∧ DialedUnder s.ipAddr (Main.init clock) es s :=
  (addressOk_run hr).publishIp hpc

theorem published_address_first :
    ∃ s : Main, Runs.run loopStep (Main.init {}) ((announcedSession.take 522).map .main) = some s ∧
      DialedUnder 0x0B00000A (Main.init {}) ((announcedSession.take 522).map .main) s := by
  have hfacts : (Runs.run mainStep (Main.init {}) (announcedSession.take 522)).map
      (fun s => (s.pc, s.ipAddr)) = some (.publishIp, 0x0B00000A) := by
    decide +kernel
  obtain ⟨s, hs, hat⟩ := Option.map_eq_some_iff.mp hfacts
  obtain ⟨hpc, haddr⟩ := Prod.mk.inj hat
  rw [← run_loopStep_main] at hs
  exact ⟨s, hs, haddr ▸ (published_address {} hs hpc).2⟩

end McuTest
