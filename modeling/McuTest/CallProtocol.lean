import McuTest.Session

/-! The protocol of the calls, stated on the calls alone. -/

namespace McuTest

open History MainCall

def MainCall.needsSession : MainCall → Bool
  | .umqttGetConnectedStatus _ | .umqttRun _ _ | .umqttSubscribe => true
  | _ => false

/-- The last successful `umqtt_Connect` has not been followed by `umqtt_Disconnect`. -/
def InSession (calls : List MainCall) : Prop :=
  ∃ mid, since joins calls = some (.umqttConnect .ok, mid) ∧ .umqttDisconnect ∉ mid

/-- A session is what follows a successful `umqtt_Connect` up to the next
`umqtt_Disconnect`. -/
structure KeepsProtocol (calls : List MainCall) : Prop where
  takesDown : ∀ pre mid post ret ret',
    calls = pre ++ .netConnect ret :: (mid ++ .netConnect ret' :: post) →
      ∃ front back, mid = front ++ .umqttDisconnect :: .netDisconnect :: back
  connects : ∀ pre post err, calls = pre ++ .umqttConnect err :: post → Dialed true pre
  inSession : ∀ pre post c, calls = pre ++ c :: post → needsSession c = true → InSession pre
  subscribesOnce : ∀ pre mid post,
    calls = pre ++ .umqttConnect .ok :: (mid ++ .umqttDisconnect :: post) →
      .umqttDisconnect ∉ mid →
        mid.count .umqttSubscribe = if .umqttGetConnectedStatus .connected ∈ mid then 1 else 0
  subscribesAtOnce : ∀ pre post c,
    calls = pre ++ .umqttGetConnectedStatus .connected :: c :: post → c = .umqttSubscribe
  atMostOnce : ∀ pre mid post, calls = pre ++ .umqttConnect .ok :: (mid ++ post) →
    .umqttDisconnect ∉ mid →
      mid.count .umqttSubscribe ≤ if .umqttGetConnectedStatus .connected ∈ mid then 1 else 0

variable {calls pre mid post : List MainCall} {c : MainCall} {q q' : Session}

theorem remembers_of_run (hr : Runs.run Session.step .closed calls = some q) :
    q.Remembers calls := by
  refine run_remembers ?_ (fun _ _ _ _ h hs => h.step hs) hr
  exact ⟨fun a mid hs => by simp at hs, fun a mid hs => by simp at hs⟩

theorem session_at (hr : Runs.run Session.step .closed calls = some q)
    (hc : calls = pre ++ c :: post) :
    ∃ t u, t.Remembers pre ∧ Session.step t c = some u := by
  obtain ⟨t, u, ht, hu⟩ := throughout_of_run hr pre c post hc
  exact ⟨t, u, remembers_of_run ht, hu⟩

theorem takenDown_between {ret : Int} (h : TakenDown (pre ++ .netConnect ret :: mid)) :
    ∃ front back, mid = front ++ .umqttDisconnect :: .netDisconnect :: back := by
  have hfound : ∃ a last, since dials (pre ++ .netConnect ret :: mid) = some (a, last) ∧
      last <:+ mid := exists_since rfl
  obtain ⟨a, last, hsince, x, rfl⟩ := hfound
  obtain ⟨front, back, rfl⟩ := h a last hsince
  exact ⟨x ++ front, back, by simp⟩

theorem step_netConnect {ret : Int} (h : q.Remembers calls)
    (hs : Session.step q (.netConnect ret) = some q') : TakenDown calls := by
  cases q <;> simp [Session.step] at hs
  exact h.1

theorem step_umqttConnect {err : UmqttError} (h : q.Remembers calls)
    (hs : Session.step q (.umqttConnect err) = some q') : Dialed true calls ∧ NoSession calls := by
  cases q <;> simp [Session.step] at hs
  exact h

theorem OpenSession.inSession {g f : Bool} {n : Nat} (h : OpenSession g n f calls) :
    InSession calls := by
  obtain ⟨mid, hs, hd, _⟩ := h
  exact ⟨mid, hs, hd⟩

theorem step_needsSession (h : q.Remembers calls) (hs : Session.step q c = some q')
    (hn : needsSession c = true) : InSession calls := by
  cases c <;> simp [needsSession] at hn <;> cases q <;> simp [Session.step] at hs <;>
    exact OpenSession.inSession h

/-- Without a `umqtt_Disconnect` there is no second `umqtt_Connect` that succeeds. -/
theorem since_joins (hr : Runs.run Session.step .closed calls = some q)
    (hc : calls = pre ++ .umqttConnect .ok :: (mid ++ post)) (hd : .umqttDisconnect ∉ mid) :
    since joins (pre ++ .umqttConnect .ok :: mid) = some (.umqttConnect .ok, mid) := by
  refine since_eq_some_iff.mpr ⟨by simp [joins], fun b hb => ?_, pre, rfl⟩
  by_contra hjoins
  obtain ⟨err, rfl⟩ : ∃ err, b = .umqttConnect err := by
    cases b <;> simp [joins] at hjoins ⊢
  obtain ⟨x, y, rfl⟩ := List.append_of_mem hb
  have hsplit : calls = (pre ++ .umqttConnect .ok :: x) ++ .umqttConnect err :: (y ++ post) := by
    simpa using hc
  obtain ⟨t, u, ht, hu⟩ := session_at hr hsplit
  have hfound : ∃ a last, since joins (pre ++ .umqttConnect .ok :: x) = some (a, last) ∧
      last <:+ x := exists_since rfl
  obtain ⟨a, last, hsince, hsuffix⟩ := hfound
  have hleft := (step_umqttConnect ht hu).2 a last hsince
  exact hd (List.mem_append_left _ (hsuffix.subset hleft))

theorem any_greets : mid.any greets = true ↔ .umqttGetConnectedStatus .connected ∈ mid := by
  rw [List.any_eq_true]
  constructor
  · rintro ⟨c, hc, hg⟩
    cases c <;> simp [greets] at hg
    subst hg
    exact hc
  · intro hc
    exact ⟨_, hc, by simp [greets]⟩

theorem OpenSession.count {g f : Bool} {n : Nat} (h : OpenSession g n f calls)
    (hs : since joins calls = some (.umqttConnect .ok, mid)) :
    mid.count .umqttSubscribe = n ∧ (g = true ↔ .umqttGetConnectedStatus .connected ∈ mid) := by
  obtain ⟨mid', hs', _, hg, hn, _⟩ := h
  obtain rfl := (Prod.mk.inj (Option.some.inj (hs.symm.trans hs'))).2
  exact ⟨hn, by rw [← hg, any_greets]⟩

/-- How often the session has subscribed; only between the answer of umqtt and
the subscription it owes one. -/
theorem Session.Remembers.count (h : q.Remembers calls)
    (hs : since joins calls = some (.umqttConnect .ok, mid)) (hd : .umqttDisconnect ∉ mid) :
    mid.count .umqttSubscribe = (if .umqttGetConnectedStatus .connected ∈ mid then 1 else 0) ∨
      q = .greeted ∧ mid.count .umqttSubscribe = 0 := by
  have hno : ¬NoSession calls := fun hno => hd (hno _ _ hs)
  cases q with
  | joined =>
    obtain ⟨hn, hg⟩ := OpenSession.count h hs
    exact .inl (by rw [hn, if_neg (fun hm => by simp at hg; exact hg hm)])
  | greeted => exact .inr ⟨rfl, (OpenSession.count h hs).1⟩
  | running =>
    obtain ⟨hn, hg⟩ := OpenSession.count h hs
    exact .inl (by rw [hn, if_pos (hg.mp rfl)])
  | lost =>
    obtain ⟨g, h⟩ := h
    obtain ⟨hn, hg⟩ := OpenSession.count h hs
    exact .inl (by rw [hn]; simp only [hg])
  | refused => exact absurd h hno
  | _ => exact absurd h.2 hno

theorem keepsProtocol_of_run (hr : Runs.run Session.step .closed calls = some q) :
    KeepsProtocol calls := by
  constructor
  case takesDown =>
    intro pre mid post ret ret' hc
    have hsplit : calls = (pre ++ .netConnect ret :: mid) ++ .netConnect ret' :: post := by
      simpa using hc
    obtain ⟨t, u, ht, hu⟩ := session_at hr hsplit
    exact takenDown_between (step_netConnect ht hu)
  case connects =>
    intro pre post err hc
    obtain ⟨t, u, ht, hu⟩ := session_at hr hc
    exact (step_umqttConnect ht hu).1
  case inSession =>
    intro pre post c hc hn
    obtain ⟨t, u, ht, hu⟩ := session_at hr hc
    exact step_needsSession ht hu hn
  case subscribesOnce =>
    intro pre mid post hc hd
    have hs := since_joins hr hc hd
    have hsplit : calls = (pre ++ .umqttConnect .ok :: mid) ++ .umqttDisconnect :: post := by
      simpa using hc
    obtain ⟨t, u, ht, hu⟩ := session_at hr hsplit
    rcases ht.count hs hd with hn | ⟨rfl, _⟩
    · exact hn
    · simp [Session.step] at hu
  case subscribesAtOnce =>
    intro pre post c hc
    rw [hc, run_append, Option.bind_eq_some_iff] at hr
    obtain ⟨t, _, hrest⟩ := hr
    obtain ⟨u, hu, hrest⟩ := Runs.run_cons hrest
    obtain ⟨v, hv, _⟩ := Runs.run_cons hrest
    have hgreeted : u = .greeted := by
      cases t <;> simp [Session.step] at hu
      exact hu.symm
    rw [hgreeted] at hv
    cases c <;> simp [Session.step] at hv
    rfl
  case atMostOnce =>
    intro pre mid post hc hd
    have hs := since_joins hr hc hd
    have hlog : calls = (pre ++ .umqttConnect .ok :: mid) ++ post := by simpa using hc
    rw [hlog, run_append, Option.bind_eq_some_iff] at hr
    obtain ⟨t, ht, _⟩ := hr
    rcases (remembers_of_run ht).count hs hd with hn | ⟨_, hn⟩
    · exact hn.le
    · omega

/-- Whatever lwIP and umqtt answer, and whatever becomes of the network between
two statements, the loop calls them in the order of the protocol. -/
theorem main_keepsProtocol (clock : Clock) {es : List LoopEvent} {s : Main}
    (hr : Runs.run loopStep (Main.init clock) es = some s) : KeepsProtocol s.called := by
  obtain ⟨q, _, hrun⟩ := (callsOk_of_run clock hr).session
  exact keepsProtocol_of_run hrun

def sessionAndRefusal : List MainEvent :=
  List.replicate 7 (MainEvent.exec { ipAddr := 1 }) ++ [MainEvent.lwip (.connected 0)] ++
    List.replicate 8 (MainEvent.exec {}) ++ [MainEvent.exec { err := .connected }] ++
      List.replicate 6 (MainEvent.exec {}) ++ [MainEvent.exec { err := .other 1 }] ++
        List.replicate 9 (MainEvent.exec {}) ++ List.replicate 300 MainEvent.sysTick ++
          List.replicate 11 (MainEvent.exec { ipAddr := 1, avail := false })

theorem main_keepsProtocol_two_attempts :
    ∃ s : Main, Runs.run loopStep (Main.init {}) (sessionAndRefusal.map .main) = some s ∧
      s.called.filter dials = [.netConnect 0, .netConnect (-2)] ∧
        .umqttSubscribe ∈ s.called ∧ KeepsProtocol s.called := by
  have hfacts : (Runs.run mainStep (Main.init {}) sessionAndRefusal).map (fun s =>
      (s.called.filter dials, decide (.umqttSubscribe ∈ s.called))) =
        some ([.netConnect 0, .netConnect (-2)], true) := by
    decide +kernel
  obtain ⟨s, hs, hf⟩ := Option.map_eq_some_iff.mp hfacts
  obtain ⟨hdials, hsub⟩ := Prod.mk.inj hf
  rw [← run_loopStep_main] at hs
  exact ⟨s, hs, hdials, of_decide_eq_true hsub, main_keepsProtocol {} hs⟩

end McuTest
