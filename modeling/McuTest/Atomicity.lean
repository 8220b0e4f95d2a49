import McuTest.LoopInvariant
import McuTest.Preemption

/-! The main loop with interrupts also inside the calls that umqtt reads and
writes with. -/

namespace McuTest

structure Interrupted where
  main : Main
  job : Job := .idle

def Interrupted.net (t : Interrupted) : Preempted netclientQueueSize App where
  world := t.main.world
  job := t.job

inductive InterruptedEvent where
  | main (e : MainEvent)
  | next
  deriving DecidableEq

/-- The call of net_client that umqtt makes. -/
def Main.apiCall (s : Main) : MainEvent → Option ApiCall
  | .transport (.call c) => some c
  | .transport .copy => s.net.peeked.map .readPacket
  | _ => none

def MainEvent.interrupts : MainEvent → Bool
  | .lwip _ | .sysTick => true
  | _ => false

def interruptedStep (t : Interrupted) : InterruptedEvent → Option Interrupted
  | .next =>
    (resume t.main.world t.job).map fun p => { main := t.main.setWorld p.world, job := p.job }
  | .main e =>
    if t.job = .idle ∨ e.interrupts = true then
      (mainStep t.main e).map fun s =>
        match t.main.apiCall e with
        | some c =>
          let p := begin t.main.world c
          { main := s.setWorld p.world, job := p.job }
        | none => { t with main := s }
    else none

def Interrupted.init (clock : Clock) : Interrupted where
  main := Main.init clock

def InterruptedEvent.atomic : InterruptedEvent → List MainEvent
  | .main e => [e]
  | .next => []

def Main.relog (s : Main) (log : List Action) : Main :=
  s.setWorld (s.world.relog log)

theorem Main.relog_ite (c : Prop) [Decidable c] (s s' : Main) (log : List Action) :
    (if c then s else s').relog log = if c then s.relog log else s'.relog log :=
  apply_ite (fun u : Main => u.relog log) c s s'

theorem connect_ret_relog (w : World netclientQueueSize App) (log : List Action) (ans : Answers) :
    (Net.connect (w.relog log) .inst serverAddr serverPort ans.avail ans.connErr ans.closeErr).1 =
      (Net.connect w .inst serverAddr serverPort ans.avail ans.connErr ans.closeErr).1 := by
  cases ans.avail with
  | false => rfl
  | true =>
    by_cases he : ans.connErr = .ok
    · rw [he]
      rfl
    · rw [connect_fail _ _ _ _ he, connect_fail _ _ _ _ he]

/-- A statement of the loop does the same whatever has been logged. -/
theorem exec_relog (s : Main) (ans : Answers) :
    ∃ as, as.filter Action.late = [] ∧
      ∀ log, exec (s.relog log) ans = (exec s ans).relog (log ++ as) := by
  cases hpc : s.pc with
  | netConnect =>
    obtain ⟨as, has, hprompt⟩ := prompt_callStep s.world (c := netConnectCall ans) rfl
    refine ⟨as, has, fun log => ?_⟩
    have hret := connect_ret_relog s.world log ans
    have hlog : callStep (s.world.relog log) (netConnectCall ans) =
      (callStep s.world (netConnectCall ans)).relog (log ++ as) := hprompt log
    have hpc' : (s.relog log).pc = s.pc := rfl
    have hworld : (s.relog log).world = s.world.relog log := rfl
    simp only [exec, hpc', hpc, hworld, hret, hlog]
    rfl
  | netDisconnect =>
    obtain ⟨as, has, hprompt⟩ := prompt_callStep s.world (c := .disconnect ans.closeErr) rfl
    refine ⟨as, has, fun log => ?_⟩
    have hlog : callStep (s.world.relog log) (.disconnect ans.closeErr) =
      (callStep s.world (.disconnect ans.closeErr)).relog (log ++ as) := hprompt log
    have hpc' : (s.relog log).pc = s.pc := rfl
    have hworld : (s.relog log).world = s.world.relog log := rfl
    simp only [exec, hpc', hpc, hworld, hlog]
    rfl
  | dispatch =>
    refine ⟨[], rfl, fun log => ?_⟩
    have hpc' : (s.relog log).pc = s.pc := rfl
    have hstate : (s.relog log).runState = s.runState := rfl
    simp only [exec, hpc', hpc, hstate, List.append_nil]
    cases s.runState <;> rfl
  | _ =>
    refine ⟨[], rfl, fun log => ?_⟩
    have hpc' : (s.relog log).pc = s.pc := rfl
    simp only [exec, hpc', hpc, List.append_nil, Main.relog_ite]
    rfl

/-- The loops stand at the same point, and their net_clients where all calls
made whole would be. -/
structure Matches (Q : Action → Action → Prop) (t : Interrupted) (s : Main) : Prop where
  ok : LoopOk s
  main : t.main = s.setWorld t.main.world
  linear : Linear Q t.net s.world

section Step

variable {Q : Action → Action → Prop} {s : Main} {v : World netclientQueueSize App} {job : Job}
  {t : Interrupted}

theorem matches_next (hok : LoopOk s) (h : Linear Q ⟨v, job⟩ s.world)
    (he : interruptedStep ⟨s.setWorld v, job⟩ .next = some t) : Matches Q t s := by
  obtain ⟨p, hp, rfl⟩ := Option.map_eq_some_iff.mp he
  exact ⟨hok, rfl, h.next hp⟩

theorem matches_exec (hQ : ∀ a, Q a a) (hok : LoopOk s) (h : Linear Q ⟨v, .idle⟩ s.world)
    {ans : Answers} {u : Main} (he : mainStep (s.setWorld v) (.exec ans) = some u) :
    ∃ s', mainStep s (.exec ans) = some s' ∧ Matches Q ⟨u, .idle⟩ s' := by
  obtain ⟨hpeek, rfl⟩ := mainStep_exec he
  have hstep : mainStep s (.exec ans) = some (exec s ans) := if_pos hpeek
  obtain ⟨as, has, hrelog⟩ := exec_relog s ans
  have hv : s.setWorld v = s.relog v.lwip.log := congrArg s.setWorld h.world
  have hu : exec (s.setWorld v) ans = (exec s ans).relog (v.lwip.log ++ as) := by
    rw [hv]
    exact hrelog v.lwip.log
  have hlog : (exec s ans).world.lwip.log = s.world.lwip.log ++ as :=
    congrArg (fun x : Main => x.world.lwip.log) (hrelog s.world.lwip.log)
  have hok' := hok.step hstep
  refine ⟨exec s ans, hstep, hok', ?_, ?_⟩
  · rw [hu]
    rfl
  · refine h.begin_of hQ rfl hok'.netOk has ?_ (hlog.trans (List.append_nil _).symm)
    exact congrArg Main.world hu

/-- A read or a write leaves the loop inside umqtt and outside `netReadPacket`. -/
theorem mainStep_call {c : ApiCall} {e : MainEvent} (hc : s.apiCall e = some c) :
    (∀ w, mainStep (s.setWorld w) e = none) ∨
      ∀ w, mainStep (s.setWorld w) e = some { s with net := { world := callStep w c } } := by
  cases e with
  | transport te =>
    by_cases hin : s.pc.inUmqtt = true ∧ te.byUmqtt = true
    · have hon (w : World netclientQueueSize App) : mainStep (s.setWorld w) (.transport te) =
          (transportStep { s.net with world := w } te).map fun t => { s with net := t } := if_pos hin
      cases te with
      | call d =>
        obtain rfl := Option.some.inj hc
        cases d with
        | writePacket buf len isMore err =>
          by_cases hpeek : s.net.peeked = none
          · exact .inr fun w => by simp [hon, transportStep, hpeek]
          · exact .inl fun w => by simp [hon, transportStep, hpeek]
        | _ => simp [TransportEvent.byUmqtt] at hin
      | copy =>
        obtain ⟨len, hpeek, rfl⟩ := Option.map_eq_some_iff.mp hc
        exact .inr fun w => by simp [hon, transportStep, hpeek]
      | lwip e => simp [Main.apiCall] at hc
      | peek => simp [Main.apiCall] at hc
      | allocFail => simp [Main.apiCall] at hc
    · exact .inl fun w => if_neg hin
  | exec ans => simp [Main.apiCall] at hc
  | lwip e => simp [Main.apiCall] at hc
  | sysTick => simp [Main.apiCall] at hc

theorem matches_call (hQ : ∀ a, Q a a) (hok : LoopOk s) (h : Linear Q ⟨v, .idle⟩ s.world)
    {c : ApiCall} {e : MainEvent} {u : Main} (hc : s.apiCall e = some c)
    (he : mainStep (s.setWorld v) e = some u) :
    ∃ s', mainStep s e = some s' ∧
      Matches Q ⟨u.setWorld (begin v c).world, (begin v c).job⟩ s' := by
  rcases mainStep_call hc with hnone | hsome
  · rw [hnone v] at he
    simp at he
  · obtain rfl := Option.some.inj ((hsome v).symm.trans he)
    have hstep := hsome s.world
    exact ⟨_, hstep, hok.step hstep, rfl, h.call (by decide) hQ rfl c⟩

theorem matches_lwip (hok : LoopOk s) (h : Linear Q ⟨v, job⟩ s.world) {le : LwipEvent} {u : Main}
    (he : mainStep (s.setWorld v) (.lwip le) = some u)
    (hkeep : ∀ as bs, List.Forall₂ Q (as ++ job.todo s.world.inst.hNet) bs →
      List.Forall₂ Q (as ++ job.todo (s.world.hNetAfter (.lwip le))) bs) :
    ∃ s', mainStep s (.lwip le) = some s' ∧ Matches Q ⟨u, job⟩ s' := by
  obtain ⟨v', hv', rfl⟩ := Option.map_eq_some_iff.mp he
  obtain ⟨w', hw', hlin⟩ := h.lwip (by decide) hv' hkeep
  have hstep : mainStep s (.lwip le) = some (s.setWorld w') := by simp [mainStep, hw']
  exact ⟨s.setWorld w', hstep, hok.step hstep, rfl, hlin⟩

theorem mainStep_quiet {te : TransportEvent} (hc : s.apiCall (.transport te) = none)
    (hv : v.inst = s.world.inst) :
    mainStep (s.setWorld v) (.transport te) =
      (mainStep s (.transport te)).map fun u => u.setWorld v := by
  by_cases hin : s.pc.inUmqtt = true ∧ te.byUmqtt = true
  · have hon (w : World netclientQueueSize App) : mainStep (s.setWorld w) (.transport te) =
        (transportStep { s.net with world := w } te).map fun t => { s with net := t } := if_pos hin
    have hself : mainStep s (.transport te) =
        (transportStep s.net te).map fun t => { s with net := t } := if_pos hin
    rw [hon, hself]
    have hlen : Net.getReadLen v.inst = Net.getReadLen s.net.world.inst := congrArg _ hv
    cases te with
    | call d => simp [Main.apiCall] at hc
    | lwip e => simp [TransportEvent.byUmqtt] at hin
    | copy =>
      have hpeek : s.net.peeked = none := by simpa [Main.apiCall] using hc
      simp [transportStep, hpeek]
    | peek =>
      by_cases hpeek : s.net.peeked = none
      · simp [transportStep, hpeek, hlen, Main.setWorld]
      · simp [transportStep, hpeek]
    | allocFail =>
      by_cases hpeek : s.net.peeked = none
      · simp [transportStep, hpeek]
      · simp [transportStep, hpeek, Main.setWorld]
  · have hnone : mainStep s (.transport te) = none := if_neg hin
    rw [hnone]
    exact if_neg hin

theorem matches_quiet (hok : LoopOk s) (h : Linear Q ⟨v, .idle⟩ s.world) {te : TransportEvent}
    {u : Main} (hc : s.apiCall (.transport te) = none)
    (he : mainStep (s.setWorld v) (.transport te) = some u) :
    ∃ s', mainStep s (.transport te) = some s' ∧ Matches Q ⟨u, .idle⟩ s' := by
  have hrelog : v = s.world.relog v.lwip.log := h.world
  have hv : v.inst = s.world.inst := by rw [hrelog, relog_inst]
  rw [mainStep_quiet hc hv] at he
  obtain ⟨s', hstep, rfl⟩ := Option.map_eq_some_iff.mp he
  have hself := mainStep_quiet (v := s.world) hc rfl
  change mainStep s (.transport te) = _ at hself
  rw [hstep, Option.map_some, Option.some.injEq] at hself
  have hworld : s'.world = s.world := by
    calc s'.world = (s'.setWorld s.world).world := congrArg Main.world hself
      _ = s.world := rfl
  exact ⟨s', hstep, hok.step hstep, rfl, hworld ▸ h⟩

theorem Matches.step (hQ : ∀ a, Q a a) {t' : Interrupted} (h : Matches Q t s)
    {e : InterruptedEvent} (he : interruptedStep t e = some t')
    (hkeep : ∀ le, e = .main (.lwip le) → ∀ as bs,
      List.Forall₂ Q (as ++ t.job.todo s.world.inst.hNet) bs →
        List.Forall₂ Q (as ++ t.job.todo (s.world.hNetAfter (.lwip le))) bs) :
    ∃ s', Runs.run mainStep s e.atomic = some s' ∧ Matches Q t' s' := by
  obtain ⟨main, job⟩ := t
  obtain ⟨hok, hmain, hlin⟩ := h
  obtain ⟨v, rfl⟩ : ∃ v, main = s.setWorld v := ⟨_, hmain⟩
  have hrun (e : MainEvent) {t : Interrupted} (h : ∃ s', mainStep s e = some s' ∧ Matches Q t s') :
      ∃ s', Runs.run mainStep s [e] = some s' ∧ Matches Q t s' := by
    obtain ⟨s', hs', hm⟩ := h
    exact ⟨s', by rw [Runs.run, hs']; rfl, hm⟩
  cases e with
  | next => exact ⟨s, rfl, matches_next hok hlin he⟩
  | main e =>
    simp only [interruptedStep, Option.ite_none_right_eq_some, Option.map_eq_some_iff] at he
    obtain ⟨hwhen, u, hu, rfl⟩ := he
    refine hrun e ?_
    cases e with
    | exec ans =>
      obtain rfl : job = .idle := by simpa [MainEvent.interrupts] using hwhen
      exact matches_exec hQ hok hlin hu
    | transport te =>
      obtain rfl : job = .idle := by simpa [MainEvent.interrupts] using hwhen
      have hsame : (s.setWorld v).apiCall (.transport te) = s.apiCall (.transport te) := by
        cases te <;> rfl
      cases hc : s.apiCall (.transport te) with
      | none =>
        obtain ⟨s', hs', hm⟩ := matches_quiet hok hlin hc hu
        exact ⟨s', hs', by simpa only [hsame, hc] using hm⟩
      | some c =>
        obtain ⟨s', hs', hm⟩ := matches_call hQ hok hlin hc hu
        exact ⟨s', hs', by simpa only [hsame, hc] using hm⟩
    | lwip le => exact matches_lwip hok hlin hu (hkeep le rfl)
    | sysTick =>
      obtain rfl := Option.some.inj hu
      exact ⟨_, rfl, hok.step (e := .sysTick) rfl, rfl, hlin⟩

theorem Matches.step_upToNull {t' : Interrupted} (h : Matches Action.UpToNull t s)
    {e : InterruptedEvent} (he : interruptedStep t e = some t') :
    ∃ s', Runs.run mainStep s e.atomic = some s' ∧ Matches Action.UpToNull t' s' := by
  refine h.step (fun _ => .inl rfl) he fun le _ as bs hfor => ?_
  exact upToNull_todo (hNetAfter_lwip s.world le) hfor

/-- No connection is lost while a read or a write is under way. -/
def LoopKeptInside (t : Interrupted) : InterruptedEvent → Prop
  | .main (.lwip le) => KeptInside t.net (.lwip le)
  | _ => True

theorem Matches.step_eq {t' : Interrupted} (h : Matches Eq t s) {e : InterruptedEvent}
    (hok : LoopKeptInside t e) (he : interruptedStep t e = some t') :
    ∃ s', Runs.run mainStep s e.atomic = some s' ∧ Matches Eq t' s' := by
  refine h.step (fun _ => rfl) he fun le hle as bs hfor => ?_
  subst hle
  have hkept : t.job.todo (s.world.hNetAfter (.lwip le)) = t.job.todo s.world.inst.hNet :=
    h.linear.todo_kept hok
  rw [hkept]
  exact hfor

theorem Matches.run_upToNull {t' : Interrupted} {es : List InterruptedEvent}
    (h : Matches Action.UpToNull t s) (hr : Runs.run interruptedStep t es = some t') :
    ∃ s', Runs.run mainStep s (es.flatMap InterruptedEvent.atomic) = some s' ∧
      Matches Action.UpToNull t' s' := by
  have hstep (u : Interrupted) (e : InterruptedEvent) (u' : Interrupted) (m : Main)
      (hm : Matches Action.UpToNull u m) (_ : True) (he : interruptedStep u e = some u') :
      ∃ m', Runs.run mainStep m e.atomic = some m' ∧ Matches Action.UpToNull u' m' :=
    hm.step_upToNull he
  exact History.run_matched hstep h (Runs.allSteps_of_forall (fun _ _ => trivial) t es) hr

theorem Matches.run_eq {t' : Interrupted} {es : List InterruptedEvent} (h : Matches Eq t s)
    (hok : Runs.AllSteps interruptedStep LoopKeptInside t es)
    (hr : Runs.run interruptedStep t es = some t') :
    ∃ s', Runs.run mainStep s (es.flatMap InterruptedEvent.atomic) = some s' ∧
      Matches Eq t' s' := by
  have hstep (u : Interrupted) (e : InterruptedEvent) (u' : Interrupted) (m : Main)
      (hm : Matches Eq u m) (hk : LoopKeptInside u e) (he : interruptedStep u e = some u') :
      ∃ m', Runs.run mainStep m e.atomic = some m' ∧ Matches Eq u' m' :=
    hm.step_eq hk he
  exact History.run_matched hstep h hok hr

theorem matches_init (clock : Clock) : Matches Q (Interrupted.init clock) (Main.init clock) :=
  ⟨loopOk_init clock, rfl, linear_init netEventCb {}⟩

end Step

theorem run_next (s : Main) (k : Nat) (p : Preempted netclientQueueSize App) :
    Runs.run interruptedStep ⟨s.setWorld p.world, p.job⟩ (List.replicate k .next) =
      (Runs.run preemptStep p (List.replicate k .next)).map fun q =>
        ⟨s.setWorld q.world, q.job⟩ := by
  induction k generalizing p with
  | zero => rfl
  | succ k ih =>
    have hnext : interruptedStep ⟨s.setWorld p.world, p.job⟩ .next =
        (preemptStep p .next).map fun q => ⟨s.setWorld q.world, q.job⟩ := rfl
    rw [List.replicate_succ, List.replicate_succ, Runs.run, Runs.run, hnext]
    cases preemptStep p .next with
    | none => rfl
    | some q => exact ih q

/-- Without interrupts inside, a step is one of the main loop. -/
theorem step_uninterrupted {s s' : Main} (hok : LoopOk s) {e : MainEvent}
    (he : mainStep s e = some s') : ∃ k, Runs.run interruptedStep { main := s }
      (.main e :: List.replicate k .next) = some { main := s' } := by
  cases hc : s.apiCall e with
  | none => exact ⟨0, by simp [Runs.run, interruptedStep, he, hc]⟩
  | some c =>
    have hstep : s' = { s with net := { world := callStep s.world c } } := by
      rcases mainStep_call hc with hnone | hsome
      · exact absurd (he.symm.trans (hnone s.world)) (by simp)
      · exact Option.some.inj (he.symm.trans (hsome s.world))
    refine ⟨(begin s.world c).job.steps, ?_⟩
    have hcall := call_uninterrupted (by decide) hok.netOk c
    simp only [Runs.run, preemptStep, if_true, Option.bind_some] at hcall
    have hbegin : interruptedStep { main := s } (.main e) =
        some ⟨s'.setWorld (begin s.world c).world, (begin s.world c).job⟩ := by
      simp [interruptedStep, he, hc]
    rw [Runs.run, hbegin, Option.bind_some, run_next, hcall, hstep]
    rfl

/-- Interrupts inside the reads and writes of umqtt do what they would do after
them: the loop, its timers and flags, net_client and the calls made so far are as
in a run where lwIP and SysTick come in between statements only. -/
theorem loop_linearizes (clock : Clock) {es : List InterruptedEvent} {t : Interrupted}
    (hr : Runs.run interruptedStep (Interrupted.init clock) es = some t) :
    ∃ s, Runs.run mainStep (Main.init clock) (es.flatMap InterruptedEvent.atomic) = some s ∧
      t.main = s.relog t.main.world.lwip.log ∧
      t.main.world.lwip.log.filter (fun a => !a.late) =
        s.world.lwip.log.filter (fun a => !a.late) ∧
      List.Forall₂ Action.UpToNull
        (t.main.world.lwip.log.filter Action.late ++ t.job.todo t.main.world.inst.hNet)
        (s.world.lwip.log.filter Action.late) ∧
      (Runs.AllSteps interruptedStep LoopKeptInside (Interrupted.init clock) es →
        t.main.world.lwip.log.filter Action.late ++ t.job.todo t.main.world.inst.hNet =
          s.world.lwip.log.filter Action.late) := by
  obtain ⟨s, hs, h⟩ := (matches_init clock).run_upToNull hr
  have hmain : t.main = s.relog t.main.world.lwip.log := by
    calc t.main = s.setWorld t.main.world := h.main
      _ = s.relog t.main.world.lwip.log := congrArg s.setWorld h.linear.world
  refine ⟨s, hs, hmain, h.linear.prompt, h.linear.late, fun hok => ?_⟩
  obtain ⟨s', hs', h'⟩ := (matches_init clock).run_eq hok hr
  obtain rfl := Option.some.inj (hs.symm.trans hs')
  have hlate := h'.linear.late
  rwa [List.forall₂_eq_eq_eq] at hlate

def lostInsideSession : List InterruptedEvent :=
  List.replicate 9 (.main (.exec { ipAddr := 1 })) ++
    [.main (.lwip (.connected 0)), .main (.exec {}),
      .main (.transport (.call (.writePacket [16, 0] 2 false .ok))), .main (.lwip (.fatal 0)), .next,
      .main (.exec { err := .other 5 })]

/-- The connection is lost while umqtt sends its CONNECT: `tcp_output` gets NULL. -/
theorem loop_linearizes_lost_inside :
    ∃ (t : Interrupted) (s : Main),
      Runs.run interruptedStep (Interrupted.init {}) lostInsideSession = some t ∧
        Action.tcpCall .output none ∈ t.main.world.lwip.log ∧
        Runs.run mainStep (Main.init {})
          (lostInsideSession.flatMap InterruptedEvent.atomic) = some s ∧
        Action.tcpCall .output (some 0) ∈ s.world.lwip.log ∧
        t.main = s.relog t.main.world.lwip.log := by
  have hfacts : (Runs.run interruptedStep (Interrupted.init {}) lostInsideSession).map
      (fun t => decide (Action.tcpCall .output none ∈ t.main.world.lwip.log)) = some true := by
    decide +kernel
  have hwhole : (Runs.run mainStep (Main.init {})
      (lostInsideSession.flatMap InterruptedEvent.atomic)).map
        (fun s => decide (Action.tcpCall .output (some 0) ∈ s.world.lwip.log)) = some true := by
    decide +kernel
  obtain ⟨t, ht, hnull⟩ := Option.map_eq_some_iff.mp hfacts
  obtain ⟨s, hs, hmain, -⟩ := loop_linearizes {} ht
  rw [hs, Option.map_some, Option.some.injEq] at hwhole
  exact ⟨t, s, ht, of_decide_eq_true hnull, hs, of_decide_eq_true hwhole, hmain⟩

end McuTest
