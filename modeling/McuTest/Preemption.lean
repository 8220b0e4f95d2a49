import McuTest.History
import McuTest.NetHandover

/-! `net_ReadPacket` and `net_WritePacket` with lwIP running between their
statements. -/

namespace McuTest

variable {N : Nat} [NeZero N] {σ : Type}

/-- What is left to do of the call that the application is in. -/
inductive Job where
  | idle
  | recved (pb : Pbuf) (len : UInt16)
  | free (pb : Pbuf) (len : UInt16)
  | output
  deriving DecidableEq

structure Preempted (N : Nat) (σ : Type) where
  world : World N σ
  job : Job := .idle

inductive PreemptEvent where
  | call (c : ApiCall)
  | next
  | lwip (e : LwipEvent)
  deriving DecidableEq

/-- The call up to the point where lwIP may come in between. Opening and closing
a connection are one step each. -/
def begin (w : World N σ) : ApiCall → Preempted N σ
  | .readPacket len =>
    match Net.dequeuePbuf w.inst with
    | (some pb, inst) => { world := { w with inst := inst }, job := .recved pb len }
    | (none, inst) => { world := { w with inst := inst } }
  | .writePacket buf len isMore err =>
    { world := { w with lwip := w.lwip.tcpWrite w.inst.hNet buf len.toUInt16 err }
      job := if err = .ok ∧ isMore = false then .output else .idle }
  | c => { world := callStep w c }

def resume (w : World N σ) : Job → Option (Preempted N σ)
  | .idle => none
  | .recved pb len =>
    some { world := { w with lwip := w.lwip.tcpRecved w.inst.hNet pb.len }, job := .free pb len }
  | .free pb len =>
    some { world := { w with lwip := w.lwip.pbufFree pb }.note (.netRead pb (pb.takenBytes len)) }
  | .output => some { world := { w with lwip := w.lwip.tcpOutput w.inst.hNet } }

def preemptStep (t : Preempted N σ) : PreemptEvent → Option (Preempted N σ)
  | .call c => if t.job = .idle then some (begin t.world c) else none
  | .next => resume t.world t.job
  | .lwip e => (lwipStep t.world e).map fun w => { t with world := w }

def Preempted.init (pfnEventCb : NetClientEvent → σ → σ) (app : σ) : Preempted N σ where
  world := World.init pfnEventCb app

/-- Each call is made whole where it begins. -/
def PreemptEvent.atomic : PreemptEvent → List NetEvent
  | .call c => [.call c]
  | .next => []
  | .lwip e => [.lwip e]

/-- What a call still does after lwIP has come in between. -/
def Action.late : Action → Bool
  | .tcpRecved _ _ | .tcpCall .output _ | .pbufFree _ | .netRead _ _ => true
  | _ => false

/-- The call with a NULL PCB in the place of its own. -/
def Action.withNull : Action → Action
  | .tcpRecved _ len => .tcpRecved none len
  | .tcpCall .output _ => .tcpCall .output none
  | a => a

def Action.UpToNull (a b : Action) : Prop :=
  a = b ∨ a = b.withNull

def Job.todo (hNet : Option Pcb) : Job → List Action
  | .idle => []
  | .recved pb len => [.tcpRecved hNet pb.len, .pbufFree pb, .netRead pb (pb.takenBytes len)]
  | .free pb len => [.pbufFree pb, .netRead pb (pb.takenBytes len)]
  | .output => [.tcpCall .output hNet]

def World.relog (w : World N σ) (log : List Action) : World N σ :=
  { w with lwip := { w.lwip with log := log } }

section Relog

omit [NeZero N]

@[simp] theorem relog_inst (w : World N σ) (log : List Action) : (w.relog log).inst = w.inst :=
  rfl

@[simp] theorem relog_log (w : World N σ) (log : List Action) : (w.relog log).lwip.log = log :=
  rfl

@[simp] theorem relog_relog (w : World N σ) (log log' : List Action) :
    (w.relog log).relog log' = w.relog log' :=
  rfl

@[simp] theorem relog_self (w : World N σ) : w.relog w.lwip.log = w :=
  rfl

theorem eq_relog {v w : World N σ} {log : List Action} (hw : v.relog [] = w.relog [])
    (hl : v.lwip.log = log) : v = w.relog log := by
  have h := congrArg (fun u : World N σ => u.relog log) hw
  change v.relog log = w.relog log at h
  rw [← h, ← hl]
  rfl

/-- In a world that differs from `w` in its log only, `f` does the same and logs
the same, and nothing that is left to a call. -/
def Prompt (f : World N σ → World N σ) (w : World N σ) : Prop :=
  ∃ as, as.filter Action.late = [] ∧ ∀ log, f (w.relog log) = (f w).relog (log ++ as)

theorem prompt_note (w : World N σ) {a : Action} (ha : a.late = false) :
    Prompt (fun v => v.note a) w :=
  ⟨[a], by simp [ha], fun _ => rfl⟩

theorem Prompt.comp {f g : World N σ → World N σ} {w : World N σ} (hf : Prompt f w)
    (hg : Prompt g (f w)) : Prompt (fun v => g (f v)) w := by
  obtain ⟨as, has, hf⟩ := hf
  obtain ⟨bs, hbs, hg⟩ := hg
  refine ⟨as ++ bs, by rw [List.filter_append, has, hbs, List.append_nil], fun log => ?_⟩
  simp only [hf, hg, List.append_assoc]

theorem prompt_errorCb (w : World N σ) (arg : Handle) : Prompt (fun v => Net.errorCb v arg) w := by
  cases arg with
  | null => exact ⟨[], rfl, fun log => by simp [Net.errorCb]⟩
  | inst =>
    refine ⟨errorCalls w.inst.hNet, rfl, fun log => ?_⟩
    exact eq_relog rfl (log_errorCb (w.relog log))

theorem prompt_connectedCb (w : World N σ) (arg : Handle) :
    Prompt (fun v => Net.connectedCb v arg) w := by
  cases arg with
  | null => exact ⟨[], rfl, fun log => by simp [Net.connectedCb]⟩
  | inst =>
    refine ⟨registerCalls w.inst.hNet ++ [.notified .connected], rfl, fun log => ?_⟩
    exact eq_relog rfl (log_connectedCb (w.relog log))

theorem prompt_pollCb (w : World N σ) (arg : Handle) : Prompt (fun v => Net.pollCb v arg) w := by
  cases arg with
  | null => exact ⟨[], rfl, fun log => by simp [Net.pollCb]⟩
  | inst => exact ⟨[.notified .poll], rfl, fun _ => rfl⟩

end Relog

theorem prompt_closed (w : World N σ) (arg : Handle) (p : Pcb) :
    Prompt (fun v => (Net.receiveCb v arg (some p) none).2) w := by
  cases arg with
  | null => exact ⟨[], rfl, fun log => by simp [Net.receiveCb]⟩
  | inst => exact prompt_errorCb w .inst

theorem prompt_deliver (w : World N σ) (p : Pcb) (pb : Pbuf) :
    Prompt (fun v => deliver v p pb) w := by
  refine ⟨[.entered .receiveCb (w.lwip.pcbs p).arg,
    .received p pb (Net.receiveCb w (w.lwip.pcbs p).arg (some p) (some pb)).1], rfl, fun log => ?_⟩
  by_cases harg : (w.lwip.pcbs p).arg = .inst
  · by_cases hroom : (Net.enqueuePbuf w.inst pb).1 = true
    · simp [deliver, Net.receiveCb, World.note, Lwip.note, World.relog, harg, hroom]
    · simp [deliver, Net.receiveCb, World.note, Lwip.note, World.relog, harg, hroom]
  · simp [deliver, Net.receiveCb, World.note, Lwip.note, World.relog, harg]

/-- lwIP does the same whatever has been logged. -/
theorem lwipStep_relog {w w' : World N σ} {e : LwipEvent} (he : lwipStep w e = some w') :
    ∃ as, as.filter Action.late = [] ∧
      ∀ log, lwipStep (w.relog log) e = some (w'.relog (log ++ as)) := by
  have hof {f : World N σ → World N σ} (hf : Prompt f w)
      (hrun : ∀ log, lwipStep (w.relog log) e = some (f (w.relog log))) :
      ∃ as, as.filter Action.late = [] ∧
        ∀ log, lwipStep (w.relog log) e = some ((f w).relog (log ++ as)) := by
    obtain ⟨as, has, hf⟩ := hf
    exact ⟨as, has, fun log => (hrun log).trans (congrArg some (hf log))⟩
  cases fires_of_lwipStep he with
  | connected p hlive hnew hcb =>
    have hset : Prompt (fun v => { v with
        lwip := v.lwip.onPcb (some p) fun s => { s with established := true } }) w :=
      ⟨[], rfl, fun log => by simp [World.relog, Lwip.onPcb]⟩
    exact hof ((hset.comp (prompt_note _ rfl)).comp (prompt_connectedCb _ (w.lwip.pcbs p).arg))
      fun log => if_pos ⟨hlive, hnew, hcb⟩
  | receive p chain hr hheld =>
    have hoffer : Prompt (fun v => v.offer p (w.newPbuf chain)) w := ⟨[_], rfl, fun _ => rfl⟩
    exact hof (hoffer.comp (prompt_deliver _ p (w.newPbuf chain))) fun log => if_pos ⟨hr, hheld⟩
  | redeliver p pb hheld hr =>
    refine hof (prompt_deliver w p pb) fun log => ?_
    have hr' : (w.relog log).receives p := hr
    simp only [lwipStep, World.relog, hheld]
    exact if_pos hr'
  | giveUp => exact ⟨[], rfl, fun log => by simp [lwipStep, World.relog]⟩
  | peerClose p hr =>
    exact hof ((prompt_note w rfl).comp (prompt_closed _ (w.lwip.pcbs p).arg p)) fun log => if_pos hr
  | poll p hlive hcb =>
    exact hof ((prompt_note w rfl).comp (prompt_pollCb _ (w.lwip.pcbs p).arg))
      fun log => if_pos ⟨hlive, hcb⟩
  | sent p len hlive hcb => exact hof (prompt_note w rfl) fun log => if_pos ⟨hlive, hcb⟩
  | fatal p hlive hcb =>
    have hfree : Prompt (fun v => { v with
        lwip := (v.lwip.note (.pcbFreed p)).onPcb (some p) fun s => { s with live := false } }) w :=
      ⟨[_], rfl, fun _ => rfl⟩
    exact hof ((hfree.comp (prompt_note _ rfl)).comp (prompt_errorCb _ (w.lwip.pcbs p).arg))
      fun log => if_pos ⟨hlive, hcb⟩

/-- A call of which nothing is left for later. -/
def ApiCall.opensOrCloses : ApiCall → Bool
  | .connect _ _ _ _ _ | .disconnect _ => true
  | _ => false

theorem prompt_callStep (w : World N σ) {c : ApiCall} (hc : c.opensOrCloses = true) :
    Prompt (fun v => callStep v c) w := by
  cases c with
  | connect addr port avail connErr closeErr =>
    cases avail with
    | false =>
      refine ⟨[.tcpNew none, .netConnect (-2) w.inst.hNet], rfl, fun log => ?_⟩
      exact eq_relog rfl (List.append_assoc log _ _)
    | true =>
      by_cases he : connErr = .ok
      · subst connErr
        refine ⟨openCalls w.lwip.nextPcb addr port .ok ++
          [.netConnect 0 (some w.lwip.nextPcb)], rfl, fun log => ?_⟩
        simp only [callStep, connect_ok]
        exact eq_relog rfl (List.append_assoc log _ _)
      · refine ⟨openCalls w.lwip.nextPcb addr port connErr ++
          [.tcpClose (some w.lwip.nextPcb) closeErr, .netConnect (-4) none], rfl, fun log => ?_⟩
        simp only [callStep, connect_fail _ addr port closeErr he]
        refine eq_relog rfl ?_
        simp [World.note, Lwip.note, World.relog, log_connect_fail]
  | disconnect closeErr =>
    refine ⟨deregisterCalls w.inst.hNet ++ [.tcpClose w.inst.hNet closeErr,
      .notified .disconnected], rfl, fun log => ?_⟩
    exact eq_relog rfl (log_disconnect (w.relog log) closeErr)
  | readPacket len => simp [ApiCall.opensOrCloses] at hc
  | writePacket buf len isMore err => simp [ApiCall.opensOrCloses] at hc

theorem Job.todo_late (hNet : Option Pcb) (job : Job) : ∀ a ∈ job.todo hNet, a.late = true := by
  cases job <;> simp [Job.todo, Action.late]

theorem filter_of_late {as : List Action} (h : ∀ a ∈ as, a.late = true) :
    as.filter Action.late = as ∧ as.filter (fun a => !a.late) = [] :=
  ⟨List.filter_eq_self.mpr h, List.filter_eq_nil_iff.mpr fun a ha => by simp [h a ha]⟩

omit [NeZero N] in
/-- Each step logs the next of what the call has still to do. -/
theorem resume_todo {w : World N σ} {job : Job} {t : Preempted N σ} (h : resume w job = some t) :
    ∃ as, t.world = w.relog (w.lwip.log ++ as) ∧
      job.todo w.inst.hNet = as ++ t.job.todo w.inst.hNet := by
  cases job with
  | idle => simp [resume] at h
  | recved pb len =>
    obtain rfl := Option.some.inj h
    exact ⟨[.tcpRecved w.inst.hNet pb.len], rfl, rfl⟩
  | free pb len =>
    obtain rfl := Option.some.inj h
    refine ⟨[.pbufFree pb, .netRead pb (pb.takenBytes len)], ?_, rfl⟩
    simp [World.relog, World.note, Lwip.pbufFree, Lwip.note]
  | output =>
    obtain rfl := Option.some.inj h
    exact ⟨[.tcpCall .output w.inst.hNet], rfl, rfl⟩

/-- A call does at once what it does not leave for later. -/
theorem begin_todo (hN : N ≤ 256) {w : World N σ} (h : NetOk w) (c : ApiCall) (log : List Action) :
    ∃ as, as.filter Action.late = [] ∧
      (begin (w.relog log) c).world = (callStep w c).relog (log ++ as) ∧
      (callStep w c).lwip.log =
        w.lwip.log ++ as ++ (begin (w.relog log) c).job.todo (callStep w c).inst.hNet := by
  have hwhole (hc : c.opensOrCloses = true)
      (hb : begin (w.relog log) c = { world := callStep (w.relog log) c }) :
      ∃ as, as.filter Action.late = [] ∧
        (begin (w.relog log) c).world = (callStep w c).relog (log ++ as) ∧
        (callStep w c).lwip.log =
          w.lwip.log ++ as ++ (begin (w.relog log) c).job.todo (callStep w c).inst.hNet := by
    obtain ⟨as, has, hprompt⟩ := prompt_callStep w hc
    have hlog := congrArg (fun x : World N σ => x.lwip.log) (hprompt w.lwip.log)
    rw [hb]
    exact ⟨as, has, hprompt log, hlog.trans (List.append_nil _).symm⟩
  cases c with
  | connect addr port avail connErr closeErr => exact hwhole rfl rfl
  | disconnect closeErr => exact hwhole rfl rfl
  | readPacket len =>
    cases hq : w.inst.queued with
    | nil =>
      have hd := Instance.dequeuePbuf_nil h.ring hq
      rw [callStep_read_nil h.ring hq]
      refine ⟨[], rfl, ?_, ?_⟩
      · simp only [begin, relog_inst, hd, List.append_nil]
        rfl
      · simp only [begin, relog_inst, hd, List.append_nil, Job.todo]
    | cons pb rest =>
      have hd := Instance.dequeuePbuf_cons hN h.ring hq
      rw [callStep_read_cons hN h.ring hq]
      refine ⟨[], rfl, ?_, ?_⟩
      · simp only [begin, relog_inst, hd, List.append_nil]
        rfl
      · simp [begin, relog_inst, hd, Job.todo, World.taken, World.note, Lwip.note,
          Instance.popped]
  | writePacket buf len isMore err =>
    refine ⟨[.tcpWrite w.inst.hNet (buf.take len.toUInt16.toNat) err], rfl, ?_⟩
    by_cases he : err = .ok
    · subst err
      cases isMore with
      | true => exact ⟨rfl, (List.append_nil _).symm⟩
      | false => exact ⟨eq_relog rfl rfl, rfl⟩
    · simp only [begin, callStep, Net.writePacket, he, ne_eq, not_false_eq_true, if_true, false_and,
        if_false, Job.todo, List.append_nil]
      exact ⟨rfl, rfl⟩

def Job.steps : Job → Nat
  | .idle => 0
  | .recved _ _ => 2
  | .free _ _ | .output => 1

theorem call_uninterrupted (hN : N ≤ 256) {w : World N σ} (h : NetOk w) (c : ApiCall) :
    Runs.run preemptStep { world := w }
      (.call c :: List.replicate (begin w c).job.steps .next) =
        some { world := callStep w c } := by
  cases c with
  | connect addr port avail connErr closeErr => rfl
  | disconnect closeErr => rfl
  | readPacket len =>
    cases hq : w.inst.queued with
    | nil =>
      have hd := Instance.dequeuePbuf_nil h.ring hq
      rw [callStep_read_nil h.ring hq]
      simp only [begin, hd, Job.steps, List.replicate_zero, Runs.run, preemptStep, if_true,
        Option.bind_some]
    | cons pb rest =>
      have hd := Instance.dequeuePbuf_cons hN h.ring hq
      rw [callStep_read_cons hN h.ring hq]
      simp [begin, hd, Job.steps, List.replicate, Runs.run, preemptStep, resume, World.taken,
        World.note, Lwip.note, Lwip.tcpRecved, Lwip.pbufFree, Instance.popped]
  | writePacket buf len isMore err =>
    by_cases he : err = .ok
    · subst err
      cases isMore <;> rfl
    · simp [begin, he, Job.steps, Runs.run, preemptStep, callStep, Net.writePacket]

/-- `t` has come where `w` is with all calls made whole, but for what is left of
the call under way. -/
structure Linear (Q : Action → Action → Prop) (t : Preempted N σ) (w : World N σ) : Prop where
  net : NetOk w
  world : t.world = w.relog t.world.lwip.log
  prompt : t.world.lwip.log.filter (fun a => !a.late) = w.lwip.log.filter (fun a => !a.late)
  late : List.Forall₂ Q (t.world.lwip.log.filter Action.late ++ t.job.todo t.world.inst.hNet)
    (w.lwip.log.filter Action.late)

variable {Q : Action → Action → Prop} {t t' : Preempted N σ} {w : World N σ}

theorem Linear.begin_of (hQ : ∀ a, Q a a) (h : Linear Q t w) (hidle : t.job = .idle)
    {v : World N σ} {as : List Action} (hnet : NetOk v)
    (has : as.filter Action.late = [])
    (hu : t'.world = v.relog (t.world.lwip.log ++ as))
    (hv : v.lwip.log = w.lwip.log ++ as ++ t'.job.todo v.inst.hNet) : Linear Q t' v := by
  have hlog : t'.world.lwip.log = t.world.lwip.log ++ as := by rw [hu, relog_log]
  have hhNet : t'.world.inst.hNet = v.inst.hNet := by rw [hu, relog_inst]
  obtain ⟨htodo, hnone⟩ := filter_of_late (t'.job.todo_late v.inst.hNet)
  refine ⟨hnet, by rw [hlog, hu], ?_, ?_⟩
  · simp only [hlog, hv, List.filter_append, h.prompt, hnone, List.append_nil]
  · have hlate := h.late
    rw [hidle, Job.todo, List.append_nil] at hlate
    simp only [hlog, hv, hhNet, List.filter_append, has, htodo, List.append_nil]
    exact List.rel_append hlate (List.forall₂_same.mpr fun a _ => hQ a)

theorem Linear.next (h : Linear Q t w) (ht : resume t.world t.job = some t') : Linear Q t' w := by
  obtain ⟨as, hworld, htodo⟩ := resume_todo ht
  have hlate : ∀ a ∈ as, a.late = true := fun a ha =>
    t.job.todo_late t.world.inst.hNet a (by rw [htodo]; exact List.mem_append_left _ ha)
  obtain ⟨has, hnone⟩ := filter_of_late hlate
  have hlog : t'.world.lwip.log = t.world.lwip.log ++ as := by rw [hworld, relog_log]
  have hhNet : t'.world.inst.hNet = t.world.inst.hNet := by rw [hworld, relog_inst]
  refine ⟨h.net, ?_, ?_, ?_⟩
  · rw [hlog, hworld, h.world, relog_relog, relog_log]
  · rw [hlog, List.filter_append, hnone, List.append_nil]
    exact h.prompt
  · rw [hlog, hhNet, List.filter_append, has, List.append_assoc, ← htodo]
    exact h.late

theorem Linear.call (hN : N ≤ 256) (hQ : ∀ a, Q a a) (h : Linear Q t w) (hidle : t.job = .idle)
    (c : ApiCall) : Linear Q (begin t.world c) (callStep w c) := by
  obtain ⟨as, has, hworld, hlog⟩ := begin_todo hN h.net c t.world.lwip.log
  rw [← h.world] at hworld hlog
  exact h.begin_of hQ hidle (h.net.callStep hN c) has hworld hlog

/-- What lwIP does while a call is under way it does as if that were over. -/
theorem Linear.lwip (hN : N ≤ 256) (h : Linear Q t w) {e : LwipEvent} {v : World N σ}
    (hv : lwipStep t.world e = some v)
    (hkeep : ∀ as bs, List.Forall₂ Q (as ++ t.job.todo w.inst.hNet) bs →
      List.Forall₂ Q (as ++ t.job.todo (w.hNetAfter (.lwip e))) bs) :
    ∃ w', lwipStep w e = some w' ∧ Linear Q { t with world := v } w' := by
  obtain ⟨as, has, hrelog⟩ := lwipStep_relog hv
  have hvlog : v = v.relog (t.world.lwip.log ++ as) :=
    Option.some.inj (hv.symm.trans (hrelog t.world.lwip.log))
  have hlog : v.lwip.log = t.world.lwip.log ++ as := by rw [hvlog, relog_log]
  have hstep := hrelog w.lwip.log
  rw [h.world, relog_relog, relog_self] at hstep
  have hnet : netStep w (.lwip e) = some (v.relog (w.lwip.log ++ as)) := hstep
  have hhNet : v.inst.hNet = w.hNetAfter (.lwip e) := (netStep_effect hN h.net hnet).hNet
  have hlate := h.late
  rw [h.world, relog_inst, relog_log] at hlate
  refine ⟨_, hstep, h.net.step hN hnet, rfl, ?_, ?_⟩
  · change v.lwip.log.filter (fun a => !a.late) = (w.lwip.log ++ as).filter (fun a => !a.late)
    rw [hlog, List.filter_append, List.filter_append, h.prompt]
  · change List.Forall₂ Q (v.lwip.log.filter Action.late ++ t.job.todo v.inst.hNet)
      ((w.lwip.log ++ as).filter Action.late)
    rw [hlog, hhNet, List.filter_append, List.filter_append, has, List.append_nil, List.append_nil]
    exact hkeep _ _ hlate

theorem Linear.step (hN : N ≤ 256) (hQ : ∀ a, Q a a) (h : Linear Q t w) {e : PreemptEvent}
    (he : preemptStep t e = some t')
    (hkeep : ∀ le, e = .lwip le → ∀ as bs, List.Forall₂ Q (as ++ t.job.todo w.inst.hNet) bs →
      List.Forall₂ Q (as ++ t.job.todo (w.hNetAfter (.lwip le))) bs) :
    ∃ w', Runs.run netStep w e.atomic = some w' ∧ Linear Q t' w' := by
  cases e with
  | call c =>
    simp only [preemptStep, Option.ite_none_right_eq_some, Option.some.injEq] at he
    obtain ⟨hidle, rfl⟩ := he
    exact ⟨callStep w c, rfl, h.call hN hQ hidle c⟩
  | next => exact ⟨w, rfl, h.next he⟩
  | lwip le =>
    obtain ⟨v, hv, rfl⟩ := Option.map_eq_some_iff.mp he
    obtain ⟨w', hw', hl⟩ := h.lwip hN hv (hkeep le rfl)
    exact ⟨w', by simp [PreemptEvent.atomic, Runs.run, netStep, hw'], hl⟩

theorem linear_init (pfnEventCb : NetClientEvent → σ → σ) (app : σ) :
    Linear Q (Preempted.init pfnEventCb app : Preempted N σ) (World.init pfnEventCb app) :=
  ⟨netOk_init pfnEventCb app, rfl, rfl, List.Forall₂.nil⟩

omit [NeZero N] in
theorem hNetAfter_of_kept (w : World N σ) {e : LwipEvent}
    (he : w.notice (.lwip e) ≠ some .disconnected) : w.hNetAfter (.lwip e) = w.inst.hNet := by
  cases e with
  | peerClose p => exact absurd rfl he
  | fatal p => exact absurd rfl he
  | _ => rfl

theorem todo_upToNull (hNet : Option Pcb) (job : Job) :
    List.Forall₂ Action.UpToNull (job.todo none) (job.todo hNet) := by
  cases job <;> simp [Job.todo, Action.UpToNull, Action.withNull]

theorem Action.withNull_withNull (a : Action) : a.withNull.withNull = a.withNull := by
  cases a with
  | tcpCall fn pcb => cases fn <;> rfl
  | _ => rfl

theorem Action.UpToNull.trans {a b c : Action} (hab : a.UpToNull b) (hbc : b.UpToNull c) :
    a.UpToNull c := by
  rcases hab with rfl | rfl
  · exact hbc
  · rcases hbc with rfl | rfl
    · exact .inr rfl
    · exact .inr c.withNull_withNull

theorem upToNull_trans {as bs cs : List Action} (hab : List.Forall₂ Action.UpToNull as bs)
    (hbc : List.Forall₂ Action.UpToNull bs cs) : List.Forall₂ Action.UpToNull as cs := by
  induction hab generalizing cs with
  | nil => exact hbc
  | cons h _ ih =>
    cases hbc with
    | cons h' hbc => exact .cons (h.trans h') (ih hbc)

theorem upToNull_todo {as bs : List Action} {job : Job} {hNet hNet' : Option Pcb}
    (hh : hNet' = hNet ∨ hNet' = none)
    (h : List.Forall₂ Action.UpToNull (as ++ job.todo hNet) bs) :
    List.Forall₂ Action.UpToNull (as ++ job.todo hNet') bs := by
  rcases hh with rfl | rfl
  · exact h
  · have has : List.Forall₂ Action.UpToNull as as := List.forall₂_same.mpr fun _ _ => .inl rfl
    exact upToNull_trans (List.rel_append has (todo_upToNull hNet job)) h

omit [NeZero N] in
theorem hNetAfter_lwip (w : World N σ) (e : LwipEvent) :
    w.hNetAfter (.lwip e) = w.inst.hNet ∨ w.hNetAfter (.lwip e) = none := by
  rcases hNetAfter_cases w (.lwip e) with hsame | hnone | ⟨_, _, _, _, hcall⟩
  · exact .inl hsame
  · exact .inr hnone
  · simp at hcall

theorem Linear.step_upToNull (hN : N ≤ 256) (h : Linear Action.UpToNull t w) {e : PreemptEvent}
    (he : preemptStep t e = some t') :
    ∃ w', Runs.run netStep w e.atomic = some w' ∧ Linear Action.UpToNull t' w' := by
  refine h.step hN (fun _ => .inl rfl) he fun le _ as bs hfor => ?_
  exact upToNull_todo (hNetAfter_lwip w le) hfor

/-- No connection is lost while a call is under way. -/
def KeptInside (t : Preempted N σ) (e : PreemptEvent) : Prop :=
  ∀ le, e = .lwip le → t.job ≠ .idle → t.world.notice (.lwip le) ≠ some .disconnected

omit [NeZero N] in
theorem notice_relog (w : World N σ) (log : List Action) (e : NetEvent) :
    (w.relog log).notice e = w.notice e := by
  rcases e with c | e
  · cases c <;> rfl
  · cases e <;> rfl

theorem Linear.todo_kept (h : Linear Q t w) {e : LwipEvent} (hok : KeptInside t (.lwip e)) :
    t.job.todo (w.hNetAfter (.lwip e)) = t.job.todo w.inst.hNet := by
  by_cases hidle : t.job = .idle
  · rw [hidle]
    rfl
  · have hkept := hok e rfl hidle
    rw [h.world, notice_relog] at hkept
    rw [hNetAfter_of_kept w hkept]

theorem Linear.step_eq (hN : N ≤ 256) (h : Linear Eq t w) {e : PreemptEvent}
    (hok : KeptInside t e) (he : preemptStep t e = some t') :
    ∃ w', Runs.run netStep w e.atomic = some w' ∧ Linear Eq t' w' := by
  refine h.step hN (fun _ => rfl) he fun le hle as bs hfor => ?_
  subst hle
  rw [h.todo_kept hok]
  exact hfor

theorem Linear.run_upToNull (hN : N ≤ 256) {es : List PreemptEvent} (h : Linear Action.UpToNull t w)
    (hr : Runs.run preemptStep t es = some t') :
    ∃ w', Runs.run netStep w (es.flatMap PreemptEvent.atomic) = some w' ∧
      Linear Action.UpToNull t' w' := by
  have hstep (s : Preempted N σ) (e : PreemptEvent) (u : Preempted N σ) (v : World N σ)
      (hs : Linear Action.UpToNull s v) (_ : True) (he : preemptStep s e = some u) :
      ∃ v', Runs.run netStep v e.atomic = some v' ∧ Linear Action.UpToNull u v' :=
    hs.step_upToNull hN he
  exact History.run_matched hstep h (Runs.allSteps_of_forall (fun _ _ => trivial) t es) hr

theorem Linear.run_eq (hN : N ≤ 256) {es : List PreemptEvent} (h : Linear Eq t w)
    (hok : Runs.AllSteps preemptStep KeptInside t es)
    (hr : Runs.run preemptStep t es = some t') :
    ∃ w', Runs.run netStep w (es.flatMap PreemptEvent.atomic) = some w' ∧ Linear Eq t' w' := by
  have hstep (s : Preempted N σ) (e : PreemptEvent) (u : Preempted N σ) (v : World N σ)
      (hs : Linear Eq s v) (hk : KeptInside s e) (he : preemptStep s e = some u) :
      ∃ v', Runs.run netStep v e.atomic = some v' ∧ Linear Eq u v' :=
    hs.step_eq hN hk he
  exact History.run_matched hstep h hok hr

/-- Whatever lwIP does between the statements of `net_ReadPacket` and
`net_WritePacket`, each call is as if made whole where it begins: the state is
the same, lwIP and the application are told the same in the same order, and what
the calls still had to do is done in their order. Only the PCB in `tcp_recved`
and `tcp_output` may be NULL instead, and that not unless a connection is lost
inside a call. -/
theorem calls_linearize {σ : Type} (pfnEventCb : NetClientEvent → σ → σ) (app : σ)
    {es : List PreemptEvent} {t : Preempted netclientQueueSize σ}
    (hr : Runs.run preemptStep (Preempted.init pfnEventCb app) es = some t) :
    ∃ w : World netclientQueueSize σ,
      Runs.run netStep (World.init pfnEventCb app) (es.flatMap PreemptEvent.atomic) = some w ∧
        t.world = w.relog t.world.lwip.log ∧
        t.world.lwip.log.filter (fun a => !a.late) = w.lwip.log.filter (fun a => !a.late) ∧
        List.Forall₂ Action.UpToNull
          (t.world.lwip.log.filter Action.late ++ t.job.todo t.world.inst.hNet)
          (w.lwip.log.filter Action.late) ∧
        (Runs.AllSteps (preemptStep (N := netclientQueueSize)) KeptInside
            (Preempted.init pfnEventCb app) es →
          t.world.lwip.log.filter Action.late ++ t.job.todo t.world.inst.hNet =
            w.lwip.log.filter Action.late) := by
  obtain ⟨w, hw, h⟩ := (linear_init pfnEventCb app).run_upToNull (by decide) hr
  refine ⟨w, hw, h.world, h.prompt, h.late, fun hok => ?_⟩
  obtain ⟨w', hw', h'⟩ := (linear_init pfnEventCb app).run_eq (by decide) hok hr
  obtain rfl := Option.some.inj (hw.symm.trans hw')
  simpa only [List.forall₂_eq_eq_eq] using h'.late

def lostInsideEvents : List PreemptEvent :=
  [.call (.connect ⟨10, 0, 0, 12⟩ 1883 true .ok .ok), .lwip (.connected 0),
    .lwip (.receive 0 connack), .call (.readPacket 2), .lwip (.fatal 0), .next, .next]

/-- The connection is lost inside `net_ReadPacket`, after the pbuf has been
taken: `tcp_recved` gets NULL. -/
theorem calls_linearize_lost_inside :
    ∃ (t : Preempted netclientQueueSize Unit) (w : World netclientQueueSize Unit),
      Runs.run preemptStep (Preempted.init (fun _ s => s) ()) lostInsideEvents = some t ∧
        t.job = .idle ∧ Action.tcpRecved none 4 ∈ t.world.lwip.log ∧
        Runs.run netStep (World.init (fun _ s => s) ())
          (lostInsideEvents.flatMap PreemptEvent.atomic) = some w ∧
        Action.tcpRecved (some 0) 4 ∈ w.lwip.log ∧ t.world = w.relog t.world.lwip.log := by
  have hfacts : (Runs.run preemptStep (Preempted.init (N := netclientQueueSize) (fun _ s => s) ())
      lostInsideEvents).map (fun t => (t.job, decide (Action.tcpRecved none 4 ∈ t.world.lwip.log))) =
        some (.idle, true) := by
    decide +kernel
  have hwhole : (Runs.run netStep (World.init (N := netclientQueueSize) (fun _ s => s) ())
      (lostInsideEvents.flatMap PreemptEvent.atomic)).map
        (fun w => decide (Action.tcpRecved (some 0) 4 ∈ w.lwip.log)) = some true := by
    decide +kernel
  obtain ⟨t, ht, hf⟩ := Option.map_eq_some_iff.mp hfacts
  obtain ⟨hjob, hnull⟩ := Prod.mk.inj hf
  obtain ⟨w, hw, hworld, -⟩ := calls_linearize (fun _ s => s) () ht
  rw [hw, Option.map_some, Option.some.injEq] at hwhole
  exact ⟨t, w, ht, hjob, of_decide_eq_true hnull, hw, of_decide_eq_true hwhole, hworld⟩

section Observe

variable {β : Type} {f : Action → Option β}

theorem filterMap_filter_late (hf : ∀ a, a.late = false → f a = none) (log : List Action) :
    (log.filter Action.late).filterMap f = log.filterMap f := by
  rw [List.filterMap_filter]
  congr 1
  funext a
  cases ha : a.late <;> simp [ha, hf]

theorem filterMap_filter_prompt (hf : ∀ a, a.late = true → f a = none) (log : List Action) :
    (log.filter (fun a => !a.late)).filterMap f = log.filterMap f := by
  rw [List.filterMap_filter]
  congr 1
  funext a
  cases ha : a.late <;> simp [ha, hf]

theorem Action.UpToNull.observe (hf : ∀ a, f a.withNull = f a) {a b : Action}
    (h : a.UpToNull b) : f a = f b := by
  rcases h with rfl | rfl
  · rfl
  · exact hf b

theorem filterMap_upToNull (hf : ∀ a, f a.withNull = f a) {as bs : List Action}
    (h : List.Forall₂ Action.UpToNull as bs) : as.filterMap f = bs.filterMap f := by
  induction h with
  | nil => rfl
  | cons hab _ ih => rw [List.filterMap_cons, List.filterMap_cons, hab.observe hf, ih]

end Observe

/-- The pbuf that a `net_ReadPacket` under way has taken and not yet freed. -/
def Job.pbufs : Job → List Pbuf
  | .recved pb _ | .free pb _ => [pb]
  | _ => []

theorem freedPbufs_todo (hNet : Option Pcb) (job : Job) :
    freedPbufs (job.todo hNet) = job.pbufs := by
  cases job <;> rfl

theorem Linear.freedPbufs_eq (h : Linear Action.UpToNull t w) :
    freedPbufs t.world.lwip.log ++ t.job.pbufs = freedPbufs w.lwip.log := by
  have hlate (log : List Action) :
      freedPbufs (log.filter Action.late) = freedPbufs log :=
    filterMap_filter_late (fun a ha => by cases a <;> simp_all [Action.late]) log
  have hnull : freedPbufs
      (t.world.lwip.log.filter Action.late ++ t.job.todo t.world.inst.hNet) =
        freedPbufs (w.lwip.log.filter Action.late) := by
    refine filterMap_upToNull (fun a => ?_) h.late
    cases a with
    | tcpCall fn pcb => cases fn <;> rfl
    | _ => rfl
  rw [freedPbufs_append, hlate, hlate, freedPbufs_todo] at hnull
  exact hnull

theorem Linear.offers_eq (h : Linear Q t w) :
    offers t.world.lwip.log = offers w.lwip.log := by
  have hprompt (log : List Action) :
      offers (log.filter fun a => !a.late) = offers log :=
    filterMap_filter_prompt (fun a ha => by cases a <;> simp_all [Action.late]) log
  rw [← hprompt, h.prompt, hprompt]

theorem Linear.accepted_eq (h : Linear Q t w) :
    accepted t.world.lwip.log = accepted w.lwip.log := by
  have hprompt (log : List Action) :
      accepted (log.filter fun a => !a.late) = accepted log :=
    filterMap_filter_prompt (fun a ha => by cases a <;> simp_all [Action.late]) log
  rw [← hprompt, h.prompt, hprompt]

/-- At every moment, inside a call or not, each accepted pbuf is freed, in the
hands of the call under way or in the queue, and only once, in the order of the
offers. -/
theorem pbufs_conserved_inside {σ : Type} (pfnEventCb : NetClientEvent → σ → σ) (app : σ)
    {es : List PreemptEvent} {t : Preempted netclientQueueSize σ}
    (hr : Runs.run preemptStep (Preempted.init pfnEventCb app) es = some t) :
    let taken := (accepted t.world.lwip.log).map Prod.snd
    freedPbufs t.world.lwip.log ++ t.job.pbufs ++ t.world.inst.queued = taken ∧
      (freedPbufs t.world.lwip.log ++ t.job.pbufs ++ t.world.inst.queued).Nodup ∧
      taken.Sublist (offers t.world.lwip.log) ∧
      ∀ p pb, t.world.lwip.refused = some (p, pb) → pb ∉ taken := by
  obtain ⟨w, hw, h⟩ := (linear_init pfnEventCb app).run_upToNull (by decide) hr
  have hinv := (handoverOk_run (by decide) (handoverOk_init pfnEventCb app) hw).inv
  have hqueue : t.world.inst.queued = w.inst.queued := by rw [h.world, relog_inst]
  have hheld : t.world.lwip.refused = w.lwip.refused := by
    rw [h.world]
    rfl
  have hconserved : freedPbufs w.lwip.log ++ w.inst.queued = (accepted w.lwip.log).map Prod.snd :=
    hinv.conserved
  rw [h.freedPbufs_eq, h.accepted_eq, h.offers_eq, hqueue, hheld]
  refine ⟨hconserved, ?_, hinv.sub, fun p pb hpb => ?_⟩
  · rw [hconserved]
    exact hinv.accepted_nodup
  · exact hinv.held_not_accepted (by simp [World.handover, hpb])

def insideReadEvents : List PreemptEvent :=
  [.call (.connect ⟨10, 0, 0, 12⟩ 1883 true .ok .ok), .lwip (.connected 0),
    .lwip (.receive 0 connack), .call (.readPacket 2), .next, .lwip (.receive 0 connack)]

/-- One pbuf is in the hands of the call, another has come in since. -/
theorem pbufs_conserved_inside_read :
    ∃ t : Preempted netclientQueueSize Unit,
      Runs.run preemptStep (Preempted.init (fun _ s => s) ()) insideReadEvents = some t ∧
        t.job.pbufs.length = 1 ∧ t.world.inst.queued.length = 1 ∧
        freedPbufs t.world.lwip.log ++ t.job.pbufs ++ t.world.inst.queued =
          (accepted t.world.lwip.log).map Prod.snd := by
  have hfacts : (Runs.run preemptStep (Preempted.init (N := netclientQueueSize) (fun _ s => s) ())
      insideReadEvents).map (fun t => (t.job.pbufs.length, t.world.inst.queued.length)) =
        some (1, 1) := by
    decide +kernel
  obtain ⟨t, ht, hf⟩ := Option.map_eq_some_iff.mp hfacts
  obtain ⟨hjob, hqueue⟩ := Prod.mk.inj hf
  exact ⟨t, ht, hjob, hqueue, (pbufs_conserved_inside (fun _ s => s) () ht).1⟩

end McuTest
