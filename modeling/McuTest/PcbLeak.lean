import McuTest.LoopInvariant

/-! PCBs that are neither current nor released. `net_Disconnect` and the
failure path of `net_Connect` forget the PCB whether or not `tcp_close` has
released it. -/

namespace McuTest

section Net

variable {N : Nat} [NeZero N] {σ : Type} {w w' : World N σ}

def NoLeak (w : World N σ) : Prop :=
  ∀ p ∈ allocated w.lwip.log, w.inst.hNet = some p ∨ p ∈ released w.lwip.log

def ClosesOk (w : World N σ) : NetEvent → Prop
  | .call (.disconnect closeErr) => w.inst.hNet ≠ none → closeErr = .ok
  | .call (.connect _ _ avail connErr closeErr) =>
    avail = true → connErr ≠ .ok → closeErr = .ok
  | _ => True

omit [NeZero N] in
theorem NoLeak.of_released (h : NoLeak w) {as : List Action}
    (hlog : w'.lwip.log = w.lwip.log ++ as) (ha : allocated as = [])
    (hcur : ∀ p, w.inst.hNet = some p → w'.inst.hNet = some p ∨ p ∈ released as) : NoLeak w' := by
  intro p hp
  rw [hlog, allocated_append, ha, List.append_nil] at hp
  rw [hlog, released_append, List.mem_append]
  rcases h p hp with hn | hr
  · rcases hcur p hn with hk | hk
    · exact .inl hk
    · exact .inr (.inr hk)
  · exact .inr (.inl hr)

theorem mem_released_errorCalls {hNet : Option Pcb} {p : Pcb} (hp : hNet = some p) :
    p ∈ released (errorCalls hNet) := by
  simp [errorCalls, released, Lifetime.freed, Action.frees, hp]

theorem noLeak_connect (hN : N ≤ 256) (h : NetOk w) (hl : NoLeak w) {addr : IpAddr}
    {port : UInt16} {avail : Bool} {connErr closeErr : ErrT} (hdown : w.inst.hNet = none)
    (hclose : avail = true → connErr ≠ .ok → closeErr = .ok)
    (he : netStep w (.call (.connect addr port avail connErr closeErr)) = some w') : NoLeak w' := by
  have heff := netStep_effect hN h he
  have hlog := heff.log
  have hnet := heff.hNet
  have hold : ∀ p ∈ allocated w.lwip.log, p ∈ released w.lwip.log := by
    intro p hp
    rcases hl p hp with hn | hr
    · simp [hdown] at hn
    · exact hr
  intro p hp
  rw [hlog, released_append, List.mem_append, hnet]
  rw [hlog, allocated_append, List.mem_append] at hp
  rcases hp with hp | hp
  · exact .inr (.inl (hold p hp))
  · cases avail with
    | false => simp [World.actions, connectCalls, allocated] at hp
    | true =>
      by_cases hok : connErr = .ok
      · obtain rfl : p = w.lwip.nextPcb := by
          simpa [World.actions, connectCalls, openCalls, allocated, hok] using hp
        exact .inl (by simp [World.hNetAfter, hok])
      · obtain rfl : p = w.lwip.nextPcb := by
          simpa [World.actions, connectCalls, openCalls, allocated, hok] using hp
        obtain rfl := hclose rfl hok
        refine .inr (.inr ?_)
        simp [World.actions, connectCalls, openCalls, released, Lifetime.freed, Action.frees, hok]

theorem noLeak_step (hN : N ≤ 256) (h : NetOk w) (hl : NoLeak w) {e : NetEvent}
    (hdown : ConnectsWhenDown w e) (hclose : ClosesOk w e) (he : netStep w e = some w') :
    NoLeak w' := by
  by_cases hconn : ∃ addr port avail connErr closeErr,
      e = .call (.connect addr port avail connErr closeErr)
  · obtain ⟨addr, port, avail, connErr, closeErr, rfl⟩ := hconn
    exact noLeak_connect hN h hl (hdown _ _ _ _ _ rfl) hclose he
  · have heff := netStep_effect hN h he
    have halloc := allocated_actions_of_ne_connect w fun a b c d f hl => hconn ⟨a, b, c, d, f, hl⟩
    refine hl.of_released heff.log halloc fun p hp => ?_
    rw [heff.hNet]
    cases e with
    | call c =>
      cases c with
      | connect addr port avail connErr closeErr => exact absurd ⟨_, _, _, _, _, rfl⟩ hconn
      | disconnect closeErr =>
        obtain rfl := hclose (by simp [hp])
        refine .inr ?_
        simp [World.actions, released, Lifetime.freed, Action.frees, hp]
      | readPacket len => exact .inl hp
      | writePacket buf len isMore err => exact .inl hp
    | lwip e =>
      cases e with
      | peerClose q =>
        refine .inr ?_
        change p ∈ released ([Action.entered .receiveCb .inst] ++ errorCalls w.inst.hNet)
        rw [released_append]
        exact List.mem_append_right _ (mem_released_errorCalls hp)
      | fatal q =>
        refine .inr ?_
        change p ∈ released ([Action.pcbFreed q, .entered .errorCb .inst] ++
          errorCalls w.inst.hNet)
        rw [released_append]
        exact List.mem_append_right _ (mem_released_errorCalls hp)
      | _ => exact .inl hp

end Net

variable {s s' : Main}

def LoopClosesOk (s : Main) (e : MainEvent) : Prop :=
  ∀ d, s.netEvent e = some d → ClosesOk s.world d

theorem noLeak_mainStep (h : LoopOk s) (hl : NoLeak s.world) {e : MainEvent}
    (hclose : LoopClosesOk s e) (he : mainStep s e = some s') : NoLeak s'.world := by
  rcases mainStep_world he with ⟨d, hd, hnet⟩ | ⟨_, hi, hw⟩
  · exact noLeak_step (by decide) h.net hl (h.connectsWhenDown he hd) (hclose d hd) hnet
  · intro p hp
    rw [hw] at hp ⊢
    rw [hi]
    exact hl p hp

/-- As long as every `tcp_close` succeeds, a PCB is current or released, and at
most one is held. -/
theorem pcbs_current_or_released (clock : Clock) {es : List MainEvent} {s : Main}
    (hr : Runs.run mainStep (Main.init clock) es = some s)
    (hclose : Runs.AllSteps mainStep LoopClosesOk (Main.init clock) es) :
    (∀ p ∈ allocated s.world.lwip.log,
      s.world.inst.hNet = some p ∨ p ∈ released s.world.lwip.log) ∧
    ∀ p ∈ allocated s.world.lwip.log, ∀ q ∈ allocated s.world.lwip.log,
      p ∉ released s.world.lwip.log → q ∉ released s.world.lwip.log → p = q := by
  have hstart : LoopOk (Main.init clock) ∧ NoLeak (Main.init clock).world :=
    ⟨loopOk_init clock, fun p hp => by
      simp [Main.init, Main.world, Transport.init, World.init, allocated] at hp⟩
  have hend : LoopOk s ∧ NoLeak s.world :=
    Runs.run_invariant (I := fun s => LoopOk s ∧ NoLeak s.world)
      (fun _ _ _ hi hok he => ⟨hi.1.step he, noLeak_mainStep hi.1 hi.2 hok he⟩) hstart hclose hr
  refine ⟨hend.2, fun p hp q hq hpr hqr => ?_⟩
  have hp' := (hend.2 p hp).resolve_right hpr
  have hq' := (hend.2 q hq).resolve_right hqr
  exact Option.some.inj (hp'.symm.trans hq')

theorem loopClosesOk_exec (s : Main) {ans : Answers} (h : ans.closeErr = .ok) :
    LoopClosesOk s (.exec ans) := by
  intro d hd
  cases hpc : s.pc <;>
    simp [Main.netEvent, Main.transportEvent, hpc, Transport.netEvent, netConnectCall] at hd
  · subst d
    exact fun _ _ => h
  · subst d
    exact fun _ => h

theorem loopClosesOk_lwip (s : Main) (e : LwipEvent) : LoopClosesOk s (.lwip e) := by
  intro d hd
  obtain rfl : .lwip e = d := by
    simpa [Main.netEvent, Main.transportEvent, Transport.netEvent] using hd
  trivial

/-- A connection attempt that umqtt gives up; `closeErr` is what `tcp_close`
returns when `STATE_RECOVERY` takes the connection down. -/
def failedSession (closeErr : ErrT) : List MainEvent :=
  List.replicate 7 (MainEvent.exec { ipAddr := 1 }) ++ [MainEvent.lwip (.connected 0)] ++
    List.replicate 12 (MainEvent.exec { err := .other 1, closeErr := closeErr })

theorem pcbs_current_or_released_failed_session :
    ∃ s : Main, Runs.run mainStep (Main.init {}) (failedSession .ok) = some s ∧
      allocated s.world.lwip.log = [0] ∧ 0 ∈ released s.world.lwip.log := by
  have hfacts : (Runs.run mainStep (Main.init {}) (failedSession .ok)).map
      (fun s => (s.world.inst.hNet, allocated s.world.lwip.log)) = some (none, [0]) := by
    decide +kernel
  obtain ⟨s, hs, hf⟩ := Option.map_eq_some_iff.mp hfacts
  obtain ⟨hnet, halloc⟩ := Prod.mk.inj hf
  have hclose : Runs.AllSteps mainStep LoopClosesOk (Main.init {}) (failedSession .ok) := by
    refine Runs.allSteps_of_mem (fun s e he => ?_) _
    simp only [failedSession, List.mem_append, List.mem_replicate, List.mem_singleton] at he
    rcases he with (⟨_, rfl⟩ | rfl) | ⟨_, rfl⟩
    · exact loopClosesOk_exec s rfl
    · exact loopClosesOk_lwip s _
    · exact loopClosesOk_exec s rfl
  have hcur := (pcbs_current_or_released {} hs hclose).1 0 (by simp [halloc])
  exact ⟨s, hs, halloc, hcur.resolve_left (by simp [hnet])⟩

/-- With `ERR_MEM` from `tcp_close` the PCB is forgotten but not released. -/
theorem not_pcbs_current_or_released :
    ¬∀ (clock : Clock) (es : List MainEvent) (s : Main),
      Runs.run mainStep (Main.init clock) es = some s → s.pc = .top →
        ∀ p ∈ allocated s.world.lwip.log,
          s.world.inst.hNet = some p ∨ p ∈ released s.world.lwip.log := by
  intro hall
  have hfacts : (Runs.run mainStep (Main.init {}) (failedSession .mem)).map
      (fun s => (s.pc, s.world.inst.hNet, allocated s.world.lwip.log,
        released s.world.lwip.log)) = some (.top, none, [0], []) := by
    decide +kernel
  obtain ⟨s, hs, hf⟩ := Option.map_eq_some_iff.mp hfacts
  simp only [Prod.mk.injEq] at hf
  obtain ⟨hpc, hnet, halloc, hrel⟩ := hf
  have hcur := hall {} _ s hs hpc 0 (by simp [halloc])
  simp [hnet, hrel] at hcur

end McuTest
