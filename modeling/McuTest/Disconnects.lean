import McuTest.LoopControl

/-! The flag `netWasDisconnected` against the connection. It is set by lwIP
and by the recovery of the loop itself, and cleared at the top of the loop. -/

namespace McuTest

variable {s s' : Main}

/-- lwIP runs callbacks of the current PCB only. -/
def OnCurrentPcb (s : Main) : MainEvent → Prop
  | .lwip le => le = .giveUp ∨ ∃ p ∈ s.world.inst.hNet, s.world.concerns p le
  | _ => True

instance (s : Main) : (e : MainEvent) → Decidable (OnCurrentPcb s e)
  | .lwip le =>
    inferInstanceAs (Decidable (le = .giveUp ∨ ∃ p ∈ s.world.inst.hNet, s.world.concerns p le))
  | .exec _ | .transport _ | .sysTick => isTrue trivial

def Control.FlagOk : Control → Prop
  | ⟨.idle, hNet, flag⟩ => hNet = none ∧ flag = false
  | ⟨.up, hNet, flag⟩ => flag = true ↔ hNet = none
  | ⟨.failed, hNet, flag⟩ => hNet = none ∧ flag = false
  | ⟨.recovering, hNet, flag⟩ => flag = true → hNet = none
  | ⟨.closed, hNet, _⟩ => hNet = none
  | ⟨.alarm, hNet, _⟩ => hNet = none
  | ⟨.cleared, hNet, flag⟩ => hNet = none ∧ flag = false

theorem Control.FlagOk.none_of_flag {ph : Phase} {hNet : Option Pcb}
    (h : FlagOk ⟨ph, hNet, true⟩) : hNet = none := by
  cases ph <;> simp_all [FlagOk]

theorem Control.FlagOk.lost {ph : Phase} {p : Pcb} {flag : Bool}
    (h : FlagOk ⟨ph, some p, flag⟩) : FlagOk ⟨ph, none, true⟩ := by
  cases ph <;> simp_all [FlagOk]

theorem Control.FlagOk.step {failed : Prop} {x y : Control} (h : FlagOk x)
    (hs : Control.Step failed x y) : FlagOk y := by
  cases hs with
  | stay => exact h
  | dial hNet p f =>
    obtain ⟨_, rfl⟩ := h
    simp [FlagOk]
  | dialFails _ hNet f => exact ⟨rfl, h.2⟩
  | fail ph hp hNet f =>
    intro hf
    rw [hf] at h
    exact h.none_of_flag
  | alarm ph _ hNet => exact h.none_of_flag
  | clear hNet f => exact ⟨h, rfl⟩
  | reset hNet f => exact fun _ => h.1
  | disconnect => rfl
  | settle hNet f => exact ⟨h, rfl⟩
  | rest hNet f => exact h.1

structure FlagInv (s : Main) : Prop extends LoopOk s where
  flag : s.control.FlagOk

theorem flagInv_init (clock : Clock) : FlagInv (Main.init clock) :=
  { loopOk_init clock with flag := ⟨rfl, rfl⟩ }

theorem FlagInv.step (h : FlagInv s) {e : MainEvent} (hcur : OnCurrentPcb s e)
    (he : mainStep s e = some s') : FlagInv s' := by
  refine { h.toLoopOk.step he with flag := ?_ }
  rcases control_step h.toLoopOk he with ⟨ans, _, hstep⟩ | ⟨le, rfl, hl, hlost⟩ | hsame
  · exact h.flag.step hstep
  · obtain ⟨p, hp, _⟩ := hcur.resolve_left (by rintro rfl; simp [LwipEvent.loses] at hl)
    have hflag := h.flag
    simp only [Main.control, Option.mem_def.mp hp] at hflag
    rw [hlost]
    exact hflag.lost
  · rw [hsame]
    exact h.flag

/-- At the top of the loop, in the states that use a connection, the flag tells
exactly whether it is lost; and no attempt starts with the flag set. -/
theorem disconnected_iff_hNet_none (clock : Clock) {es : List MainEvent} {s : Main}
    (hr : Runs.run mainStep (Main.init clock) es = some s)
    (hcur : Runs.AllSteps mainStep OnCurrentPcb (Main.init clock) es) :
    (s.pc = .top → s.runState = .waitNet ∨ s.runState = .waitMqtt ∨ s.runState = .runMqtt →
      (s.disconnected = true ↔ s.world.inst.hNet = none)) ∧
    (s.pc = .netConnect → s.disconnected = false) := by
  have h : FlagInv s :=
    Runs.run_invariant (fun _ _ _ hi hok he => FlagInv.step hi hok he) (flagInv_init clock) hcur hr
  have hflag := h.flag
  constructor
  · intro hpc hrs
    have hup : s.phase = .up := by
      rcases hrs with hrs | hrs | hrs <;> simp [Main.phase, hpc, hrs]
    rw [control_of_phase hup] at hflag
    exact hflag
  · intro hpc
    have hidle : s.phase = .idle := by simp [Main.phase, hpc]
    rw [control_of_phase hidle] at hflag
    exact hflag.2

def lostSession : List MainEvent :=
  List.replicate 7 (MainEvent.exec { ipAddr := 1 }) ++ [MainEvent.lwip (.connected 0)] ++
    List.replicate 3 (MainEvent.exec {}) ++ [MainEvent.lwip (.peerClose 0)] ++ List.replicate 3 (MainEvent.exec {})

theorem disconnected_iff_hNet_none_lost_session :
    ∃ s : Main, Runs.run mainStep (Main.init {}) lostSession = some s ∧ s.pc = .top ∧
      s.runState = .waitMqtt ∧ s.world.inst.hNet = none ∧ s.disconnected = true := by
  have hfacts : (Runs.run mainStep (Main.init {}) lostSession).map
      (fun s => (s.pc, s.runState, s.world.inst.hNet)) = some (.top, .waitMqtt, none) := by
    decide +kernel
  obtain ⟨s, hs, hf⟩ := Option.map_eq_some_iff.mp hfacts
  simp only [Prod.mk.injEq] at hf
  obtain ⟨hpc, hrs, hnet⟩ := hf
  have hcur : Runs.AllSteps mainStep OnCurrentPcb (Main.init {}) lostSession := by
    decide +kernel
  have hiff := (disconnected_iff_hNet_none {} hs hcur).1 hpc (.inr (.inl hrs))
  exact ⟨s, hs, hpc, hrs, hnet, hiff.mpr hnet⟩

end McuTest
