import McuTest.LoopControl

/-! The PCB that the application's calls pass on. `net_Disconnect` and the
transport functions take `hNet` as it is, and nothing in the loop looks at it
before `STATE_RECOVERY` disconnects. -/

namespace McuTest

section Net

variable {N : Nat} [NeZero N] {σ : Type}

def PassesPcb (w : World N σ) : ApiCall → Prop
  | .connect _ _ _ _ _ => True
  | .readPacket _ => w.inst.queued ≠ [] → w.inst.hNet ≠ none
  | .disconnect _ | .writePacket _ _ _ _ => w.inst.hNet ≠ none

theorem passesPcb_of_hNet {w : World N σ} (h : w.inst.hNet ≠ none) (c : ApiCall) :
    PassesPcb w c := by
  cases c with
  | connect addr port avail connErr closeErr => trivial
  | readPacket len => exact fun _ => h
  | disconnect closeErr => exact h
  | writePacket buf len isMore err => exact h

end Net

variable {s s' : Main}

def NoNullPcb (s : Main) (e : MainEvent) : Prop :=
  ∀ c, s.netEvent e = some (.call c) → PassesPcb s.world c

/-- Connection attempts succeed, and lwIP reports neither a peer close nor a
fatal error. -/
def Undisturbed (s : Main) : MainEvent → Prop
  | .exec ans => ¬s.connectFails ans
  | .lwip e => e.loses = false
  | _ => True

instance (s : Main) : (e : MainEvent) → Decidable (Undisturbed s e)
  | .exec ans =>
    inferInstanceAs (Decidable (¬(s.pc = .netConnect ∧ ¬(ans.avail = true ∧ ans.connErr = .ok))))
  | .lwip e => inferInstanceAs (Decidable (e.loses = false))
  | .transport _ | .sysTick => isTrue trivial

def Control.Held : Control → Prop
  | ⟨.idle, hNet, flag⟩ => hNet = none ∧ flag = false
  | ⟨.up, hNet, flag⟩ => hNet ≠ none ∧ flag = false
  | ⟨.recovering, hNet, flag⟩ => hNet ≠ none ∧ flag = false
  | ⟨.closed, hNet, _⟩ => hNet = none
  | _ => False

theorem Control.Held.step {failed : Prop} {x y : Control} (h : Held x)
    (hs : Control.Step failed x y) (hok : ¬failed) : Held y := by
  cases hs with
  | stay => exact h
  | dial hNet p f =>
    obtain ⟨_, rfl⟩ := h
    simp [Held]
  | dialFails hf => exact absurd hf hok
  | fail ph hp hNet f =>
    rcases hp with rfl | rfl
    · exact h.elim
    · exact h
  | alarm ph hp hNet =>
    -- the flag is set only where the loop has just taken the connection down
    cases ph <;> simp [Held] at h hp
  | clear => exact h.elim
  | reset => exact h.elim
  | disconnect => rfl
  | settle hNet f => exact ⟨h, rfl⟩
  | rest hNet f => exact h.1

theorem Control.Held.hNet {ph : Phase} {hNet : Option Pcb} {flag : Bool}
    (h : Held ⟨ph, hNet, flag⟩) (hp : ph = .up ∨ ph = .recovering) : hNet ≠ none := by
  rcases hp with rfl | rfl
  · exact h.1
  · exact h.1

structure HeldInv (s : Main) : Prop extends LoopOk s where
  held : s.control.Held

theorem heldInv_init (clock : Clock) : HeldInv (Main.init clock) :=
  { loopOk_init clock with held := ⟨rfl, rfl⟩ }

theorem HeldInv.step (h : HeldInv s) {e : MainEvent} (hund : Undisturbed s e)
    (he : mainStep s e = some s') : HeldInv s' := by
  refine { h.toLoopOk.step he with held := ?_ }
  rcases control_step h.toLoopOk he with ⟨ans, rfl, hstep⟩ | ⟨le, rfl, hl, _⟩ | hsame
  · exact h.held.step hstep hund
  · have hkeep : le.loses = false := hund
    simp [hkeep] at hl
  · rw [hsame]
    exact h.held

theorem phase_inUmqtt (h : s.pc.inUmqtt = true) : s.phase = .up ∨ s.phase = .recovering := by
  cases hpc : s.pc <;> simp [Main.phase, Pc.inUmqtt, hpc] at h ⊢

theorem HeldInv.noNullPcb (h : HeldInv s) {e : MainEvent} (he : mainStep s e = some s') :
    NoNullPcb s e := by
  intro c hc
  have hheld : s.phase = .up ∨ s.phase = .recovering → PassesPcb s.world c := by
    intro hp
    exact passesPcb_of_hNet (h.held.hNet hp) c
  cases drives_of_netEvent he hc with
  | connect ans hpc => trivial
  | disconnect ans hpc => exact hheld (.inr (by simp [Main.phase, hpc]))
  | write buf len isMore err hin => exact hheld (phase_inUmqtt hin)
  | read len hin hp => exact hheld (phase_inUmqtt hin)

/-- As long as attempts succeed and connections stay up, no call passes NULL. -/
theorem hNet_passed_not_null (clock : Clock) {es : List MainEvent}
    (hund : Runs.AllSteps mainStep Undisturbed (Main.init clock) es) :
    Runs.AllSteps mainStep NoNullPcb (Main.init clock) es :=
  Runs.allSteps_of_invariant (fun _ _ _ hi hok he => HeldInv.step hi hok he)
    (fun _ _ _ hi _ he => HeldInv.noNullPcb hi he) (heldInv_init clock) hund

def refusedSession : List MainEvent :=
  List.replicate 7 (MainEvent.exec { ipAddr := 1 }) ++ [MainEvent.lwip (.connected 0)] ++
    List.replicate 3 (MainEvent.exec {}) ++ [MainEvent.transport (.call (.writePacket [16] 1 false .ok))] ++
    List.replicate 7 (MainEvent.exec { err := .other 1 })

theorem hNet_passed_not_null_refused_session :
    (Runs.run mainStep (Main.init {}) refusedSession).map (fun s => s.pc) = some .armError ∧
      Runs.AllSteps mainStep NoNullPcb (Main.init {}) refusedSession := by
  constructor
  · decide +kernel
  · exact hNet_passed_not_null {} (by decide +kernel)

/-- `tcp_new` has no PCB, and the loop disconnects what was never connected. -/
def failedAttempt : List MainEvent :=
  List.replicate 10 (MainEvent.exec { ipAddr := 1, avail := false })

theorem not_hNet_passed_not_null :
    ¬∀ (clock : Clock) (es : List MainEvent),
      Runs.AllSteps mainStep NoNullPcb (Main.init clock) es := by
  intro hall
  have hfacts : (Runs.run mainStep (Main.init {}) failedAttempt).map
      (fun s => (s.pc, s.world.inst.hNet, s.net.peeked)) =
        some (.netDisconnect, none, none) := by
    decide +kernel
  obtain ⟨s, hs, hf⟩ := Option.map_eq_some_iff.mp hfacts
  simp only [Prod.mk.injEq] at hf
  obtain ⟨hpc, hnet, hpeeked⟩ := hf
  have hnext : mainStep s (.exec {}) = some (exec s {}) := by
    simp [mainStep, hpeeked]
  have hlast := (hall {} (failedAttempt ++ [.exec {}])).last hs hnext
  have hcall : s.netEvent (.exec {}) = some (.call (.disconnect .ok)) := by
    simp [Main.netEvent, Main.transportEvent, hpc, Transport.netEvent]
  exact hlast _ hcall hnet

end McuTest
