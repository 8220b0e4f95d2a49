import McuTest.Node
import McuTest.Thumb

/-! From reset to `main`: the copying of the data segment and the clearing of
the bss segment in startup_gcc.c. -/

namespace McuTest

open Words Thumb

/-- The symbols of lm3s6965.ld, within the memories that it declares. -/
structure Layout where
  etext : Word
  data : Word
  edata : Word
  bss : Word
  ebss : Word
  etext_le : etext.toNat ≤ 0x3F000
  le_data : 0x20000000 ≤ data.toNat
  data_le : data.toNat ≤ edata.toNat
  edata_le : edata.toNat ≤ bss.toNat
  bss_le : bss.toNat ≤ ebss.toNat
  ebss_le : ebss.toNat ≤ 0x20010000

def copyData : Nat → Memory → Word → Word → Word → Option Memory
  | 0, _, _, _, _ => none
  | fuel + 1, m, pulSrc, pulDest, edata =>
    if pulDest < edata then
      copyData fuel (store m pulDest (load m pulSrc)) (pulSrc + 4) (pulDest + 4) edata
    else some m

def zeroLoop : Nat := 3

def zeroFill (l : Layout) : List Instr :=
  [.ldr 0 l.bss, .ldr 1 l.ebss, .mov 2 0,
    .cmp 0 1, .it .lt, .strPost .lt 2 0 4, .b .lt zeroLoop]

/-- The memory that `main` is called with. -/
def resetISR (fuel : Nat) (l : Layout) (regs : Fin 16 → Word) (m : Memory) : Option Memory := do
  let m ← copyData fuel m l.etext l.data l.edata
  let s ← Thumb.run (zeroFill l) fuel { regs := regs, mem := m }
  some s.mem

theorem copyData_eq {k fuel : Nat} {m : Memory} {src dst stop : Word}
    (hlow : stop.toNat ≤ dst.toNat + 4 * k) (hhigh : dst.toNat + 4 * k < stop.toNat + 4)
    (hsrc : src.toNat + 4 * k ≤ dst.toNat) (hdst : dst.toNat + 4 * k < 2 ^ 32) (hf : k < fuel) :
    copyData fuel m src dst stop = some (copied m src dst (4 * k)) := by
  induction k generalizing fuel m src dst with
  | zero =>
    obtain ⟨fuel, rfl⟩ := Nat.exists_eq_succ_of_ne_zero (by omega : fuel ≠ 0)
    have hdone : ¬dst < stop := by bv_omega
    rw [copyData, if_neg hdone, Nat.mul_zero, copied_zero]
  | succ k ih =>
    obtain ⟨fuel, rfl⟩ := Nat.exists_eq_succ_of_ne_zero (by omega : fuel ≠ 0)
    have hmore : dst < stop := by bv_omega
    have hnext : (dst + 4).toNat = dst.toNat + 4 := by bv_omega
    have hfrom : (src + 4).toNat = src.toNat + 4 := by bv_omega
    rw [copyData, if_pos hmore, ih (by omega) (by omega) (by omega) (by omega) (by omega),
      store_load]
    have hparts : copied (copied m src dst 4) (src + 4) (dst + 4) (4 * k) =
        copied m src dst (4 + 4 * k) := copied_copied m (by omega) (by omega)
    rw [show 4 * (k + 1) = 4 + 4 * k by omega, ← hparts]

variable {l : Layout}

/-- The state before the branch back of one pass. -/
def zeroPass (s : State) : State :=
  [Instr.cmp 0 1, .it .lt, .strPost .lt 2 0 4].foldl Thumb.exec s

theorem run_zeroPass (fuel : Nat) {s : State} (hpc : s.pc = zeroLoop) :
    Thumb.run (zeroFill l) (fuel + 4) s =
      Thumb.run (zeroFill l) fuel (Thumb.exec (zeroPass s) (.b .lt zeroLoop)) := by
  have hblock : (zeroFill l).drop s.pc =
      [.cmp 0 1, .it .lt, .strPost .lt 2 0 4] ++ [.b .lt zeroLoop] := by
    rw [hpc]
    rfl
  obtain ⟨hrun, hrest⟩ := run_block (fuel + 1) hblock (by decide)
  have hbranch : (zeroFill l)[(zeroPass s).pc]? = some (.b .lt zeroLoop) := by
    rw [← Nat.add_zero (zeroPass s).pc, ← List.getElem?_drop]
    exact congrArg (fun is => is[0]?) hrest
  exact hrun.trans (run_step hbranch)

section Pass

variable {s : State} (hr : s.regs 2 = 0) (hp : (s.regs 0).toNat < 2 ^ 31)
  (hq : (s.regs 1).toNat < 2 ^ 31)

include hr hp hq

theorem zeroPass_lt (hlt : (s.regs 0).toNat < (s.regs 1).toNat) :
    (zeroPass s).passes .lt = true ∧
      (zeroPass s).mem = filled s.mem (s.regs 0) 4 0 ∧
        (zeroPass s).regs 0 = s.regs 0 + 4 ∧ (zeroPass s).regs 1 = s.regs 1 ∧
          (zeroPass s).regs 2 = 0 := by
  have hpass := (passes_lt_of_cmp hp hq).mpr hlt
  simp only [State.passes, Thumb.exec] at hpass
  simp [zeroPass, Thumb.exec, State.passes, State.next, State.setReg, hpass, hr, store_zero]

omit hr

theorem zeroPass_ge (hge : (s.regs 1).toNat ≤ (s.regs 0).toNat) :
    (zeroPass s).passes .lt = false ∧ (zeroPass s).mem = s.mem ∧ (zeroPass s).pc = s.pc + 3 := by
  have hpass := (passes_lt_of_cmp hp hq).not.mpr (by omega)
  simp only [State.passes, Thumb.exec] at hpass
  simp [zeroPass, Thumb.exec, State.passes, State.next, hpass]

end Pass

theorem zeroLoop_run {k : Nat} (fuel : Nat) {s : State} (hpc : s.pc = zeroLoop) (hr : s.regs 2 = 0)
    (hlow : (s.regs 1).toNat ≤ (s.regs 0).toNat + 4 * k)
    (hhigh : (s.regs 0).toNat + 4 * k < (s.regs 1).toNat + 4)
    (hp : (s.regs 0).toNat + 4 * k < 2 ^ 31) (hq : (s.regs 1).toNat < 2 ^ 31)
    (hf : 4 * (k + 1) < fuel) :
    ∃ t, Thumb.run (zeroFill l) fuel s = some t ∧ t.mem = filled s.mem (s.regs 0) (4 * k) 0 := by
  induction k generalizing fuel s with
  | zero =>
    obtain ⟨fuel, rfl⟩ := Nat.exists_eq_add_of_lt (by omega : 4 < fuel)
    obtain ⟨hpass, hmem, hend⟩ := zeroPass_ge (by omega) hq (by omega)
    refine ⟨Thumb.exec (zeroPass s) (.b .lt zeroLoop), ?_, ?_⟩
    · rw [show 4 + fuel + 1 = fuel + 1 + 4 by omega, run_zeroPass _ hpc]
      apply run_end
      simp [Thumb.exec, hpass, State.next, hend, hpc, zeroLoop, zeroFill]
    · rw [filled_zero, ← hmem]
      simp [Thumb.exec, hpass, State.next]
  | succ k ih =>
    obtain ⟨fuel, rfl⟩ := Nat.exists_eq_add_of_lt (by omega : 4 < fuel)
    obtain ⟨hpass, hmem, h₀, h₁, h₂⟩ := zeroPass_lt hr (by omega) hq (by omega)
    have hnext : (s.regs 0 + 4).toNat = (s.regs 0).toNat + 4 := by bv_omega
    have hback : Thumb.exec (zeroPass s) (.b .lt zeroLoop) = { zeroPass s with pc := zeroLoop } := by
      simp [Thumb.exec, hpass]
    obtain ⟨t, ht, htm⟩ := ih (fuel + 1) (s := { zeroPass s with pc := zeroLoop }) rfl h₂
      (by rw [h₀, h₁, hnext]; omega) (by rw [h₀, h₁, hnext]; omega) (by rw [h₀, hnext]; omega)
      (by rw [h₁]; exact hq) (by omega)
    refine ⟨t, ?_, ?_⟩
    · rw [show 4 + fuel + 1 = fuel + 1 + 4 by omega, run_zeroPass _ hpc, hback]
      exact ht
    · have hparts := filled_filled s.mem (a := s.regs 0) (n := 4) (k := 4 * k) 0 (by omega)
      rw [htm, h₀, hmem, show 4 * (k + 1) = 4 + 4 * k by omega, ← hparts]
      rfl

/-- The number of words that make up `n` bytes. -/
def wordsOf (n : Nat) : Nat :=
  (n + 3) / 4

namespace Layout

variable (l : Layout)

def dataWords : Nat :=
  wordsOf (l.edata.toNat - l.data.toNat)

def bssWords : Nat :=
  wordsOf (l.ebss.toNat - l.bss.toNat)

end Layout

/-- The state in which the loop is entered. -/
def zeroStart (l : Layout) (regs : Fin 16 → Word) (m : Memory) : State :=
  [Instr.ldr 0 l.bss, .ldr 1 l.ebss, .mov 2 0].foldl Thumb.exec { regs := regs, mem := m }

theorem zeroStart_regs (regs : Fin 16 → Word) (m : Memory) :
    (zeroStart l regs m).regs 0 = l.bss ∧ (zeroStart l regs m).regs 1 = l.ebss ∧
      (zeroStart l regs m).regs 2 = 0 := by
  simp [zeroStart, Thumb.exec, State.setReg, State.next]

theorem zeroFill_run {fuel : Nat} (regs : Fin 16 → Word) (m : Memory) (hf : 0x10010 < fuel) :
    ∃ t, Thumb.run (zeroFill l) fuel { regs := regs, mem := m } = some t ∧
      t.mem = filled m l.bss (4 * l.bssWords) 0 := by
  have hmin := l.le_data
  have horder := l.data_le
  have horder' := l.edata_le
  have hsize := l.bss_le
  have hmax := l.ebss_le
  have hwords : l.bssWords = (l.ebss.toNat - l.bss.toNat + 3) / 4 := rfl
  obtain ⟨fuel, rfl⟩ := Nat.exists_eq_add_of_lt (by omega : 3 < fuel)
  have hstart : (zeroFill l).drop 0 = [.ldr 0 l.bss, .ldr 1 l.ebss, .mov 2 0] ++ (zeroFill l).drop 3 :=
    rfl
  obtain ⟨hrun, _⟩ := run_block (fuel + 1) (s := { regs := regs, mem := m }) hstart
    (by simp [Instr.isBranch])
  obtain ⟨h₀, h₁, h₂⟩ := zeroStart_regs (l := l) regs m
  obtain ⟨t, ht, htm⟩ := zeroLoop_run (l := l) (k := l.bssWords) (fuel + 1)
    (s := zeroStart l regs m) rfl h₂ (by rw [h₀, h₁]; omega) (by rw [h₀, h₁]; omega)
    (by rw [h₀]; omega) (by rw [h₁]; omega) (by omega)
  refine ⟨t, ?_, ?_⟩
  · rw [show 3 + fuel + 1 = fuel + 1 + 3 by omega]
    exact hrun.trans ht
  · rw [htm, h₀]
    rfl

/-- What `main` finds: the data segment is loaded, the bss segment is cleared,
and no other byte is changed but those that complete the last word of each. -/
structure Loaded (l : Layout) (m m' : Memory) : Prop where
  data : ∀ i < l.edata.toNat - l.data.toNat,
    m' (l.data + BitVec.ofNat 32 i) = m (l.etext + BitVec.ofNat 32 i)
  bss : ∀ i < l.ebss.toNat - l.bss.toNat, m' (l.bss + BitVec.ofNat 32 i) = 0
  rest : ∀ x, ¬Within l.data (4 * l.dataWords) x → ¬Within l.bss (4 * l.bssWords) x → m' x = m x

theorem loaded_image (m : Memory) :
    Loaded l m (filled (copied m l.etext l.data (4 * l.dataWords)) l.bss (4 * l.bssWords) 0) := by
  have hmin := l.le_data
  have horder := l.data_le
  have horder' := l.edata_le
  have hsize := l.bss_le
  have hmax := l.ebss_le
  have hdata : l.dataWords = (l.edata.toNat - l.data.toNat + 3) / 4 := rfl
  have hbss : l.bssWords = (l.ebss.toNat - l.bss.toNat + 3) / 4 := rfl
  refine ⟨fun i hi => ?_, fun i hi => ?_, fun x hx hx' => ?_⟩
  · have hout : ¬Within l.bss (4 * l.bssWords) (l.data + BitVec.ofNat 32 i) := by
      unfold Within
      bv_omega
    have hin : Within l.data (4 * l.dataWords) (l.data + BitVec.ofNat 32 i) := by
      unfold Within
      bv_omega
    have hoff : l.data + BitVec.ofNat 32 i - l.data = BitVec.ofNat 32 i := by bv_omega
    simp only [filled, copied, if_neg hout, if_pos hin, hoff]
  · have hin : Within l.bss (4 * l.bssWords) (l.bss + BitVec.ofNat 32 i) := by
      unfold Within
      bv_omega
    simp only [filled, if_pos hin]
  · simp only [filled, copied, if_neg hx, if_neg hx']

theorem resetISR_eq (regs : Fin 16 → Word) (m : Memory) {fuel : Nat} (hf : 0x10010 < fuel) :
    resetISR fuel l regs m =
      some (filled (copied m l.etext l.data (4 * l.dataWords)) l.bss (4 * l.bssWords) 0) := by
  have htext := l.etext_le
  have hmin := l.le_data
  have horder := l.data_le
  have horder' := l.edata_le
  have hsize := l.bss_le
  have hmax := l.ebss_le
  have hdata : l.dataWords = (l.edata.toNat - l.data.toNat + 3) / 4 := rfl
  have hcopy : copyData fuel m l.etext l.data l.edata =
      some (copied m l.etext l.data (4 * l.dataWords)) :=
    copyData_eq (by omega) (by omega) (by omega) (by omega) (by omega)
  obtain ⟨t, ht, htm⟩ := zeroFill_run (l := l) regs (copied m l.etext l.data (4 * l.dataWords)) hf
  simp only [resetISR, hcopy, Option.bind_eq_bind, Option.bind_some, ht, htm]

/-- From any reset on, whatever the memory and the registers hold, `main` is
called with the segments loaded. -/
theorem reset_loads (l : Layout) (regs : Fin 16 → Word) (m : Memory) {fuel : Nat}
    (hf : 0x10010 < fuel) : ∃ m', resetISR fuel l regs m = some m' ∧ Loaded l m m' :=
  ⟨_, resetISR_eq regs m hf, loaded_image m⟩

/-- Six bytes of data and eight that are cleared. -/
def smallLayout : Layout where
  etext := 0x400
  data := 0x20000000
  edata := 0x20000006
  bss := 0x20000008
  ebss := 0x20000010
  etext_le := by decide
  le_data := by decide
  data_le := by decide
  edata_le := by decide
  bss_le := by decide
  ebss_le := by decide

theorem reset_loads_small :
    ∃ m', resetISR 0x10011 smallLayout (fun _ => 7) (fun x => UInt8.ofNat x.toNat) = some m' ∧
      m' 0x20000005 = 5 ∧ m' 0x20000009 = 0 ∧ m' 0x20000013 = 0x13 := by
  obtain ⟨m', hm, hloaded⟩ := reset_loads smallLayout (fun _ => 7) (fun x => UInt8.ofNat x.toNat)
    (show 0x10010 < 0x10011 by decide)
  exact ⟨m', hm, hloaded.data 5 (by decide), hloaded.bss 1 (by decide),
    hloaded.rest 0x20000013 (by decide) (by decide)⟩

/-- The array at `a` holds the bytes `buf`. -/
def HoldsAt (m : Memory) (a : Word) (buf : Mem) : Prop :=
  ∀ i (hi : i < buf.length), buf[i] = some (m (a + BitVec.ofNat 32 i))

/-- What the linker does with a static array: an initialised one has its initial
value behind the text in flash, any other is put into the bss segment. -/
inductive Linked (l : Layout) (flash : Memory) : Word → Mem → Prop where
  | data (off : Nat) (buf : Mem) (hfit : off + buf.length ≤ l.edata.toNat - l.data.toNat)
      (hinit : HoldsAt flash (l.etext + BitVec.ofNat 32 off) buf) :
      Linked l flash (l.data + BitVec.ofNat 32 off) buf
  | bss (off n : Nat) (hfit : off + n ≤ l.ebss.toNat - l.bss.toNat) :
      Linked l flash (l.bss + BitVec.ofNat 32 off) (zeroMem n)

theorem Loaded.holdsAt {m m' : Memory} {a : Word} {buf : Mem} (h : Loaded l m m')
    (hlink : Linked l m a buf) : HoldsAt m' a buf := by
  intro i hi
  cases hlink with
  | data off buf hfit hinit =>
    have hload := h.data (off + i) (by omega)
    rw [BitVec.ofNat_add, ← BitVec.add_assoc, ← BitVec.add_assoc] at hload
    rw [hinit i hi, hload]
  | bss off n hfit =>
    have hlen : i < n := by simpa [zeroMem] using hi
    have hzero := h.bss (off + i) (by omega)
    rw [BitVec.ofNat_add, ← BitVec.add_assoc] at hzero
    rw [hzero]
    simp [zeroMem]

/-- Where the linker puts the static arrays of `main`. -/
structure TextAddrs where
  nodeName : Word
  nodeTopic : Word
  topicBuf : Word
  msgBuf : Word

structure TextsAt (place : Word → Mem → Prop) (addrs : TextAddrs) (t : Texts) : Prop where
  nodeName : place addrs.nodeName t.nodeName
  nodeTopic : place addrs.nodeTopic t.nodeTopic
  topicBuf : place addrs.topicBuf t.topicBuf
  msgBuf : place addrs.msgBuf t.msgBuf

/-- After any reset the texts of the node start from their initial values. -/
theorem texts_of_reset {regs : Fin 16 → Word} {m : Memory} {fuel : Nat} (hf : 0x10010 < fuel)
    {addrs : TextAddrs} (h : TextsAt (Linked l m) addrs Texts.statics) :
    ∃ m', resetISR fuel l regs m = some m' ∧ TextsAt (HoldsAt m') addrs Texts.statics := by
  have hloaded := loaded_image (l := l) m
  exact ⟨_, resetISR_eq regs m hf, {
    nodeName := hloaded.holdsAt h.nodeName
    nodeTopic := hloaded.holdsAt h.nodeTopic
    topicBuf := hloaded.holdsAt h.topicBuf
    msgBuf := hloaded.holdsAt h.msgBuf }⟩

end McuTest
