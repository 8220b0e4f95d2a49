import McuTest.History

/-! Bounded progress of runs in which some steps count and the others come in
between at will. -/

namespace Progress

open Runs History

variable {σ ε : Type*} (step : σ → ε → Option σ) (counts : ε → Bool)

def ComesBy (Q : σ → Prop) (s : σ) (es : List ε) : Prop :=
  ∃ pre post u, es = pre ++ post ∧ run step s pre = some u ∧ Q u

/-- The run comes by a state of `Q` before more than `n` of its steps have counted. -/
def Meets (n : Nat) (Q : σ → Prop) (s : σ) (es : List ε) : Prop :=
  ∃ pre post u, es = pre ++ post ∧ run step s pre = some u ∧ Q u ∧ pre.countP counts ≤ n

/-- From `P`, any run of which `n` steps count comes by `Q`. -/
def Leads (ok : σ → ε → Prop) (n : Nat) (P Q : σ → Prop) : Prop :=
  ∀ s t es, P s → AllSteps step ok s es → run step s es = some t → n ≤ es.countP counts →
    Meets step counts n Q s es

variable {step counts} {ok : σ → ε → Prop} {P Q R : σ → Prop} {s t : σ} {e : ε} {es : List ε}
  {n m : Nat}

theorem allSteps_append {es es' : List ε} (hr : run step s es = some t) :
    AllSteps step ok s (es ++ es') ↔ AllSteps step ok s es ∧ AllSteps step ok t es' := by
  induction es generalizing s with
  | nil =>
    obtain rfl := Option.some.inj hr
    exact ⟨fun h => ⟨trivial, h⟩, fun h => h.2⟩
  | cons e es ih =>
    obtain ⟨u, hu, hr⟩ := run_cons hr
    constructor
    · intro h
      obtain ⟨he, hrest⟩ := h u hu
      obtain ⟨hes, hes'⟩ := (ih hr).mp hrest
      refine ⟨fun v hv => ?_, hes'⟩
      obtain rfl := Option.some.inj (hu.symm.trans hv)
      exact ⟨he, hes⟩
    · rintro ⟨h, h'⟩ v hv
      obtain rfl := Option.some.inj (hu.symm.trans hv)
      obtain ⟨he, hes⟩ := h u hu
      exact ⟨he, (ih hr).mpr ⟨hes, h'⟩⟩

theorem run_rest {es es' : List ε} {u : σ} (hr : run step s es = some u)
    (h : run step s (es ++ es') = some t) : run step u es' = some t := by
  rw [run_append, hr] at h
  exact h

theorem meets_here (hs : Q s) : Meets step counts n Q s es :=
  ⟨[], es, s, rfl, rfl, hs, Nat.zero_le n⟩

theorem Meets.cons (he : step s e = some t) (h : Meets step counts n Q t es)
    (hn : n + (if counts e then 1 else 0) ≤ m) : Meets step counts m Q s (e :: es) := by
  obtain ⟨pre, post, u, rfl, hu, hq, hpre⟩ := h
  refine ⟨e :: pre, post, u, rfl, ?_, hq, ?_⟩
  · rw [run, he]
    exact hu
  · rw [List.countP_cons]
    omega

theorem Meets.mono (h : Meets step counts n P s es) (hPQ : ∀ u, P u → Q u) (hn : n ≤ m) :
    Meets step counts m Q s es := by
  obtain ⟨pre, post, u, he, hu, hp, hpre⟩ := h
  exact ⟨pre, post, u, he, hu, hPQ u hp, Nat.le_trans hpre hn⟩

theorem allSteps_and {ok' : σ → ε → Prop} (h : AllSteps step ok s es)
    (h' : AllSteps step ok' s es) : AllSteps step (fun u e => ok u e ∧ ok' u e) s es := by
  induction es generalizing s with
  | nil => trivial
  | cons e es ih =>
    intro u hu
    obtain ⟨he, hrest⟩ := h u hu
    obtain ⟨he', hrest'⟩ := h' u hu
    exact ⟨⟨he, he'⟩, ih hrest hrest'⟩

theorem allSteps_imp {ok' : σ → ε → Prop} (himp : ∀ u e, ok u e → ok' u e)
    (h : AllSteps step ok s es) : AllSteps step ok' s es := by
  induction es generalizing s with
  | nil => trivial
  | cons e es ih =>
    intro u hu
    obtain ⟨he, hrest⟩ := h u hu
    exact ⟨himp s e he, ih hrest⟩

theorem run_mono {f : σ → Nat} (hstep : ∀ s e t, step s e = some t → f s ≤ f t)
    (hr : run step s es = some t) : f s ≤ f t :=
  run_invariant' (I := fun u => f s ≤ f u) (fun u e v h he => Nat.le_trans h (hstep u e v he))
    (Nat.le_refl _) hr

theorem allSteps_mono {f : σ → Nat} (hstep : ∀ s e t, step s e = some t → f s ≤ f t)
    (hr : run step s es = some t) : AllSteps step (fun u _ => f u ≤ f t) s es := by
  induction es generalizing s with
  | nil => trivial
  | cons e es ih =>
    intro u hu
    have hs := run_mono hstep hr
    rw [run, hu] at hr
    exact ⟨hs, ih hr⟩

/-- A rank that no step raises and every counted step lowers leads to `Q`. -/
theorem meets_of_rank {I : σ → Prop} {rank : σ → Nat} (hzero : ∀ s, I s → rank s = 0 → Q s)
    (hstep : ∀ s e t, I s → ¬Q s → ok s e → step s e = some t →
      I t ∧ rank t + (if counts e then 1 else 0) ≤ rank s)
    (hs : I s) (hok : AllSteps step ok s es) (hr : run step s es = some t)
    (hn : rank s ≤ es.countP counts) : Meets step counts (rank s) Q s es := by
  induction es generalizing s with
  | nil =>
    have hrank : rank s = 0 := Nat.le_zero.mp hn
    exact meets_here (hzero s hs hrank)
  | cons e es ih =>
    by_cases hq : Q s
    · exact meets_here hq
    · obtain ⟨u, hu, hr⟩ := run_cons hr
      obtain ⟨he, hok⟩ := hok u hu
      obtain ⟨hI, hrank⟩ := hstep s e u hs hq he hu
      have hn' : rank u ≤ es.countP counts := by
        rw [List.countP_cons] at hn
        omega
      exact (ih hI hok hr hn').cons hu hrank

theorem leads_of_rank (I : σ → Prop) (rank : σ → Nat) (hzero : ∀ s, I s → rank s = 0 → Q s)
    (hstep : ∀ s e t, I s → ¬Q s → ok s e → step s e = some t →
      I t ∧ rank t + (if counts e then 1 else 0) ≤ rank s)
    (hn : ∀ s, P s → I s ∧ rank s ≤ n) : Leads step counts ok n P Q := by
  intro s t es hs hok hr hcount
  obtain ⟨hI, hrank⟩ := hn s hs
  exact (meets_of_rank hzero hstep hI hok hr (Nat.le_trans hrank hcount)).mono (fun _ h => h) hrank

theorem Leads.trans (hPQ : Leads step counts ok n P Q) (hQR : Leads step counts ok m Q R) :
    Leads step counts ok (n + m) P R := by
  intro s t es hs hok hr hcount
  obtain ⟨pre, post, u, rfl, hu, hq, hpre⟩ := hPQ s t es hs hok hr (by omega)
  have hrest := run_rest hu hr
  rw [List.countP_append] at hcount
  obtain ⟨mid, post, v, rfl, hv, hR, hmid⟩ :=
    hQR u t post hq ((allSteps_append hu).mp hok).2 hrest (by omega)
  refine ⟨pre ++ mid, post, v, by rw [List.append_assoc], ?_, hR, ?_⟩
  · rw [run_append, hu]
    exact hv
  · rw [List.countP_append]
    omega

theorem Leads.or (hP : Leads step counts ok n P R) (hQ : Leads step counts ok n Q R) :
    Leads step counts ok n (fun s => P s ∨ Q s) R := by
  rintro s t es (hs | hs) hok hr hcount
  · exact hP s t es hs hok hr hcount
  · exact hQ s t es hs hok hr hcount

theorem leads_of_imp (h : ∀ s, P s → Q s) : Leads step counts ok n P Q := by
  intro s t es hs _ _ _
  exact meets_here (h s hs)

theorem Leads.mono {P' Q' : σ → Prop} (h : Leads step counts ok n P Q) (hP : ∀ s, P' s → P s)
    (hQ : ∀ s, Q s → Q' s) (hn : n ≤ m) : Leads step counts ok m P' Q' := by
  intro s t es hs hok hr hcount
  exact (h s t es (hP s hs) hok hr (Nat.le_trans hn hcount)).mono hQ hn

theorem Leads.of_ok {ok' : σ → ε → Prop} (h : Leads step counts ok n P Q)
    (himp : ∀ s e, ok' s e → ok s e) : Leads step counts ok' n P Q := by
  intro s t es hs hok hr hcount
  exact h s t es hs (allSteps_imp himp hok) hr hcount

/-- What no step breaks holds on the way and in the end. -/
theorem Leads.keeping {I : σ → Prop} (h : Leads step counts ok n P Q)
    (hI : ∀ s e t, I s → step s e = some t → I t) :
    Leads step counts ok n (fun s => P s ∧ I s) (fun s => Q s ∧ I s) := by
  intro s t es hs hok hr hcount
  obtain ⟨pre, post, u, he, hu, hq, hpre⟩ := h s t es hs.1 hok hr hcount
  exact ⟨pre, post, u, he, hu, ⟨hq, run_invariant' hI hs.2 hu⟩, hpre⟩

theorem Meets.comesBy (h : Meets step counts n Q s es) : ComesBy step Q s es := by
  obtain ⟨pre, post, u, he, hu, hq, _⟩ := h
  exact ⟨pre, post, u, he, hu, hq⟩

theorem ComesBy.after {es' : List ε} (hr : run step s es = some t) (h : ComesBy step Q t es') :
    ComesBy step Q s (es ++ es') := by
  obtain ⟨pre, post, u, rfl, hu, hq⟩ := h
  refine ⟨es ++ pre, post, u, by rw [List.append_assoc], ?_, hq⟩
  rw [run_append, hr]
  exact hu

theorem ComesBy.append (h : ComesBy step Q s es) (es' : List ε) :
    ComesBy step Q s (es ++ es') := by
  obtain ⟨pre, post, u, rfl, hu, hq⟩ := h
  exact ⟨pre, post ++ es', u, by rw [List.append_assoc], hu, hq⟩

/-- What is only given up in `Q` lasts, or the run comes by `Q`. -/
theorem stays_or_comesBy (hstep : ∀ s e t, P s → ¬Q s → ok s e → step s e = some t → P t)
    (hs : P s) (hok : AllSteps step ok s es) (hr : run step s es = some t) :
    P t ∨ ComesBy step Q s es := by
  induction es generalizing s with
  | nil => exact .inl (Option.some.inj hr ▸ hs)
  | cons e es ih =>
    by_cases hq : Q s
    · exact .inr ⟨[], e :: es, s, rfl, rfl, hq⟩
    · obtain ⟨u, hu, hr⟩ := run_cons hr
      obtain ⟨he, hok⟩ := hok u hu
      have hone : run step s [e] = some u := by rw [run, hu]; rfl
      rcases ih (hstep s e u hs hq he hu) hok hr with ht | hcomes
      · exact .inl ht
      · exact .inr (hcomes.after hone)

/-- What is led to within the first part of a run and lasts, holds at the end of the run. -/
theorem Leads.lasts (h : Leads step counts ok n P R)
    (hstep : ∀ s e t, R s → ¬Q s → ok s e → step s e = some t → R t) (hs : P s)
    (hok : AllSteps step ok s es) (hr : run step s es = some t) (hcount : n ≤ es.countP counts) :
    R t ∨ ComesBy step Q s es := by
  obtain ⟨pre, post, u, rfl, hu, hR, _⟩ := h s t es hs hok hr hcount
  rcases stays_or_comesBy hstep hR ((allSteps_append hu).mp hok).2 (run_rest hu hr) with ht | hcomes
  · exact .inl ht
  · exact .inr (hcomes.after hu)

theorem Leads.holds (h : Leads step counts ok n P R)
    (hstep : ∀ s e t, R s → ok s e → step s e = some t → R t) (hs : P s)
    (hok : AllSteps step ok s es) (hr : run step s es = some t) (hcount : n ≤ es.countP counts) :
    R t := by
  have hlasts : R t ∨ ComesBy step (fun _ => False) s es :=
    h.lasts (fun u e v hu _ he hv => hstep u e v hu he hv) hs hok hr hcount
  rcases hlasts with ht | ⟨_, _, _, _, _, hno⟩
  · exact ht
  · exact hno.elim

end Progress
