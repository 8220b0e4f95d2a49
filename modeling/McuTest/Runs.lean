import Mathlib.Data.List.Basic

/-! Runs of a partial step function over a list of events. A step that
returns `none` is not enabled. -/

namespace Runs

variable {σ ε : Type*} (step : σ → ε → Option σ)

def run (s : σ) : List ε → Option σ
  | [] => some s
  | e :: es => (step s e).bind fun t => run t es

/-- Every step of the run meets `ok`, read in the state before the step. -/
def AllSteps (ok : σ → ε → Prop) : σ → List ε → Prop
  | _, [] => True
  | s, e :: es => ∀ t, step s e = some t → ok s e ∧ AllSteps ok t es

def AllStates (P : σ → Prop) : σ → List ε → Prop
  | s, [] => P s
  | s, e :: es => P s ∧ ∀ t, step s e = some t → AllStates P t es

instance decidableAllSteps {ok : σ → ε → Prop} [∀ s e, Decidable (ok s e)] :
    (s : σ) → (es : List ε) → Decidable (AllSteps step ok s es)
  | _, [] => isTrue trivial
  | s, e :: es =>
    match h : step s e with
    | none => isTrue fun t ht => by simp [h] at ht
    | some t =>
      have : Decidable (AllSteps step ok t es) := decidableAllSteps t es
      if hk : ok s e ∧ AllSteps step ok t es then
        isTrue fun u hu => Option.some.inj (h.symm.trans hu) ▸ hk
      else isFalse fun hall => hk (hall t h)

variable {step}

theorem run_cons {s t : σ} {e : ε} {es : List ε} (h : run step s (e :: es) = some t) :
    ∃ u, step s e = some u ∧ run step u es = some t :=
  Option.bind_eq_some_iff.mp h

theorem allSteps_of_mem {ok : σ → ε → Prop} {es : List ε} (hok : ∀ s, ∀ e ∈ es, ok s e) (s : σ) :
    AllSteps step ok s es := by
  induction es generalizing s with
  | nil => trivial
  | cons e es ih =>
    refine fun t _ => ⟨hok s e (by simp), ?_⟩
    exact ih (fun s f hf => hok s f (List.mem_cons_of_mem e hf)) t

theorem allSteps_of_forall {ok : σ → ε → Prop} (hok : ∀ s e, ok s e) (s : σ) (es : List ε) :
    AllSteps step ok s es :=
  allSteps_of_mem (fun s e _ => hok s e) s

theorem run_invariant {I : σ → Prop} {ok : σ → ε → Prop}
    (hstep : ∀ s e t, I s → ok s e → step s e = some t → I t) {s t : σ} {es : List ε}
    (hs : I s) (hok : AllSteps step ok s es) (h : run step s es = some t) : I t := by
  induction es generalizing s with
  | nil => exact Option.some.inj h ▸ hs
  | cons e es ih =>
    obtain ⟨u, hu, hr⟩ := run_cons h
    have hk := hok u hu
    exact ih (hstep s e u hs hk.1 hu) hk.2 hr

/-- Every run is matched by one over the same events where every step is. -/
theorem run_simulation {σ' : Type*} {step' : σ' → ε → Option σ'} {R : σ → σ' → Prop}
    (hstep : ∀ s e t s', R s s' → step s e = some t → ∃ t', step' s' e = some t' ∧ R t t')
    {s t : σ} {s' : σ'} {es : List ε} (hs : R s s') (h : run step s es = some t) :
    ∃ t', run step' s' es = some t' ∧ R t t' := by
  induction es generalizing s s' with
  | nil => exact ⟨s', rfl, Option.some.inj h ▸ hs⟩
  | cons e es ih =>
    obtain ⟨u, hu, hr⟩ := run_cons h
    obtain ⟨u', hu', hR⟩ := hstep s e u s' hs hu
    obtain ⟨t', ht', hT⟩ := ih hR hr
    exact ⟨t', by rw [run, hu', Option.bind_some, ht'], hT⟩

theorem run_invariant' {I : σ → Prop} (hstep : ∀ s e t, I s → step s e = some t → I t)
    {s t : σ} {es : List ε} (hs : I s) (h : run step s es = some t) : I t := by
  have hok : AllSteps step (fun _ _ => True) s es :=
    allSteps_of_forall (fun _ _ => trivial) s es
  exact run_invariant (fun s e t hi _ => hstep s e t hi) hs hok h

theorem allSteps_of_invariant {I : σ → Prop} {ok ok' : σ → ε → Prop}
    (hstep : ∀ s e t, I s → ok s e → step s e = some t → I t)
    (hok' : ∀ s e t, I s → ok s e → step s e = some t → ok' s e) {s : σ} {es : List ε}
    (hs : I s) (hok : AllSteps step ok s es) : AllSteps step ok' s es := by
  induction es generalizing s with
  | nil => trivial
  | cons e es ih =>
    intro t ht
    obtain ⟨hk, hrest⟩ := hok t ht
    exact ⟨hok' s e t hs hk ht, ih (hstep s e t hs hk ht) hrest⟩

theorem AllSteps.last {ok : σ → ε → Prop} {s t u : σ} {es : List ε} {e : ε}
    (h : AllSteps step ok s (es ++ [e])) (hr : run step s es = some t) (he : step t e = some u) :
    ok t e := by
  induction es generalizing s with
  | nil =>
    obtain rfl := Option.some.inj hr
    exact (h u he).1
  | cons f es ih =>
    obtain ⟨v, hv, hr⟩ := run_cons hr
    exact ih (h v hv).2 hr

theorem AllSteps.snoc {ok : σ → ε → Prop} {s t : σ} {es : List ε} {e : ε}
    (h : AllSteps step ok s es) (hr : run step s es = some t) (he : ok t e) :
    AllSteps step ok s (es ++ [e]) := by
  induction es generalizing s with
  | nil =>
    obtain rfl := Option.some.inj hr
    exact fun _ _ => ⟨he, trivial⟩
  | cons f es ih =>
    obtain ⟨v, hv, hr⟩ := run_cons hr
    intro u hu
    obtain rfl := Option.some.inj (hv.symm.trans hu)
    exact ⟨(h v hv).1, ih (h v hv).2 hr⟩

theorem AllStates.last {P : σ → Prop} {s t : σ} {es : List ε} (h : AllStates step P s es)
    (hr : run step s es = some t) : P t := by
  induction es generalizing s with
  | nil => exact Option.some.inj hr ▸ h
  | cons e es ih =>
    obtain ⟨u, hu, hr⟩ := run_cons hr
    exact ih (h.2 u hu) hr

/-- When a step keeps `P` exactly if it meets `ok`, a run stays in `P` exactly
if all its steps meet `ok`. -/
theorem allStates_iff_allSteps {I P : σ → Prop} {ok : σ → ε → Prop}
    (hI : ∀ s e t, I s → step s e = some t → I t)
    (hP : ∀ s e t, I s → P s → step s e = some t → (P t ↔ ok s e))
    {s : σ} {es : List ε} (hs : I s) (hp : P s) :
    AllStates step P s es ↔ AllSteps step ok s es := by
  induction es generalizing s with
  | nil => exact ⟨fun _ => trivial, fun _ => hp⟩
  | cons e es ih =>
    constructor
    · intro h t ht
      have hpt : P t := by cases es <;> [exact h.2 t ht; exact (h.2 t ht).1]
      exact ⟨(hP s e t hs hp ht).mp hpt, (ih (hI s e t hs ht) hpt).mp (h.2 t ht)⟩
    · intro h
      refine ⟨hp, fun t ht => ?_⟩
      exact (ih (hI s e t hs ht) ((hP s e t hs hp ht).mpr (h t ht).1)).mpr (h t ht).2

/-- The same for a `P` that is never regained: the last state decides. -/
theorem run_iff_allSteps {I P : σ → Prop} {ok : σ → ε → Prop}
    (hI : ∀ s e t, I s → step s e = some t → I t)
    (hP : ∀ s e t, I s → P s → step s e = some t → (P t ↔ ok s e))
    (hmono : ∀ s e t, I s → step s e = some t → P t → P s)
    {s t : σ} {es : List ε} (hs : I s) (hp : P s) (h : run step s es = some t) :
    P t ↔ AllSteps step ok s es := by
  have hback : ∀ {u v : σ} {fs : List ε}, I u → run step u fs = some v → P v → P u := by
    intro u v fs hi hr hv
    induction fs generalizing u with
    | nil => exact Option.some.inj hr ▸ hv
    | cons f fs ih =>
      obtain ⟨x, hx, hr⟩ := run_cons hr
      exact hmono u f x hi hx (ih (hI u f x hi hx) hr)
  induction es generalizing s with
  | nil => exact ⟨fun _ => trivial, fun _ => Option.some.inj h ▸ hp⟩
  | cons e es ih =>
    obtain ⟨u, hu, hr⟩ := run_cons h
    have hk := hP s e u hs hp hu
    constructor
    · intro ht v hv
      have hpu := hback (hI s e u hs hu) hr ht
      cases hu.symm.trans hv
      exact ⟨hk.mp hpu, (ih (hI s e u hs hu) hpu hr).mp ht⟩
    · intro ha
      have hu' := ha u hu
      exact (ih (hI s e u hs hu) (hk.mpr hu'.1) hr).mpr hu'.2

end Runs
