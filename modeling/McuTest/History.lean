import McuTest.Lifetime
import McuTest.Runs

/-! Logs read by a partial machine, and what a log holds since the last action
of some kind. -/

namespace History

section Since

variable {α : Type*} {p : α → Bool} {log : List α}

/-- The last action of the kind `p`, with the actions after it. -/
def since (p : α → Bool) (log : List α) : Option (α × List α) :=
  log.foldl (fun found a => if p a then some (a, []) else found.map fun x => (x.1, x.2 ++ [a])) none

@[simp] theorem since_nil : since p [] = none := rfl

@[simp] theorem since_append_singleton (log : List α) (a : α) :
    since p (log ++ [a]) =
      if p a then some (a, []) else (since p log).map fun x => (x.1, x.2 ++ [a]) := by
  simp [since]

theorem append_singleton_split {pre mid : List α} {a b : α}
    (he : log ++ [b] = pre ++ a :: mid) :
    mid = [] ∧ b = a ∨ ∃ rest, mid = rest ++ [b] ∧ log = pre ++ a :: rest := by
  cases mid using List.reverseRecOn with
  | nil =>
    obtain ⟨_, hlast⟩ := List.append_inj' he rfl
    exact .inl ⟨rfl, (List.cons.inj hlast).1⟩
  | append_singleton rest c =>
    rw [← List.cons_append, ← List.append_assoc] at he
    obtain ⟨hlog, hlast⟩ := List.append_inj' he rfl
    exact .inr ⟨rest, by rw [(List.cons.inj hlast).1], hlog⟩

theorem since_eq_some_iff {a : α} {mid : List α} :
    since p log = some (a, mid) ↔
      p a = true ∧ (∀ b ∈ mid, p b = false) ∧ ∃ pre, log = pre ++ a :: mid := by
  induction log using List.reverseRecOn generalizing mid with
  | nil => simp
  | append_singleton log b ih =>
    rw [since_append_singleton]
    by_cases hb : p b = true
    · rw [if_pos hb]
      constructor
      · intro h
        obtain ⟨rfl, rfl⟩ := Prod.mk.inj (Option.some.inj h)
        exact ⟨hb, by simp, log, rfl⟩
      · rintro ⟨_, hmid, pre, he⟩
        rcases append_singleton_split he with ⟨rfl, rfl⟩ | ⟨rest, rfl, _⟩
        · rfl
        · have hlast := hmid b (by simp)
          rw [hb] at hlast
          simp at hlast
    · rw [if_neg hb, Option.map_eq_some_iff]
      constructor
      · rintro ⟨⟨a', mid'⟩, hsince, he⟩
        obtain ⟨rfl, rfl⟩ := Prod.mk.inj he
        obtain ⟨ha, hmid, pre, rfl⟩ := ih.mp hsince
        refine ⟨ha, fun c hc => ?_, pre, by simp⟩
        rcases List.mem_append.mp hc with hc | hc
        · exact hmid c hc
        · rw [List.mem_singleton.mp hc]
          exact Bool.eq_false_iff.mpr hb
      · rintro ⟨ha, hmid, pre, he⟩
        rcases append_singleton_split he with ⟨_, rfl⟩ | ⟨rest, rfl, hlog⟩
        · exact absurd ha hb
        · have hrest : ∀ c ∈ rest, p c = false := fun c hc => hmid c (by simp [hc])
          exact ⟨(a, rest), ih.mpr ⟨ha, hrest, pre, hlog⟩, rfl⟩

theorem exists_since {pre mid : List α} {a : α} (ha : p a = true) :
    ∃ b last, since p (pre ++ a :: mid) = some (b, last) ∧ last <:+ mid := by
  induction mid using List.reverseRecOn with
  | nil => exact ⟨a, [], by rw [since_append_singleton, if_pos ha], List.suffix_refl _⟩
  | append_singleton mid c ih =>
    obtain ⟨b, last, hsince, hsuffix⟩ := ih
    rw [← List.cons_append, ← List.append_assoc, since_append_singleton]
    by_cases hc : p c = true
    · exact ⟨c, [], by rw [if_pos hc], List.nil_suffix⟩
    · refine ⟨b, last ++ [c], by rw [if_neg hc, hsince, Option.map_some], ?_⟩
      obtain ⟨front, rfl⟩ := hsuffix
      exact ⟨front, by simp⟩

end Since

section Accept

variable {σ ε : Type*} {step : σ → ε → Option σ} {start s : σ} {log : List ε}

theorem run_append (start : σ) (log log' : List ε) :
    Runs.run step start (log ++ log') =
      (Runs.run step start log).bind fun s => Runs.run step s log' := by
  induction log generalizing start with
  | nil => rfl
  | cons e log ih =>
    simp only [List.cons_append, Runs.run]
    cases step start e with
    | none => rfl
    | some t => exact ih t

theorem run_append_singleton (start : σ) (log : List ε) (e : ε) :
    Runs.run step start (log ++ [e]) = (Runs.run step start log).bind fun s => step s e := by
  rw [run_append]
  congr 1
  funext s
  simp [Runs.run]

/-- Where each step is matched by a run of another system, so is a run. -/
theorem run_matched {σ' ε' : Type*} {step' : σ' → ε' → Option σ'} {f : ε → List ε'}
    {R : σ → σ' → Prop} {ok : σ → ε → Prop}
    (hstep : ∀ s e t s', R s s' → ok s e → step s e = some t →
      ∃ t', Runs.run step' s' (f e) = some t' ∧ R t t')
    {start' : σ'} (hstart : R start start') (hok : Runs.AllSteps step ok start log)
    (hr : Runs.run step start log = some s) :
    ∃ s', Runs.run step' start' (log.flatMap f) = some s' ∧ R s s' := by
  induction log generalizing start start' with
  | nil => exact ⟨start', rfl, Option.some.inj hr ▸ hstart⟩
  | cons e log ih =>
    obtain ⟨t, ht, hr⟩ := Runs.run_cons hr
    obtain ⟨he, hok⟩ := hok t ht
    obtain ⟨t', ht', hR⟩ := hstep start e t start' hstart he ht
    obtain ⟨s', hs', hRs⟩ := ih hR hok hr
    refine ⟨s', ?_, hRs⟩
    rw [List.flatMap_cons, run_append, ht']
    exact hs'

/-- What each state remembers of the log that has led to it. -/
theorem run_remembers {H : σ → List ε → Prop} (hstart : H start [])
    (hstep : ∀ s log e t, H s log → step s e = some t → H t (log ++ [e]))
    (hr : Runs.run step start log = some s) : H s log := by
  induction log using List.reverseRecOn generalizing s with
  | nil => exact Option.some.inj hr ▸ hstart
  | append_singleton log e ih =>
    rw [run_append_singleton, Option.bind_eq_some_iff] at hr
    obtain ⟨t, ht, he⟩ := hr
    exact hstep t log e s (ih ht) he

theorem throughout_of_run (hr : Runs.run step start log = some s) :
    Lifetime.Throughout (fun pre e => ∃ t u, Runs.run step start pre = some t ∧
      step t e = some u) log := by
  rintro pre e post rfl
  rw [run_append, Option.bind_eq_some_iff] at hr
  obtain ⟨t, ht, hrest⟩ := hr
  obtain ⟨u, hu, _⟩ := Runs.run_cons hrest
  exact ⟨t, u, ht, hu⟩

end Accept

end History
