import Mathlib.Tactic

namespace CanSniffer.Library.Trace

variable {σ α : Type}

/-- Every step of a functional run meets a condition on the state it starts from. -/
def AllSteps (step : σ → α → σ) (ok : σ → α → Prop) : σ → List α → Prop
  | _, [] => True
  | s, a :: as => ok s a ∧ AllSteps step ok (step s a) as

instance (step : σ → α → σ) (ok : σ → α → Prop) [∀ s a, Decidable (ok s a)] :
    (s : σ) → (as : List α) → Decidable (AllSteps step ok s as)
  | _, [] => instDecidableTrue
  | s, a :: as =>
    have := instDecidableAllSteps step ok (step s a) as
    inferInstanceAs (Decidable (ok s a ∧ AllSteps step ok (step s a) as))

theorem allSteps_append (step : σ → α → σ) (ok : σ → α → Prop) (s : σ) (as bs : List α) :
    AllSteps step ok s (as ++ bs) ↔
      AllSteps step ok s as ∧ AllSteps step ok (as.foldl step s) bs := by
  induction as generalizing s with
  | nil => simp [AllSteps]
  | cons a as ih => simp [AllSteps, ih, and_assoc]

theorem allSteps_snoc (step : σ → α → σ) (ok : σ → α → Prop) (s : σ) (as : List α) (a : α) :
    AllSteps step ok s (as ++ [a]) ↔ AllSteps step ok s as ∧ ok (as.foldl step s) a := by
  simp [allSteps_append, AllSteps]

/-- If a condition may only fail once something holds, then it is met up to the end or to there. -/
theorem allSteps_until {ok : σ → α → Prop} {done : σ → Prop} {step : σ → α → σ} {s : σ} {as : List α}
    (h : AllSteps step (fun t a => ok t a ∨ done t) s as) :
    ∃ pre post, as = pre ++ post ∧ AllSteps step ok s pre ∧
      (post = [] ∨ done (pre.foldl step s)) := by
  induction as generalizing s with
  | nil => exact ⟨[], [], rfl, trivial, .inl rfl⟩
  | cons a as ih =>
    obtain ⟨hok | hdone, hrest⟩ := h
    · obtain ⟨pre, post, rfl, hpre, hend⟩ := ih hrest
      exact ⟨a :: pre, post, rfl, ⟨hok, hpre⟩, hend⟩
    · exact ⟨[], a :: as, rfl, trivial, .inr hdone⟩

theorem allSteps_iff (step : σ → α → σ) (ok : σ → α → Prop) (s : σ) (as : List α) :
    AllSteps step ok s as ↔
      ∀ pre a post, as = pre ++ a :: post → ok (pre.foldl step s) a := by
  constructor
  · rintro h pre a post rfl
    exact ((allSteps_append step ok s pre (a :: post)).mp h).2.1
  · intro h
    induction as generalizing s with
    | nil => trivial
    | cons a as ih =>
      refine ⟨h [] a as rfl, ih _ ?_⟩
      rintro pre b post rfl
      exact h (a :: pre) b post rfl

/-- Runs of a step relation, with the labels of the steps taken. -/
inductive Run (Step : σ → α → σ → Prop) (s : σ) : List α → σ → Prop
  | nil : Run Step s [] s
  | snoc {as : List α} {t u : σ} {a : α} : Run Step s as t → Step t a u → Run Step s (as ++ [a]) u

theorem Run.invariant {Step : σ → α → σ → Prop} (I : σ → Prop)
    (hstep : ∀ t a u, I t → Step t a u → I u) {s t : σ} {as : List α}
    (hrun : Run Step s as t) (hs : I s) : I t := by
  induction hrun with
  | nil => exact hs
  | snoc _ h ih => exact hstep _ _ _ ih h

theorem Run.cons {Step : σ → α → σ → Prop} {s t u : σ} {a : α} {as : List α}
    (hstep : Step s a t) (hrun : Run Step t as u) : Run Step s (a :: as) u := by
  induction hrun with
  | nil => exact @Run.snoc σ α Step s [] s _ a .nil hstep
  | @snoc bs _ _ _ _ h ih => exact @Run.snoc σ α Step s (a :: bs) _ _ _ ih h

/-- A simulation that holds for each of the steps holds for the whole run. -/
theorem foldlM_simulates {τ : Type} {cstep : τ → α → Option τ} {step : σ → α → σ} {view : τ → σ}
    {as : List α} (hsim : ∀ t, ∀ a ∈ as, ∃ u, cstep t a = some u ∧ view u = step (view t) a) (t : τ) :
    ∃ u, as.foldlM cstep t = some u ∧ view u = as.foldl step (view t) := by
  induction as generalizing t with
  | nil => exact ⟨t, rfl, rfl⟩
  | cons a as ih =>
    obtain ⟨u, hu, hview⟩ := hsim t a List.mem_cons_self
    obtain ⟨v, hv, hfold⟩ := ih (fun t b hb => hsim t b (List.mem_cons_of_mem a hb)) u
    refine ⟨v, ?_, ?_⟩
    · rw [List.foldlM_cons, hu]
      exact hv
    · rw [hfold, hview, List.foldl_cons]

theorem run_of_foldlM {step : σ → α → Option σ} {Step : σ → α → σ → Prop}
    (hstep : ∀ s a t, step s a = some t → Step s a t) {s t : σ} {as : List α}
    (h : as.foldlM step s = some t) : Run Step s as t := by
  induction as generalizing s with
  | nil =>
    cases h
    exact .nil
  | cons a as ih =>
    rw [List.foldlM_cons] at h
    obtain ⟨u, hu, hrest⟩ := Option.bind_eq_some_iff.mp h
    exact .cons (hstep s a u hu) (ih hrest)

end CanSniffer.Library.Trace
