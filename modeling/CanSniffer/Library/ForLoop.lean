import Mathlib.Tactic

namespace CanSniffer.Library.ForLoop

variable {σ α : Type}

/-- A loop over a list whose passes may raise: the state it leaves and whether it raised. What
the passes before did stays. -/
def tryFold (pass : σ → α → Option σ) : σ → List α → σ × Bool
  | s, [] => (s, false)
  | s, a :: as =>
    match pass s a with
    | some t => tryFold pass t as
    | none => (s, true)

theorem tryFold_keeps {P : σ → Prop} {pass : σ → α → Option σ} {as : List α}
    (hpass : ∀ s t, ∀ a ∈ as, P s → pass s a = some t → P t) {s : σ} (h : P s) :
    P (tryFold pass s as).1 := by
  induction as generalizing s with
  | nil => exact h
  | cons a as ih =>
    rw [tryFold]
    cases ht : pass s a with
    | none => exact h
    | some t =>
      have hrest := fun u v b (hb : b ∈ as) => hpass u v b (List.mem_cons_of_mem a hb)
      exact ih hrest (hpass s t a List.mem_cons_self h ht)

theorem tryFold_raises {pass : σ → α → Option σ} {ok : α → Prop} {as : List α}
    (hpass : ∀ s, ∀ a ∈ as, (pass s a).isSome ↔ ok a) (s : σ) :
    (tryFold pass s as).2 = false ↔ ∀ a ∈ as, ok a := by
  induction as generalizing s with
  | nil => simp [tryFold]
  | cons a as ih =>
    have hfirst := hpass s a List.mem_cons_self
    rw [tryFold, List.forall_mem_cons, ← hfirst]
    cases ht : pass s a with
    | none => simp
    | some t => simpa using ih (fun u b hb => hpass u b (List.mem_cons_of_mem a hb)) t

/-- Where the element alone decides whether its pass raises, the loop is a fold over the
elements in front of the first one that does. -/
theorem tryFold_guarded {pass : σ → α → Option σ} {ok : α → Bool} {step : σ → α → σ}
    (hpass : ∀ s a, pass s a = if ok a then some (step s a) else none) (s : σ) (as : List α) :
    tryFold pass s as = ((as.takeWhile ok).foldl step s, !as.all ok) := by
  induction as generalizing s with
  | nil => rfl
  | cons a as ih =>
    rw [tryFold, hpass]
    by_cases ha : ok a = true
    · simp [ha, ih]
    · simp [ha]

theorem mapM_eq_some {β : Type} {f : α → Option β} {xs : List α} {ys : List β}
    (h : xs.map f = ys.map some) : xs.mapM f = some ys := by
  have hread : xs.mapM f = (xs.map f).mapM id := by rw [List.mapM_map, Function.id_comp]
  rw [hread, h, List.mapM_map, Function.id_comp]
  exact (List.mapM_pure (f := id)).trans (congrArg some (List.map_id ys))

theorem mapM_eq_some_map {β : Type} {f : α → Option β} {g : α → β} {xs : List α}
    (h : ∀ x ∈ xs, f x = some (g x)) : xs.mapM f = some (xs.map g) := by
  apply mapM_eq_some
  rw [List.map_map]
  exact List.map_congr_left h

end CanSniffer.Library.ForLoop
