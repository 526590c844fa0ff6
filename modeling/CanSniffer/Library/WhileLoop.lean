import Mathlib.Tactic

namespace CanSniffer.Library.WhileLoop

variable {σ : Type}

/-- Run a loop body at most `fuel` times. The body answers `none` when the loop
condition is false. -/
def loop (body : σ → Option σ) : Nat → σ → σ
  | 0, s => s
  | fuel + 1, s =>
    match body s with
    | some t => loop body fuel t
    | none => s

theorem loop_of_exit {body : σ → Option σ} {s : σ} (h : body s = none) (fuel : Nat) :
    loop body fuel s = s := by
  cases fuel with
  | zero => rfl
  | succ fuel => simp only [loop, h]

theorem loop_succ {body : σ → Option σ} {s t : σ} (h : body s = some t) (fuel : Nat) :
    loop body (fuel + 1) s = loop body fuel t := by
  simp only [loop, h]

theorem loop_add (body : σ → Option σ) (m n : Nat) (s : σ) :
    loop body (m + n) s = loop body n (loop body m s) := by
  induction m generalizing s with
  | zero => simp [loop]
  | succ m ih =>
    rw [Nat.succ_add]
    cases h : body s with
    | none => rw [loop_of_exit h, loop_of_exit h, loop_of_exit h]
    | some t => rw [loop_succ h, loop_succ h, ih]

/-- What one pass of the body preserves, the loop preserves. -/
theorem loop_invariant {body : σ → Option σ} (I : σ → Prop)
    (hbody : ∀ s t, body s = some t → I s → I t) (fuel : Nat) {s : σ} (hs : I s) :
    I (loop body fuel s) := by
  induction fuel generalizing s with
  | zero => exact hs
  | succ fuel ih =>
    cases h : body s with
    | none => rwa [loop_of_exit h]
    | some t =>
      rw [loop_succ h]
      exact ih (hbody s t h hs)

/-- Enough fuel for a decreasing measure lets the loop end by its own condition. -/
theorem loop_exits {body : σ → Option σ} (μ : σ → Nat)
    (hbody : ∀ s t, body s = some t → μ t < μ s) (fuel : Nat) {s : σ} (hs : μ s ≤ fuel) :
    body (loop body fuel s) = none := by
  induction fuel generalizing s with
  | zero =>
    cases h : body s with
    | none => exact h
    | some t => have := hbody s t h; omega
  | succ fuel ih =>
    cases h : body s with
    | none => rwa [loop_of_exit h]
    | some t =>
      rw [loop_succ h]
      exact ih (by have := hbody s t h; omega)

theorem loop_stable {body : σ → Option σ} {fuel : Nat} {s : σ}
    (h : body (loop body fuel s) = none) {more : Nat} (hm : fuel ≤ more) :
    loop body more s = loop body fuel s := by
  obtain ⟨extra, rfl⟩ := Nat.exists_eq_add_of_le hm
  rw [loop_add, loop_of_exit h]

end CanSniffer.Library.WhileLoop
