import Mathlib.Data.List.TakeWhile
import Mathlib.Tactic

namespace CanSniffer.Library.SlidingWindow

variable {α K Now : Type} [LinearOrder K]

theorem filter_filter_of_imp {p q : α → Bool} (h : ∀ x, q x → p x) (xs : List α) :
    (xs.filter p).filter q = xs.filter q := by
  rw [List.filter_filter]
  apply List.filter_congr
  intro x _
  simpa using h x

theorem dropWhile_eq_filter (key : α → K) (cutoff : K) {xs : List α}
    (h : xs.Pairwise fun x y => key x ≤ key y) :
    xs.dropWhile (key · < cutoff) = xs.filter (cutoff ≤ key ·) := by
  induction xs with
  | nil => rfl
  | cons x xs ih =>
    obtain ⟨hx, hxs⟩ := List.pairwise_cons.mp h
    by_cases hold : key x < cutoff
    · rw [List.dropWhile_cons_of_pos (by simpa using hold),
        List.filter_cons_of_neg (by simpa using hold)]
      exact ih hxs
    · have hrest : ∀ y ∈ x :: xs, cutoff ≤ key y := by
        intro y hy
        obtain rfl | hy := List.mem_cons.mp hy
        · exact not_lt.mp hold
        · exact (not_lt.mp hold).trans (hx y hy)
      rw [List.dropWhile_cons_of_neg (by simpa using hold), List.filter_eq_self.mpr]
      intro y hy
      simpa using hrest y hy

/-- A window that is trimmed now and then, beside all that ever went in: who looks at one of the
`later` instants finds the same in both. -/
structure Covers (recent : Now → α → Bool) (later : Now → Prop) (window history : List α) : Prop where
  sublist : window.Sublist history
  same : ∀ now, later now → window.filter (recent now) = history.filter (recent now)

namespace Covers

variable {recent : Now → α → Bool} {later later' : Now → Prop} {window history : List α}

theorem nil : Covers recent later [] [] := ⟨.slnil, fun _ _ => rfl⟩

theorem mono (h : Covers recent later window history) (hlater : ∀ now, later' now → later now) :
    Covers recent later' window history :=
  ⟨h.sublist, fun now hnow => h.same now (hlater now hnow)⟩

theorem snoc (h : Covers recent later window history) (x : α) :
    Covers recent later (window ++ [x]) (history ++ [x]) := by
  refine ⟨h.sublist.append_right [x], ?_⟩
  intro now hnow
  rw [List.filter_append, List.filter_append, h.same now hnow]

theorem trim (h : Covers recent later window history) {now : Now}
    (hold : ∀ now', later now' → ∀ x, recent now' x → recent now x) :
    Covers recent later (window.filter (recent now)) history := by
  refine ⟨List.filter_sublist.trans h.sublist, ?_⟩
  intro now' hnow'
  rw [filter_filter_of_imp (hold now' hnow'), h.same now' hnow']

end Covers

theorem dropWhile_ne_nil {p : α → Bool} {xs : List α} {x : α} (hx : x ∈ xs) (h : ¬ p x) :
    xs.dropWhile p ≠ [] := by
  intro hnil
  exact h (List.dropWhile_eq_nil_iff.1 hnil x hx)

theorem sum_takeWhile_add_dropWhile (f : α → Nat) (p : α → Bool) (xs : List α) :
    ((xs.takeWhile p).map f).sum + ((xs.dropWhile p).map f).sum = (xs.map f).sum := by
  rw [← List.sum_append, ← List.map_append, List.takeWhile_append_dropWhile]

end CanSniffer.Library.SlidingWindow
