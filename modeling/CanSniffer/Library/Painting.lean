import Mathlib.Tactic

namespace CanSniffer.Library.Painting

-- Rectangles that are painted one over the other. A pixel is the unit square to the right of its
-- place and below it.

structure Rect where
  x : ℚ
  y : ℚ
  w : ℚ
  h : ℚ

def Rect.Covers (r : Rect) (p : ℤ × ℤ) : Prop :=
  r.x ≤ p.1 ∧ p.1 + 1 ≤ r.x + r.w ∧ r.y ≤ p.2 ∧ p.2 + 1 ≤ r.y + r.h

instance (r : Rect) (p : ℤ × ℤ) : Decidable (r.Covers p) :=
  inferInstanceAs (Decidable (_ ∧ _))

variable {γ : Type}

abbrev Canvas (γ : Type) := ℤ × ℤ → Option γ

def fillRect (canvas : Canvas γ) (r : Rect) (colour : γ) : Canvas γ :=
  fun p => if r.Covers p then some colour else canvas p

def fillAll (canvas : Canvas γ) (cells : List (Rect × γ)) : Canvas γ :=
  cells.foldl (fun canvas cell => fillRect canvas cell.1 cell.2) canvas

def grid (cols rows : Nat) (cell : Nat → Nat → Rect × γ) : List (Rect × γ) :=
  (List.range cols).flatMap fun i => (List.range rows).map (cell i)

variable {canvas : Canvas γ} {cells : List (Rect × γ)} {p : ℤ × ℤ} {cols rows : Nat}
  {cell : Nat → Nat → Rect × γ}

theorem fillAll_append (canvas : Canvas γ) (cells more : List (Rect × γ)) :
    fillAll canvas (cells ++ more) = fillAll (fillAll canvas cells) more :=
  List.foldl_append

theorem fillAll_of_uncovered (h : ∀ c ∈ cells, ¬ c.1.Covers p) :
    fillAll canvas cells p = canvas p := by
  induction cells generalizing canvas with
  | nil => rfl
  | cons c cells ih =>
    obtain ⟨hc, hcells⟩ := List.forall_mem_cons.mp h
    calc fillAll canvas (c :: cells) p = fillRect canvas c.1 c.2 p := ih hcells
      _ = canvas p := if_neg hc

theorem fillAll_column {column : Nat → Rect × γ} {j : Nat} (hj : j < rows)
    (hcovers : (column j).1.Covers p)
    (hbelow : ∀ k, j < k → k < rows → ¬ (column k).1.Covers p) :
    fillAll canvas ((List.range rows).map column) p = some (column j).2 := by
  induction rows with
  | zero => omega
  | succ n ih =>
    rw [List.range_succ, List.map_append, fillAll_append]
    obtain rfl | hlt := (Nat.le_of_lt_succ hj).eq_or_lt
    · exact if_pos hcovers
    · rw [fillAll_of_uncovered (by simpa using hbelow n hlt n.lt_succ_self)]
      exact ih hlt fun k hjk hk => hbelow k hjk (hk.trans n.lt_succ_self)

theorem fillAll_grid {i j : Nat} (hi : i < cols) (hj : j < rows) (hcovers : (cell i j).1.Covers p)
    (hbelow : ∀ k, j < k → k < rows → ¬ (cell i k).1.Covers p)
    (hright : ∀ l k, i < l → l < cols → k < rows → ¬ (cell l k).1.Covers p) :
    fillAll canvas (grid cols rows cell) p = some (cell i j).2 := by
  induction cols with
  | zero => omega
  | succ n ih =>
    rw [grid, List.range_succ, List.flatMap_append, List.flatMap_singleton, fillAll_append]
    obtain rfl | hlt := (Nat.le_of_lt_succ hi).eq_or_lt
    · exact fillAll_column hj hcovers hbelow
    · have hlast : ∀ c ∈ (List.range rows).map (cell n), ¬ c.1.Covers p := by
        intro c hc
        obtain ⟨k, hk, rfl⟩ := List.mem_map.mp hc
        exact hright n k hlt n.lt_succ_self (List.mem_range.mp hk)
      rw [fillAll_of_uncovered hlast]
      exact ih hlt fun l k hil hl => hright l k hil (hl.trans n.lt_succ_self)

end CanSniffer.Library.Painting
