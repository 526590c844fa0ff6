import Mathlib.Tactic

namespace CanSniffer.Library.WrapCounter

/-- The extension of a wrapping counter to a total: `base` collects one period for
each reading that was smaller than the one before it. -/
@[ext] structure Extender where
  base : Nat
  prev : Nat

namespace Extender

def read (period : Nat) (e : Extender) (count : Nat) : Extender :=
  ⟨if count < e.prev then e.base + period else e.base, count⟩

def total (e : Extender) : Nat := e.base + e.prev

/-- The totals after each of a list of readings. -/
def totals (period : Nat) : Extender → List Nat → List Nat
  | _, [] => []
  | e, c :: cs => (e.read period c).total :: totals period (e.read period c) cs

variable {period : Nat} {e : Extender}

theorem read_of_lt {c : Nat} (h : c < e.prev) : e.read period c = ⟨e.base + period, c⟩ := by
  rw [read, if_pos h]

theorem read_of_le {c : Nat} (h : e.prev ≤ c) : e.read period c = ⟨e.base, c⟩ := by
  rw [read, if_neg (by omega)]

theorem total_read_add (hperiod : 0 < period) {t : Nat} (hprev : e.prev = t % period) (d : Nat) :
    (e.read period ((t + d) % period)).total = e.total + d % period := by
  have ht := Nat.mod_lt t hperiod
  have hd := Nat.mod_lt d hperiod
  rw [Nat.add_mod_eq_ite]
  simp only [read, total, hprev]
  split_ifs <;> omega

theorem total_read (hperiod : 0 < period) {t u : Nat} (hprev : e.prev = t % period) (htu : t ≤ u) :
    (e.read period (u % period)).total = e.total + (u - t) % period := by
  have h := total_read_add hperiod hprev (u - t)
  rwa [Nat.add_sub_cancel' htu] at h

theorem total_read_le (hperiod : 0 < period) {t u : Nat} (hprev : e.prev = t % period)
    (htotal : e.total ≤ t) (htu : t ≤ u) : (e.read period (u % period)).total ≤ u := by
  have h := total_read hperiod hprev htu
  have hle := Nat.mod_le (u - t) period
  omega

theorem total_read_eq_iff (hperiod : 0 < period) {t u : Nat} (hprev : e.prev = t % period)
    (htotal : e.total = t) (htu : t ≤ u) :
    (e.read period (u % period)).total = u ↔ u - t < period := by
  have h := total_read hperiod hprev htu
  constructor
  · intro hu
    have hmod : (u - t) % period = u - t := by omega
    exact Nat.mod_eq_iff_lt hperiod.ne' |>.mp hmod
  · intro hlt
    rw [h, Nat.mod_eq_of_lt hlt]
    omega

/-- From the right total at `t`, the totals at later times are all right exactly when no
two successive readings lie a period or more apart. -/
theorem totals_eq_iff (hperiod : 0 < period) {t : Nat} (us : List Nat)
    (hprev : e.prev = t % period) (htotal : e.total = t) (hmono : (t :: us).IsChain (· ≤ ·)) :
    e.totals period (us.map (· % period)) = us ↔
      (t :: us).IsChain fun t u => u - t < period := by
  induction us generalizing t e with
  | nil => simp [totals]
  | cons u us ih =>
    obtain ⟨htu, hmono'⟩ := List.isChain_cons_cons.mp hmono
    have hstep := total_read_eq_iff hperiod hprev htotal htu
    rw [List.map_cons, totals, List.cons.injEq, List.isChain_cons_cons, hstep]
    apply and_congr_right
    intro hlt
    exact ih rfl (hstep.mpr hlt) hmono'

end Extender
end CanSniffer.Library.WrapCounter
