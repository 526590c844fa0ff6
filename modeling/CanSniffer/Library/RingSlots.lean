import Mathlib.Tactic

namespace CanSniffer.Library.RingSlots

variable {α : Type} {depth : Nat} [NeZero depth]

def slot (depth : Nat) [NeZero depth] (i : Nat) : Fin depth :=
  ⟨i % depth, Nat.mod_lt _ (NeZero.pos depth)⟩

def put (ring : Fin depth → α) (i : Nat) (x : α) : Fin depth → α :=
  Function.update ring (slot depth i) x

theorem slot_ne_of_lt {i j : Nat} (hij : i < j) (hj : j < i + depth) :
    slot depth i ≠ slot depth j := by
  intro h
  have hm : i ≡ j [MOD depth] := congrArg Fin.val h
  have hd := (Nat.modEq_iff_dvd' hij.le).mp hm
  have := Nat.le_of_dvd (by omega) hd
  omega

/-- The ring holds the newest `depth` of the items `xs`, whose logical indices
start at `base`. -/
def Holds (ring : Fin depth → α) (base : Nat) (xs : List α) : Prop :=
  ∀ k, (h : k < xs.length) → xs.length ≤ k + depth → ring (slot depth (base + k)) = xs[k]

theorem holds_nil (ring : Fin depth → α) (base : Nat) : Holds ring base [] := by
  intro k h
  simp at h

theorem holds_put {ring : Fin depth → α} {base : Nat} {xs : List α} (h : Holds ring base xs)
    (x : α) : Holds (put ring (base + xs.length) x) base (xs ++ [x]) := by
  intro k hk hkeep
  rw [List.length_append, List.length_singleton] at hk hkeep
  obtain hlt | hge := Nat.lt_or_ge k xs.length
  · have hne : slot depth (base + k) ≠ slot depth (base + xs.length) :=
      slot_ne_of_lt (by omega) (by omega)
    rw [put, Function.update_of_ne hne, List.getElem_append_left hlt]
    exact h k hlt (by omega)
  · have he : k = xs.length := by omega
    subst he
    simp [put]

/-- Within the depth, the slots read in order give back the items. -/
theorem holds_read {ring : Fin depth → α} {base : Nat} {xs : List α} (h : Holds ring base xs)
    (hlen : xs.length ≤ depth) :
    (List.range' base xs.length).map (fun i => ring (slot depth i)) = xs := by
  apply List.ext_getElem (by simp)
  intro k hk hk'
  rw [List.getElem_map, List.getElem_range', Nat.one_mul, h k hk' (by omega)]

end CanSniffer.Library.RingSlots
