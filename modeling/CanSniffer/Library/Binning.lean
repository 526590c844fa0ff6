import Mathlib.Algebra.Order.Floor.Ring
import Mathlib.Data.Rat.Floor
import Mathlib.Tactic

namespace CanSniffer.Library.Binning

section Index

variable {α : Type} [Field α] [LinearOrder α] {bins b : Nat} {lo hi v : α}

def width (bins : Nat) (lo hi : α) : α := (hi - lo) / bins

/-- A bin has its lower end and not its upper end, but for the last one, which has both. -/
def InBin (bins : Nat) (lo hi : α) (b : Nat) (v : α) : Prop :=
  lo + b * width bins lo hi ≤ v ∧
    (v < lo + (b + 1) * width bins lo hi ∨ (b + 1 = bins ∧ v = hi))

instance (bins : Nat) (lo hi : α) (b : Nat) (v : α) : Decidable (InBin bins lo hi b v) :=
  inferInstanceAs (Decidable (_ ∧ _))

variable [IsStrictOrderedRing α]

theorem width_pos (hbins : 0 < bins) (hlt : lo < hi) : 0 < width bins lo hi :=
  div_pos (sub_pos.mpr hlt) (Nat.cast_pos.mpr hbins)

theorem bins_mul_width (hbins : 0 < bins) (lo hi : α) : bins * width bins lo hi = hi - lo :=
  mul_div_cancel₀ _ (Nat.cast_pos.mpr hbins).ne'

variable [FloorRing α]

/-- The bin of a value: bins of one width from `lo` on, and the last one for all that is above. -/
def binIndex (bins : Nat) (lo step v : α) : Int := min (bins - 1) ⌊(v - lo) / step⌋

theorem binIndex_mem (hbins : 0 < bins) (hlt : lo < hi) (hlo : lo ≤ v) :
    0 ≤ binIndex bins lo (width bins lo hi) v ∧ binIndex bins lo (width bins lo hi) v < bins := by
  have hfloor : 0 ≤ ⌊(v - lo) / width bins lo hi⌋ :=
    Int.floor_nonneg.mpr (div_nonneg (sub_nonneg.mpr hlo) (width_pos hbins hlt).le)
  rw [binIndex]
  omega

theorem le_floor_iff (hbins : 0 < bins) (hlt : lo < hi) (b : Nat) (v : α) :
    (b : Int) ≤ ⌊(v - lo) / width bins lo hi⌋ ↔ lo + b * width bins lo hi ≤ v := by
  rw [Int.le_floor, le_div_iff₀ (width_pos hbins hlt), Int.cast_natCast, le_sub_iff_add_le']

theorem floor_lt_iff (hbins : 0 < bins) (hlt : lo < hi) (b : Nat) (v : α) :
    ⌊(v - lo) / width bins lo hi⌋ < (b + 1 : Int) ↔ v < lo + (b + 1) * width bins lo hi := by
  have hle := le_floor_iff hbins hlt (b + 1) v
  rw [Nat.cast_succ, Nat.cast_succ] at hle
  rw [← not_le, hle, not_le]

theorem binIndex_eq_iff (hbins : 0 < bins) (hlt : lo < hi) (hhi : v ≤ hi) (hb : b < bins) :
    binIndex bins lo (width bins lo hi) v = b ↔ InBin bins lo hi b v := by
  have hle := le_floor_iff hbins hlt b v
  have hup := floor_lt_iff hbins hlt b v
  rw [binIndex, InBin, ← hle, ← hup]
  obtain hlast | hlast := (Nat.succ_le_of_lt hb).eq_or_lt
  · -- nothing lies above the last bin
    have htop : v < lo + (b + 1) * width bins lo hi ∨ v = hi := by
      have hend : lo + (b + 1) * width bins lo hi = hi := by
        have hall := bins_mul_width hbins lo hi
        rw [← hlast, Nat.cast_succ] at hall
        rw [← hlast, hall, add_sub_cancel]
      rw [hend]
      exact hhi.lt_or_eq
    have hcases : (⌊(v - lo) / width bins lo hi⌋ < (b + 1 : Int) ∨ (b + 1 = bins ∧ v = hi)) := by
      rw [hup]
      exact htop.imp_right fun heq => ⟨hlast, heq⟩
    rw [and_iff_left hcases]
    omega
  · have hne : ¬(b + 1 = bins ∧ v = hi) := fun h => hlast.ne h.1
    rw [or_iff_left hne]
    omega

end Index

/-- `counts[b]++`; `none` is an index outside of the array. -/
def bump (counts : List Nat) (b : Int) : Option (List Nat) :=
  if 0 ≤ b ∧ b < counts.length then some (counts.modify b.toNat (· + 1)) else none

variable {β : Type} {bins : Nat} {f : β → Int} {vs : List β}

theorem bump_range {b : Int} (hb : 0 ≤ b ∧ b < bins) (c : Nat → Nat) :
    bump ((List.range bins).map c) b =
      some ((List.range bins).map fun (i : Nat) => c i + if b = i then 1 else 0) := by
  rw [bump, List.length_map, List.length_range, if_pos hb]
  refine congrArg some (List.ext_getElem ?_ ?_)
  · simp
  · intro i hi hi'
    simp only [List.getElem_modify, List.getElem_map, List.getElem_range]
    by_cases heq : b = i
    · rw [if_pos (by omega), if_pos heq]
    · rw [if_neg (by omega), if_neg heq, Nat.add_zero]

theorem foldlM_bump (hf : ∀ v ∈ vs, 0 ≤ f v ∧ f v < bins) (c : Nat → Nat) :
    vs.foldlM (fun counts v => bump counts (f v)) ((List.range bins).map c) =
      some ((List.range bins).map fun (i : Nat) => c i + vs.countP fun v => f v = i) := by
  induction vs generalizing c with
  | nil => simp
  | cons v vs ih =>
    rw [List.foldlM_cons, bump_range (hf v List.mem_cons_self), Option.bind_eq_bind,
      Option.bind_some, ih fun w hw => hf w (List.mem_cons_of_mem v hw)]
    refine congrArg some (List.map_congr_left fun i _ => ?_)
    rw [List.countP_cons, Nat.add_assoc, Nat.add_comm (List.countP _ vs)]
    simp

theorem sum_countP (hf : ∀ v ∈ vs, 0 ≤ f v ∧ f v < bins) :
    ((List.range bins).map fun (i : Nat) => vs.countP fun v => f v = i).sum = vs.length := by
  induction vs with
  | nil => simp
  | cons v vs ih =>
    obtain ⟨hlo, hhi⟩ := hf v List.mem_cons_self
    have hone : ((List.range bins).map fun (i : Nat) => if f v = i then 1 else 0).sum = 1 := by
      have hmem : (f v).toNat ∈ List.range bins := List.mem_range.mpr (by omega)
      rw [List.sum_map_eq_nsmul_single (f v).toNat, List.count_eq_one_of_mem List.nodup_range hmem,
        one_nsmul]
      · exact if_pos (Int.toNat_of_nonneg hlo).symm
      · exact fun i hi _ => if_neg fun heq => hi (by omega)
    simp only [List.countP_cons, decide_eq_true_eq]
    rw [List.sum_map_add, ih fun w hw => hf w (List.mem_cons_of_mem v hw), hone, List.length_cons]

end CanSniffer.Library.Binning
