import Mathlib.Data.Finset.Card
import Mathlib.Order.Lattice
import Mathlib.Tactic

namespace CanSniffer.Library.SmallestKeys

variable {α β : Type} [LinearOrder β] {k : Nat} {key : α → β} {xs : List α} {seen : Finset α}
  {x : α}

/-- The list has the `k` items with the smallest keys of those that were seen, or all of them, in
the order of their keys. -/
structure Smallest (k : Nat) (key : α → β) (xs : List α) (seen : Finset α) : Prop where
  increasing : xs.Pairwise fun a b => key a < key b
  length_eq : xs.length = min k seen.card
  mem_seen : ∀ a ∈ xs, a ∈ seen
  least : ∀ a ∈ xs, ∀ b ∈ seen, b ∉ xs → key a < key b

/-- Insert an item in its place, and drop what is then too much at the end. -/
def insertSmallest (k : Nat) (key : α → β) (xs : List α) (x : α) : List α :=
  ((xs ++ [x]).mergeSort fun a b => key a ≤ key b).take k

theorem mem_insertSmallest {k : Nat} {key : α → β} {xs : List α} {x a : α}
    (h : a ∈ insertSmallest k key xs x) : a = x ∨ a ∈ xs := by
  have hmem := (List.mergeSort_perm (xs ++ [x]) _).mem_iff.mp (List.mem_of_mem_take h)
  rw [List.mem_append, List.mem_singleton] at hmem
  exact hmem.symm

theorem smallest_nil (k : Nat) (key : α → β) : Smallest k key [] ∅ where
  increasing := .nil
  length_eq := by simp
  mem_seen := nofun
  least := nofun

theorem Smallest.nodup (h : Smallest k key xs seen) : xs.Nodup :=
  h.increasing.imp fun hlt heq => hlt.ne (congrArg key heq)

theorem cut_lt {sorted : List α} (hstrict : sorted.Pairwise fun a b => key a < key b) :
    ∀ a ∈ sorted.take k, ∀ b ∈ sorted.drop k, key a < key b := by
  rw [← List.take_append_drop k sorted, List.pairwise_append] at hstrict
  exact hstrict.2.2

variable [DecidableEq α]

theorem Smallest.length_of_notMem (h : Smallest k key xs seen) {b : α} (hb : b ∈ seen)
    (hxs : b ∉ xs) : xs.length = k := by
  have hlt : xs.toFinset.card < seen.card := by
    apply Finset.card_lt_card
    rw [Finset.ssubset_iff_of_subset fun a ha => h.mem_seen a (List.mem_toFinset.mp ha)]
    exact ⟨b, hb, fun hmem => hxs (List.mem_toFinset.mp hmem)⟩
  rw [List.toFinset_card_of_nodup h.nodup] at hlt
  have hlength := h.length_eq
  omega

theorem pairwise_sorted (h : Smallest k key xs seen) (hx : x ∉ xs)
    (hkey : Set.InjOn key (insert x seen : Finset α)) :
    ((xs ++ [x]).mergeSort fun a b => key a ≤ key b).Pairwise fun a b => key a < key b := by
  have hperm : ((xs ++ [x]).mergeSort fun a b => key a ≤ key b).Perm (xs ++ [x]) :=
    List.mergeSort_perm _ _
  have hnodup : ((xs ++ [x]).mergeSort fun a b => key a ≤ key b).Nodup := by
    rw [hperm.nodup_iff, List.nodup_append_comm]
    exact List.nodup_cons.mpr ⟨hx, h.nodup⟩
  have hmem : ∀ a ∈ (xs ++ [x]).mergeSort fun a b => key a ≤ key b,
      a ∈ (insert x seen : Finset α) := by
    intro a ha
    obtain ha | ha := List.mem_append.mp (hperm.mem_iff.mp ha)
    · exact Finset.mem_insert_of_mem (h.mem_seen a ha)
    · rw [List.mem_singleton.mp ha]
      exact Finset.mem_insert_self x seen
  have hsorted : ((xs ++ [x]).mergeSort fun a b => key a ≤ key b).Pairwise
      fun a b => decide (key a ≤ key b) = true :=
    List.pairwise_mergeSort (by simpa using fun a b c => le_trans)
      (by simpa using fun a b => le_total (key a) (key b)) _
  refine (hsorted.and hnodup).imp_of_mem fun ha hb hab => ?_
  refine lt_of_le_of_ne (by simpa using hab.1) fun heq => ?_
  exact hab.2 (hkey (hmem _ ha) (hmem _ hb) heq)

theorem Smallest.card_insert (h : Smallest k key xs seen) (hx : x ∉ xs) :
    min k (insert x seen).card = min k (xs.length + 1) := by
  by_cases hseen : x ∈ seen
  · rw [Finset.insert_eq_of_mem hseen, ← h.length_eq, h.length_of_notMem hseen hx]
    omega
  · rw [Finset.card_insert_of_notMem hseen, h.length_eq]
    omega

theorem Smallest.lt_dropped (h : Smallest k key xs seen) {sorted : List α}
    (hperm : sorted.Perm (xs ++ [x])) (hstrict : sorted.Pairwise fun a b => key a < key b)
    {a b : α} (ha : a ∈ sorted.take k) (hb : b ∈ seen) (hbxs : b ∉ xs) : key a < key b := by
  have hmem : ∀ c, c ∈ sorted ↔ c ∈ xs ∨ c = x := fun c => by
    rw [hperm.mem_iff, List.mem_append, List.mem_singleton]
  have hbefore : ∀ c ∈ xs, key c < key b := fun c hc => h.least c hc b hb hbxs
  obtain ha' | rfl := (hmem a).mp (List.mem_of_mem_take ha)
  · exact hbefore a ha'
  · -- the list was full, so that the new item has replaced another one
    have hdrop : (sorted.drop k).length = 1 := by
      rw [List.length_drop, hperm.length_eq, List.length_append, List.length_singleton,
        h.length_of_notMem hb hbxs]
      omega
    obtain ⟨c, hc⟩ := List.exists_mem_of_length_pos (hdrop ▸ Nat.one_pos)
    have hac := cut_lt hstrict a ha c hc
    have hcxs : c ∈ xs := ((hmem c).mp (List.mem_of_mem_drop hc)).resolve_right fun heq =>
      hac.ne (congrArg key heq.symm)
    exact hac.trans (hbefore c hcxs)

theorem Smallest.insert (h : Smallest k key xs seen) (hx : x ∉ xs)
    (hkey : Set.InjOn key (insert x seen : Finset α)) :
    Smallest k key (insertSmallest k key xs x) (insert x seen) := by
  have hstrict := pairwise_sorted h hx hkey
  have hperm : ((xs ++ [x]).mergeSort fun a b => key a ≤ key b).Perm (xs ++ [x]) :=
    List.mergeSort_perm _ _
  rw [insertSmallest]
  generalize ((xs ++ [x]).mergeSort fun a b => key a ≤ key b) = sorted at hstrict hperm
  have hmem : ∀ a, a ∈ sorted ↔ a ∈ xs ∨ a = x := fun a => by
    rw [hperm.mem_iff, List.mem_append, List.mem_singleton]
  refine ⟨hstrict.sublist (List.take_sublist k sorted), ?_, ?_, ?_⟩
  · rw [List.length_take, hperm.length_eq, List.length_append, List.length_singleton,
      h.card_insert hx]
  · intro a ha
    obtain ha | rfl := (hmem a).mp (List.mem_of_mem_take ha)
    · exact Finset.mem_insert_of_mem (h.mem_seen a ha)
    · exact Finset.mem_insert_self a seen
  · intro a ha b hb hbtake
    by_cases hbsorted : b ∈ sorted
    · rw [← List.take_append_drop k sorted] at hbsorted
      exact cut_lt hstrict a ha b ((List.mem_append.mp hbsorted).resolve_left hbtake)
    · rw [hmem, not_or] at hbsorted
      have hbseen := Finset.mem_of_mem_insert_of_ne hb hbsorted.2
      exact h.lt_dropped hperm hstrict ha hbseen hbsorted.1

theorem Smallest.subset {ys : List α} (h : Smallest k key xs seen) (h' : Smallest k key ys seen) :
    xs ⊆ ys := by
  intro a ha
  by_contra hays
  have hfull := h'.length_of_notMem (h.mem_seen a ha) hays
  have hlength := h.length_eq.trans h'.length_eq.symm
  -- as many are listed, so that one of the others is not
  obtain ⟨b, hb, hbxs⟩ : ∃ b ∈ ys, b ∉ xs := by
    by_contra hall
    push Not at hall
    have hperm : ys.Perm xs := by
      apply (List.subperm_of_subset h'.nodup hall).perm_of_length_le
      exact hlength.le
    exact hays (hperm.mem_iff.mpr ha)
  have hab := h.least a ha b (h'.mem_seen b hb) hbxs
  have hba := h'.least b hb a (h.mem_seen a ha) hays
  exact lt_asymm hab hba

/-- What was seen determines the list, in whatever order it came. -/
theorem Smallest.unique {ys : List α} (h : Smallest k key xs seen)
    (h' : Smallest k key ys seen) : xs = ys := by
  have hperm : xs.Perm ys := by
    apply (List.subperm_of_subset h.nodup (h.subset h')).perm_of_length_le
    exact (h'.length_eq.trans h.length_eq.symm).le
  refine hperm.eq_of_pairwise ?_ h.increasing h'.increasing
  intro a b _ _ hab hba
  exact absurd hba (lt_asymm hab)

end CanSniffer.Library.SmallestKeys
