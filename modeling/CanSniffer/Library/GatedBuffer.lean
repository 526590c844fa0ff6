import CanSniffer.Library.Newest

namespace CanSniffer.Library.GatedBuffer

open Newest

variable {α : Type}

-- A stream whose items are marked with whether a gate was open when they came.

/-- What a buffer behind the gate was fed. -/
def fed (seen : List (α × Bool)) : List α := (seen.filter Prod.snd).map Prod.fst

/-- The items since the gate was last closed. -/
def streak (seen : List (α × Bool)) : List α := (seen.rtakeWhile Prod.snd).map Prod.fst

/-- The newest `n` items behind the gate reach back no further than to its last opening. -/
def NoLeftovers (n : Nat) (seen : List (α × Bool)) : Prop :=
  n ≤ (streak seen).length ∨ (fed seen).length ≤ (streak seen).length

/-- The newest `n` items of the stream all passed the gate. -/
def FullyFed (n : Nat) (seen : List (α × Bool)) : Prop := min n seen.length ≤ (streak seen).length

instance (n : Nat) (seen : List (α × Bool)) : Decidable (NoLeftovers n seen) :=
  inferInstanceAs (Decidable (_ ∨ _))

instance (n : Nat) (seen : List (α × Bool)) : Decidable (FullyFed n seen) :=
  inferInstanceAs (Decidable (_ ≤ _))

theorem fed_append (xs ys : List (α × Bool)) : fed (xs ++ ys) = fed xs ++ fed ys := by
  simp [fed]

theorem fed_concat (xs : List (α × Bool)) (x : α) (o : Bool) :
    fed (xs ++ [(x, o)]) = if o then fed xs ++ [x] else fed xs := by
  cases o <;> simp [fed]

theorem split_streak (seen : List (α × Bool)) :
    fed seen = seen.map Prod.fst ∧ streak seen = seen.map Prod.fst ∨
      ∃ older x, (x, false) ∈ seen ∧ seen.map Prod.fst = older ++ x :: streak seen ∧
        ∃ leftovers, fed seen = leftovers ++ streak seen := by
  induction seen using List.reverseRecOn with
  | nil => exact Or.inl ⟨rfl, rfl⟩
  | append_singleton seen p ih =>
    obtain ⟨y, o⟩ := p
    cases o with
    | false =>
      refine Or.inr ⟨seen.map Prod.fst, y, by simp, ?_, fed seen, ?_⟩
      · simp [streak]
      · simp [streak, fed_concat]
    | true =>
      have hstreak : streak (seen ++ [(y, true)]) = streak seen ++ [y] := by
        simp [streak]
      rw [hstreak, fed_concat, if_pos rfl, List.map_append, List.map_singleton]
      obtain ⟨hfed, hstr⟩ | ⟨older, x, hx, hall, leftovers, hfed⟩ := ih
      · exact Or.inl ⟨by rw [hfed], by rw [hstr]⟩
      · refine Or.inr ⟨older, x, List.mem_append_left _ hx, by rw [hall]; simp, leftovers, ?_⟩
        rw [hfed, List.append_assoc]

theorem notMem_fed {seen : List (α × Bool)} (hnodup : (seen.map Prod.fst).Nodup) {x : α}
    (hx : (x, false) ∈ seen) : x ∉ fed seen := by
  intro h
  obtain ⟨⟨y, o⟩, hy, rfl⟩ := List.mem_map.mp h
  obtain ⟨hmem, ho⟩ := List.mem_filter.mp hy
  have heq := List.inj_on_of_nodup_map hnodup hmem hx rfl
  cases heq
  exact Bool.false_ne_true ho

variable {n : Nat} {seen : List (α × Bool)}

theorem rtake_fed_suffix (h : NoLeftovers n seen) : (fed seen).rtake n <:+ seen.map Prod.fst := by
  obtain ⟨hfed, -⟩ | ⟨older, x, -, hall, leftovers, hfed⟩ := split_streak seen
  · rw [hfed]
    exact rtake_suffix _ _
  · have hstreak : streak seen <:+ seen.map Prod.fst := by
      rw [hall]
      exact (List.suffix_cons x _).trans (List.suffix_append older _)
    obtain hn | hlen := h
    · rw [hfed, rtake_append_of_le hn]
      exact (rtake_suffix _ _).trans hstreak
    · have hnil : leftovers = [] := by
        rw [hfed, List.length_append] at hlen
        exact List.eq_nil_of_length_eq_zero (by omega)
      rw [hfed, hnil, List.nil_append]
      exact (rtake_suffix _ _).trans hstreak

theorem noLeftovers_of_suffix (hnodup : (seen.map Prod.fst).Nodup)
    (h : (fed seen).rtake n <:+ seen.map Prod.fst) : NoLeftovers n seen := by
  obtain ⟨hfed, hstreak⟩ | ⟨older, x, hx, hall, -⟩ := split_streak seen
  · exact Or.inr (by rw [hfed, hstreak])
  · by_contra hno
    rw [NoLeftovers, not_or, not_le, not_le] at hno
    have hlast : x :: streak seen <:+ seen.map Prod.fst := by
      rw [hall]
      exact List.suffix_append older _
    have hlen : (x :: streak seen).length ≤ ((fed seen).rtake n).length := by
      rw [length_rtake, List.length_cons]
      omega
    have hmem := (List.suffix_of_suffix_length_le hlast h hlen).subset List.mem_cons_self
    exact notMem_fed hnodup hx ((rtake_suffix _ _).subset hmem)

theorem rtake_fed_eq (h : FullyFed n seen) :
    (fed seen).rtake n = (seen.map Prod.fst).rtake n := by
  obtain ⟨hfed, -⟩ | ⟨older, x, -, hall, leftovers, hfed⟩ := split_streak seen
  · rw [hfed]
  · have hlen := congrArg List.length hall
    simp only [List.length_map, List.length_append, List.length_cons] at hlen
    have hn : n ≤ (streak seen).length := by
      rw [FullyFed] at h
      omega
    rw [hfed, hall, rtake_append_of_le hn, rtake_append_of_le (by rw [List.length_cons]; omega),
      ← List.singleton_append, rtake_append_of_le hn]

theorem fullyFed_of_eq (hnodup : (seen.map Prod.fst).Nodup)
    (h : (fed seen).rtake n = (seen.map Prod.fst).rtake n) : FullyFed n seen := by
  obtain ⟨-, hstreak⟩ | ⟨older, x, hx, hall, -⟩ := split_streak seen
  · rw [FullyFed, hstreak, List.length_map]
    omega
  · by_contra hno
    rw [FullyFed, not_le] at hno
    have hlast : x :: streak seen <:+ seen.map Prod.fst := by
      rw [hall]
      exact List.suffix_append older _
    have hlen : (x :: streak seen).length ≤ ((seen.map Prod.fst).rtake n).length := by
      rw [length_rtake, List.length_cons, List.length_map]
      omega
    have hmem := (List.suffix_of_suffix_length_le hlast (rtake_suffix _ _) hlen).subset
      List.mem_cons_self
    rw [← h] at hmem
    exact notMem_fed hnodup hx ((rtake_suffix _ _).subset hmem)

end CanSniffer.Library.GatedBuffer
