import CanSniffer.Library.Newest

namespace CanSniffer.Library.CircularArray

open Newest

variable {α : Type} {size : Nat} {buffer : List α} {head count : Nat} {xs : List α}

/-- An array that grows up to `size` and is then overwritten at a moving `head`, where its oldest
item stands. It holds the newest of the items `xs`. -/
structure Holds (size : Nat) (buffer : List α) (head count : Nat) (xs : List α) : Prop where
  count_eq : count = buffer.length
  count_le : count ≤ size
  head_eq : count < size → head = 0
  head_lt : head < size
  rotated : buffer.rotate head = xs.rtake size

theorem holds_nil (hsize : 0 < size) : Holds size ([] : List α) 0 0 [] :=
  ⟨rfl, Nat.zero_le _, fun _ => rfl, hsize, by simp⟩

theorem Holds.count_min (h : Holds size buffer head count xs) : count = min size xs.length := by
  rw [h.count_eq, ← List.length_rotate buffer head, h.rotated, length_rtake]

theorem Holds.buffer_eq (h : Holds size buffer head count xs) (hroom : count < size) :
    buffer = xs := by
  have hrotated := h.rotated
  have hcount := h.count_min
  rwa [h.head_eq hroom, List.rotate_zero, rtake_of_le (by omega)] at hrotated

theorem Holds.push (h : Holds size buffer head count xs) (hroom : count < size) (x : α) :
    Holds size (buffer ++ [x]) head (count + 1) (xs ++ [x]) where
  count_eq := by rw [h.count_eq, List.length_append, List.length_singleton]
  count_le := hroom
  head_eq _ := h.head_eq hroom
  head_lt := h.head_lt
  rotated := by
    have hlength : (xs ++ [x]).length ≤ size := by
      rw [← h.buffer_eq hroom, List.length_append, ← h.count_eq]
      exact hroom
    rw [h.head_eq hroom, List.rotate_zero, rtake_of_le hlength, h.buffer_eq hroom]

theorem rotate_set (h : head < buffer.length) (x : α) :
    (buffer.set head x).rotate (head + 1) = (buffer.rotate head).tail ++ [x] := by
  have hlength : head + 1 ≤ (buffer.set head x).length := by
    rw [List.length_set]
    exact h
  have hdrop : (buffer.set head x).drop (head + 1) = buffer.drop (head + 1) :=
    List.drop_set_of_lt (Nat.lt_succ_self head)
  have htake : (buffer.set head x).take (head + 1) = buffer.take head ++ [x] := by
    rw [List.take_succ_eq_append_getElem (by rwa [List.length_set]), List.getElem_set_self,
      List.take_set_of_le le_rfl]
  rw [List.rotate_eq_drop_append_take hlength, List.rotate_eq_drop_append_take h.le, hdrop, htake,
    List.drop_eq_getElem_cons h, List.cons_append, List.tail_cons, List.append_assoc]

theorem rtake_concat (h : size ≤ xs.length) (hsize : 0 < size) (x : α) :
    (xs ++ [x]).rtake size = (xs.rtake size).tail ++ [x] := by
  obtain ⟨k, rfl⟩ := Nat.exists_eq_succ_of_ne_zero hsize.ne'
  rw [List.rtake_concat_succ, List.rtake, List.rtake, List.tail_drop,
    show xs.length - k.succ + 1 = xs.length - k by omega]

theorem Holds.overwrite (h : Holds size buffer head count xs) (hfull : ¬ count < size) (x : α) :
    Holds size (buffer.set head x) ((head + 1) % size) count (xs ++ [x]) := by
  have hcount : count = size := h.count_le.antisymm (not_lt.mp hfull)
  have hlength : buffer.length = size := h.count_eq.symm.trans hcount
  have hsize : 0 < size := h.head_lt.pos
  constructor
  · rw [List.length_set]
    exact h.count_eq
  · exact h.count_le
  · exact fun hroom => absurd hroom hfull
  · exact Nat.mod_lt _ hsize
  · have hmin := h.count_min
    have hmod : (buffer.set head x).rotate ((head + 1) % size) =
        (buffer.set head x).rotate (head + 1) := by
      rw [← hlength, ← List.length_set, List.rotate_mod]
    rw [hmod, rotate_set (by rw [hlength]; exact h.head_lt), h.rotated,
      rtake_concat (by omega) hsize]

theorem Holds.read (h : Holds size buffer head count xs) :
    (List.range count).map (fun i => buffer[(head + i) % size]?) = (xs.rtake size).map some := by
  apply List.ext_getElem
  · rw [List.length_map, List.length_range, List.length_map, length_rtake, h.count_min]
  · intro i hi hi'
    rw [List.length_map, List.length_range] at hi
    have hcount := h.count_eq
    have hslot : (head + i) % size = (i + head) % buffer.length := by
      by_cases hroom : count < size
      · rw [h.head_eq hroom, Nat.zero_add, Nat.add_zero, Nat.mod_eq_of_lt (by omega),
          Nat.mod_eq_of_lt (by omega)]
      · have hle := h.count_le
        rw [Nat.add_comm, show buffer.length = size by omega]
    simp only [List.getElem_map, List.getElem_range, ← h.rotated, List.getElem_rotate]
    rw [hslot]
    exact List.getElem?_eq_getElem _

end CanSniffer.Library.CircularArray
