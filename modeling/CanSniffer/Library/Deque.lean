import CanSniffer.Library.Newest

namespace CanSniffer.Library

/-- A queue that holds at most `maxlen` items. -/
@[ext] structure Deque (α : Type) (maxlen : Nat) where
  items : List α
  bounded : items.length ≤ maxlen

namespace Deque

variable {α : Type} {maxlen : Nat}

instance [DecidableEq α] : DecidableEq (Deque α maxlen) := fun p q =>
  decidable_of_iff (p.items = q.items) Deque.ext_iff.symm

def empty : Deque α maxlen := ⟨[], Nat.zero_le _⟩

/-- Appending to a full queue silently drops items from the left. -/
def append (q : Deque α maxlen) (x : α) : Deque α maxlen :=
  ⟨(q.items ++ [x]).drop (q.items.length + 1 - maxlen), by simp; omega⟩

/-- The items that `append` drops. -/
def dropped (q : Deque α maxlen) (x : α) : List α :=
  (q.items ++ [x]).take (q.items.length + 1 - maxlen)

def popleft (q : Deque α maxlen) : Deque α maxlen :=
  ⟨q.items.tail, by have := q.bounded; simp; omega⟩

@[simp] theorem items_popleft (q : Deque α maxlen) : q.popleft.items = q.items.tail := rfl

theorem dropped_append (q : Deque α maxlen) (x : α) :
    q.dropped x ++ (q.append x).items = q.items ++ [x] :=
  List.take_append_drop _ _

theorem dropped_of_lt {q : Deque α maxlen} (h : q.items.length < maxlen) (x : α) :
    q.dropped x = [] := by
  rw [dropped, show q.items.length + 1 - maxlen = 0 by omega, List.take_zero]

theorem items_append_of_lt {q : Deque α maxlen} (h : q.items.length < maxlen) (x : α) :
    (q.append x).items = q.items ++ [x] := by
  simpa only [dropped_of_lt h, List.nil_append] using q.dropped_append x

theorem dropped_eq_nil_iff (q : Deque α maxlen) (x : α) :
    q.dropped x = [] ↔ q.items.length < maxlen := by
  refine ⟨fun h => ?_, fun h => dropped_of_lt h x⟩
  have hl := congrArg List.length h
  simp only [dropped, List.length_take, List.length_append, List.length_singleton,
    List.length_nil] at hl
  omega

theorem items_append (q : Deque α maxlen) (x : α) :
    (q.append x).items = (q.items ++ [x]).rtake maxlen := by
  rw [List.rtake, List.length_append]
  rfl

theorem items_append_rtake {q : Deque α maxlen} {xs : List α} (h : q.items = xs.rtake maxlen)
    (x : α) : (q.append x).items = (xs ++ [x]).rtake maxlen := by
  rw [items_append, h, Newest.rtake_rtake_append]

end Deque
end CanSniffer.Library
