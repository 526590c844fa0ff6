import CanSniffer.DiagLogger

namespace CanSniffer.FlushFailure

open Models DiagLogger

variable {refuses : Buf → Row → Bool}

/-- After a failed flush the database is what it was and each buffered row is still
buffered. -/
def NothingLost (before after : DiagLogger) : Prop :=
  after.committed = before.committed ∧ after.working = before.committed ∧
    ∀ b, (before.buffers b).Sublist (after.buffers b)

def firstBuffered (l : DiagLogger) : List Buf → Option Buf :=
  List.find? fun b => l.buffers b ≠ []

/-- Some row is not accepted when the whole of a buffer is written. -/
def Raises (refuses : Buf → Row → Bool) (l : DiagLogger) (b : Buf) : Prop :=
  ∃ row ∈ l.buffers b, ¬ b.Binds row ∨ refuses b row = true

theorem executemany_eq_none_iff (b : Buf) (rows table : List Row) :
    executemany refuses b rows table = none ↔
      ∃ row ∈ rows, ¬ b.Binds row ∨ refuses b row = true := by
  induction rows generalizing table with
  | nil => simp [executemany]
  | cons row rows ih =>
    by_cases hrow : b.Binds row ∧ refuses b row = false
    · have hstep : execute refuses b table row = some (b.insert row table) := if_pos hrow
      have hrest := ih (b.insert row table)
      rw [executemany] at hrest ⊢
      rw [List.foldlM_cons, hstep]
      simp [hrest, hrow.1, hrow.2]
    · have hstep : execute refuses b table row = none := if_neg hrow
      rw [executemany, List.foldlM_cons, hstep]
      refine iff_of_true rfl ⟨row, List.mem_cons_self, ?_⟩
      by_cases hbinds : b.Binds row
      · exact .inr (by simpa [hbinds] using hrow)
      · exact .inl hbinds

theorem flushBufs_buffers (refuses : Buf → Row → Bool) (bs : List Buf) (l : DiagLogger) (b : Buf) :
    (flushBufs refuses bs l).1.buffers b = l.buffers b ∨
      (flushBufs refuses bs l).1.buffers b = [] := by
  induction bs generalizing l with
  | nil => exact .inl rfl
  | cons c bs ih =>
    rw [flushBufs]
    split
    · exact ih l
    · split
      · exact .inl rfl
      · rename_i table _
        obtain h | h := ih { l with
          working := Function.update l.working c table
          buffers := Function.update l.buffers c [] }
        · by_cases hbc : b = c
          · subst hbc
            exact .inr (by simpa using h)
          · exact .inl (by simpa [hbc] using h)
        · exact .inr h

theorem flushBufs_committed (refuses : Buf → Row → Bool) (bs : List Buf) (l : DiagLogger) :
    (flushBufs refuses bs l).1.committed = l.committed := by
  induction bs generalizing l with
  | nil => rfl
  | cons c bs ih =>
    rw [flushBufs]
    split
    · exact ih l
    · split
      · rfl
      · exact ih _

theorem flushBufs_of_raises (bs : List Buf) (l : DiagLogger) {b : Buf}
    (hfirst : firstBuffered l bs = some b) (hraise : Raises refuses l b) :
    flushBufs refuses bs l = (l, some b) := by
  induction bs with
  | nil => cases hfirst
  | cons c bs ih =>
    rw [flushBufs]
    by_cases hc : l.buffers c = []
    · rw [if_pos hc]
      exact ih (by simpa [firstBuffered, hc] using hfirst)
    · have hbc : c = b := by simpa [firstBuffered, hc] using hfirst
      subst hbc
      rw [if_neg hc, (executemany_eq_none_iff c _ _).mpr hraise]

theorem flushBufs_clears (bs : List Buf) (l : DiagLogger) {b : Buf}
    (hfirst : firstBuffered l bs = some b) (hok : ¬ Raises refuses l b) :
    (flushBufs refuses bs l).1.buffers b = [] := by
  induction bs with
  | nil => cases hfirst
  | cons c bs ih =>
    rw [flushBufs]
    by_cases hc : l.buffers c = []
    · rw [if_pos hc]
      exact ih (by simpa [firstBuffered, hc] using hfirst)
    · have hbc : c = b := by simpa [firstBuffered, hc] using hfirst
      subst hbc
      rw [if_neg hc]
      cases hmany : executemany refuses c (l.buffers c) (l.working c) with
      | none => exact absurd ((executemany_eq_none_iff c _ _).mp hmany) hok
      | some table =>
        obtain h | h := flushBufs_buffers refuses bs { l with
          working := Function.update l.working c table
          buffers := Function.update l.buffers c [] } c
        · simpa using h
        · exact h

theorem flushBufs_of_empty (bs : List Buf) (l : DiagLogger) (h : firstBuffered l bs = none) :
    flushBufs refuses bs l = (l, none) := by
  induction bs with
  | nil => rfl
  | cons c bs ih =>
    by_cases hc : l.buffers c = []
    · rw [flushBufs, if_pos hc]
      exact ih (by simpa [firstBuffered, hc] using h)
    · simp [firstBuffered, hc] at h

theorem flush_of_raised {l : DiagLogger} (h : (flush refuses l).2.isSome) :
    (flush refuses l).1 = { (flushBufs refuses Buf.flushOrder l).1 with working := l.committed } := by
  rw [flush] at h ⊢
  split at h
  · rename_i hconn
    rw [if_pos hconn]
    have hcom := flushBufs_committed refuses Buf.flushOrder l
    split at h
    · cases h
    · rename_i l' b heq
      rw [heq] at hcom ⊢
      dsimp only at hcom ⊢
      rw [hcom]
  · cases h

/-- A flush that raises loses nothing exactly when the exception comes from the first
buffer with rows in it. -/
theorem failed_flush_loses_nothing_iff (refuses : Buf → Row → Bool) (l : DiagLogger)
    (h : (flush refuses l).2.isSome) :
    NothingLost l (flush refuses l).1 ↔
      ∃ b, firstBuffered l Buf.flushOrder = some b ∧ Raises refuses l b := by
  have hcom := flushBufs_committed refuses Buf.flushOrder l
  rw [flush_of_raised h, NothingLost]
  constructor
  · rintro ⟨-, -, hkept⟩
    cases hfirst : firstBuffered l Buf.flushOrder with
    | none =>
      rw [flush, flushBufs_of_empty _ _ hfirst] at h
      split at h <;> cases h
    | some b =>
      refine ⟨b, rfl, by_contra fun hok => ?_⟩
      have hb := hkept b
      rw [flushBufs_clears _ _ hfirst hok, List.sublist_nil] at hb
      have hne := List.find?_some hfirst
      simp [hb] at hne
  · rintro ⟨b, hfirst, hraise⟩
    rw [flushBufs_of_raises _ _ hfirst hraise]
    exact ⟨rfl, rfl, fun _ => List.Sublist.refl _⟩

/-- A frame is buffered, then an annotation whose id needs 65 bits. -/
def frameAndAnnotation : DiagLogger :=
  logAnnotation (logFrame (opened fun _ => []) ⟨0x123, 0, [], false, none, 1760000000, 0⟩)
    1760000000 (2 ^ 64) "note" 1760000001

def annotationOnly : DiagLogger :=
  logAnnotation (opened fun _ => []) 1760000000 (2 ^ 64) "note" 1760000001

theorem annotationOnly_kept :
    NothingLost annotationOnly (flush (fun _ _ => false) annotationOnly).1 := by
  refine (failed_flush_loses_nothing_iff _ annotationOnly (by decide +kernel)).mpr
    ⟨.ann, by decide +kernel, ?_⟩
  exact ⟨_, List.mem_singleton_self _, .inl (by decide +kernel)⟩

/-- The frame is gone from its buffer and from the database. -/
theorem frame_lost_with_annotation :
    (flush (fun _ _ => false) frameAndAnnotation).2 = some .ann ∧
      ¬ NothingLost frameAndAnnotation (flush (fun _ _ => false) frameAndAnnotation).1 := by
  refine ⟨by decide +kernel, fun ⟨_, _, hkept⟩ => ?_⟩
  have hframe := hkept .frame
  revert hframe
  decide +kernel

end CanSniffer.FlushFailure
