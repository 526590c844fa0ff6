import CanSniffer.DiagLogger
import CanSniffer.Library.Trace

namespace CanSniffer.ConcurrentFlush

open Library.Trace Models DiagLogger

/-- The worker of `asyncio.to_thread` and the thread that runs `close`. -/
inductive Flusher
  | worker | closer
  deriving DecidableEq

def Flusher.other : Flusher → Flusher
  | .worker => .closer
  | .closer => .worker

/-- Where a thread stands in `_flush`: about to test the first of the buffers left or,
with none left, to commit; in `executemany` at a position of the buffer it reads; about to
clear that buffer; about to close the connection. -/
inductive Pc
  | idle
  | test (bs : List Buf)
  | insert (b : Buf) (cursor : Nat) (bs : List Buf)
  | clear (b : Buf) (cursor : Nat) (bs : List Buf)
  | closing
  deriving DecidableEq

namespace Pc

/-- How many rows of a buffer the thread has read and not yet cleared. -/
def cursorIn (b : Buf) : Pc → Nat
  | insert c cursor _ | clear c cursor _ => if c = b then cursor else 0
  | idle | test _ | closing => 0

def Ended : Pc → Prop
  | idle | closing => True
  | test _ | insert _ _ _ | clear _ _ _ => False

instance : (pc : Pc) → Decidable pc.Ended
  | idle | closing => instDecidableTrue
  | test _ | insert _ _ _ | clear _ _ _ => instDecidableFalse

end Pc

/-- `close` goes on to close the connection. -/
def Flusher.afterFlush : Flusher → Pc
  | .worker => .idle
  | .closer => .closing

/-- `logged` holds the rows passed to the logger since it was opened; no step reads it. -/
structure Shared where
  logger : DiagLogger
  pc : Flusher → Pc
  logged : Buf → List Row

def opened (db : Buf → List Row) : Shared := ⟨.opened db, fun _ => .idle, fun _ => []⟩

inductive Move
  | log (b : Buf) (row : Row)
  | run (t : Flusher)

namespace Shared

def goto (s : Shared) (t : Flusher) (pc : Pc) : Shared := { s with pc := Function.update s.pc t pc }

def clear (s : Shared) (b : Buf) : Shared :=
  { s with logger := { s.logger with buffers := Function.update s.logger.buffers b [] } }

def insert (s : Shared) (b : Buf) (row : Row) : Shared :=
  { s with logger := { s.logger with
      working := Function.update s.logger.working b (b.insert row (s.logger.working b)) } }

def disconnect (s : Shared) : Shared := { s with logger := { s.logger with connected := false } }

def commit (s : Shared) : Shared :=
  { s with logger := { s.logger with committed := s.logger.working } }

/-- One atomic step of a thread in `_flush`. There is none where a statement would fail:
on a closed connection, or for a row that does not bind. -/
def advance (s : Shared) (t : Flusher) : Option Shared :=
  if s.logger.connected then
    match s.pc t with
    | .idle => some (s.goto t (.test Buf.flushOrder))
    | .test [] => some (s.commit.goto t t.afterFlush)
    | .test (b :: bs) =>
      some (s.goto t (if s.logger.buffers b = [] then .test bs else .insert b 0 bs))
    | .insert b cursor bs =>
      match (s.logger.buffers b)[cursor]? with
      | some row =>
        if b.Binds row then some ((s.insert b row).goto t (.insert b (cursor + 1) bs)) else none
      | none => some (s.goto t (.clear b cursor bs))
    | .clear b _ bs => some ((s.clear b).goto t (.test bs))
    | .closing => some (s.disconnect.goto t .idle)
  else none

def log (s : Shared) (b : Buf) (row : Row) : Shared :=
  { s with
    logger := s.logger.append b row
    logged := Function.update s.logged b (s.logged b ++ [row]) }

def step (s : Shared) : Move → Option Shared
  | .log b row => some (s.log b row)
  | .run t => s.advance t

end Shared

/-- Once no flush is under way, each logged row is in the database or in its buffer, once. -/
def Accounted (db : Buf → List Row) (s : Shared) : Prop :=
  (∀ t, (s.pc t).Ended) →
    ∀ b, (s.logger.committed b ++ s.logger.buffers b).Perm (db b ++ s.logged b)

def captureIds (rows : List Row) : List (Option SqlValue) := rows.map List.head?

/-- What a step must find: a new capture has a new id, a row that is read has not been
read by the other thread, and a buffer that is cleared has been read to its end. -/
def Guarded (s : Shared) : Move → Prop
  | .log b row =>
    b = .cap → row.head? ∉ captureIds (s.logger.working .cap ++ s.logger.buffers .cap)
  | .run t =>
    match s.pc t with
    | .insert b cursor _ =>
      cursor < (s.logger.buffers b).length → (s.pc t.other).cursorIn b ≤ cursor
    | .clear b cursor _ => (s.logger.buffers b).length ≤ cursor
    | .idle | .test _ | .closing => True

instance (s : Shared) : (m : Move) → Decidable (Guarded s m)
  | .log b row => inferInstanceAs (Decidable
      (b = .cap → row.head? ∉ captureIds (s.logger.working .cap ++ s.logger.buffers .cap)))
  | .run t => by
    unfold Guarded
    dsimp only
    split <;> infer_instance

def GuardedStep (s : Shared) (m : Move) (s' : Shared) : Prop := s.step m = some s' ∧ Guarded s m

/-- A table, the buffer in front of it, the rows that both must hold, and how far two
threads have read into the buffer: what lies before a cursor is already in the table, so
at most one of them has begun. -/
structure Tracked (table buffer rows : List Row) (c d : Nat) : Prop where
  split : table ++ buffer.drop (c + d) = rows
  left : c ≤ buffer.length
  right : d ≤ buffer.length
  alone : c = 0 ∨ d = 0

namespace Tracked

variable {table buffer rows : List Row} {c d : Nat}

theorem symm (h : Tracked table buffer rows c d) : Tracked table buffer rows d c :=
  ⟨Nat.add_comm c d ▸ h.split, h.right, h.left, h.alone.symm⟩

theorem log (h : Tracked table buffer rows c d) (row : Row) :
    Tracked table (buffer ++ [row]) (rows ++ [row]) c d := by
  obtain ⟨hsplit, hleft, hright, halone⟩ := h
  refine ⟨?_, by simp; omega, by simp; omega, halone⟩
  rw [List.drop_append_of_le_length (by omega), ← List.append_assoc, hsplit]

theorem next {row : Row} (h : Tracked table buffer rows c d) (hrow : buffer[c]? = some row)
    (hd : d ≤ c) : d = 0 ∧ table ++ row :: buffer.drop (c + 1) = rows := by
  obtain ⟨hlt, hget⟩ := List.getElem?_eq_some_iff.mp hrow
  have hd0 : d = 0 := by have := h.alone; omega
  have hsplit := h.split
  rw [hd0, Nat.add_zero, List.drop_eq_getElem_cons hlt, hget] at hsplit
  exact ⟨hd0, hsplit⟩

theorem read {row : Row} (h : Tracked table buffer rows c d) (hrow : buffer[c]? = some row)
    (hd : d ≤ c) : Tracked (table ++ [row]) buffer rows (c + 1) d := by
  obtain ⟨rfl, hsplit⟩ := h.next hrow hd
  have hlt := (List.getElem?_eq_some_iff.mp hrow).1
  exact ⟨by simpa using hsplit, hlt, Nat.zero_le _, .inr rfl⟩

theorem clear (h : Tracked table buffer rows c d) (hc : buffer.length ≤ c) :
    Tracked table [] rows 0 d := by
  obtain ⟨hsplit, hleft, hright, halone⟩ := h
  have hd : d = 0 := by omega
  subst hd
  rw [List.drop_eq_nil_of_le (by omega), List.append_nil] at hsplit
  exact ⟨by simpa using hsplit, le_rfl, le_rfl, .inl rfl⟩

end Tracked

/-- The tables, with what their buffers still add to them, hold `rows`. -/
structure Inv (rows : Buf → List Row) (s : Shared) : Prop where
  tracked : ∀ b, Tracked (s.logger.working b) (s.logger.buffers b) (rows b)
    ((s.pc .worker).cursorIn b) ((s.pc .closer).cursorIn b)
  ids : (captureIds (rows .cap)).Nodup
  dirty : s.logger.committed = s.logger.working ∨ ∃ t, ¬ (s.pc t).Ended

section

variable {rows : Buf → List Row} {s s' : Shared} {t : Flusher}

@[simp] theorem pc_goto_self (s : Shared) (t : Flusher) (pc : Pc) : (s.goto t pc).pc t = pc :=
  Function.update_self ..

@[simp] theorem pc_goto_other (s : Shared) (t : Flusher) (pc : Pc) :
    (s.goto t pc).pc t.other = s.pc t.other :=
  Function.update_of_ne (by cases t <;> decide) ..

/-- The two threads play the same part. -/
theorem tracked_iff (table buffer rows : List Row) (s : Shared) (t : Flusher) (b : Buf) :
    Tracked table buffer rows ((s.pc .worker).cursorIn b) ((s.pc .closer).cursorIn b) ↔
      Tracked table buffer rows ((s.pc t).cursorIn b) ((s.pc t.other).cursorIn b) := by
  cases t
  · exact Iff.rfl
  · exact ⟨Tracked.symm, Tracked.symm⟩

theorem tracked_goto (s : Shared) (t : Flusher) (pc : Pc) (table buffer rows : List Row) (b : Buf) :
    Tracked table buffer rows (((s.goto t pc).pc .worker).cursorIn b)
        (((s.goto t pc).pc .closer).cursorIn b) ↔
      Tracked table buffer rows (pc.cursorIn b) ((s.pc t.other).cursorIn b) := by
  rw [tracked_iff _ _ _ _ t, pc_goto_self, pc_goto_other]

theorem busy_goto (s : Shared) (t : Flusher) {pc : Pc} (h : ¬ pc.Ended) :
    ∃ u, ¬ ((s.goto t pc).pc u).Ended := ⟨t, by rwa [pc_goto_self]⟩

theorem inv_goto (h : Inv rows s) {pc : Pc} (hpc : ∀ b, pc.cursorIn b = (s.pc t).cursorIn b)
    (hdirty : s.logger.committed = s.logger.working ∨ ∃ u, ¬ ((s.goto t pc).pc u).Ended) :
    Inv rows (s.goto t pc) := by
  refine ⟨fun b => ?_, h.ids, hdirty⟩
  rw [tracked_goto, hpc]
  exact (tracked_iff _ _ _ s t b).mp (h.tracked b)

theorem insert_of_fresh {b : Buf} {row : Row} {table : List Row}
    (h : b = .cap → row.head? ∉ captureIds table) : b.insert row table = table ++ [row] := by
  cases b with
  | cap =>
    have hkeep : table.filter (·.head? ≠ row.head?) = table := by
      rw [List.filter_eq_self]
      intro old hold
      have hne : old.head? ≠ row.head? := fun heq =>
        h rfl (heq ▸ List.mem_map_of_mem hold)
      simpa using hne
    rw [Buf.insert, hkeep]
  | _ => rfl

theorem inv_read (h : Inv rows s) {b : Buf} {cursor : Nat} {bs : List Buf} {row : Row}
    (hpc : s.pc t = .insert b cursor bs) (hrow : (s.logger.buffers b)[cursor]? = some row)
    (hguard : (s.pc t.other).cursorIn b ≤ cursor) :
    Inv rows ((s.insert b row).goto t (.insert b (cursor + 1) bs)) := by
  have hb := (tracked_iff _ _ _ s t b).mp (h.tracked b)
  rw [hpc, Pc.cursorIn, if_pos rfl] at hb
  have hinsert : b.insert row (s.logger.working b) = s.logger.working b ++ [row] := by
    apply insert_of_fresh
    intro hcap
    subst hcap
    have hids := h.ids
    rw [← (hb.next hrow hguard).2, captureIds, List.map_append, List.map_cons] at hids
    exact fun hmem => (List.disjoint_of_nodup_append hids) hmem List.mem_cons_self
  refine ⟨fun c => ?_, h.ids, .inr (busy_goto _ t id)⟩
  rw [tracked_goto]
  by_cases hc : b = c
  · subst hc
    simpa [Shared.insert, Shared.goto, Pc.cursorIn, hinsert] using hb.read hrow hguard
  · have hother := (tracked_iff _ _ _ s t c).mp (h.tracked c)
    simpa [Shared.insert, Shared.goto, Pc.cursorIn, hpc, hc, Ne.symm hc] using hother

theorem inv_clear (h : Inv rows s) {b : Buf} {cursor : Nat} {bs : List Buf}
    (hpc : s.pc t = .clear b cursor bs) (hguard : (s.logger.buffers b).length ≤ cursor) :
    Inv rows ((s.clear b).goto t (.test bs)) := by
  refine ⟨fun c => ?_, h.ids, .inr (busy_goto _ t id)⟩
  rw [tracked_goto]
  have hc := (tracked_iff _ _ _ s t c).mp (h.tracked c)
  by_cases hbc : b = c
  · subst hbc
    rw [hpc, Pc.cursorIn, if_pos rfl] at hc
    simpa [Shared.clear, Shared.goto, Pc.cursorIn] using hc.clear hguard
  · simpa [Shared.clear, Shared.goto, Pc.cursorIn, hpc, hbc, Ne.symm hbc] using hc

theorem inv_log (h : Inv rows s) {b : Buf} {row : Row}
    (hguard : b = .cap → row.head? ∉ captureIds (s.logger.working .cap ++ s.logger.buffers .cap)) :
    Inv (Function.update rows b (rows b ++ [row])) (s.log b row) := by
  refine ⟨fun c => ?_, ?_, h.dirty⟩
  · by_cases hc : b = c
    · subst hc
      simpa [Shared.log, append] using (h.tracked b).log row
    · simpa [Shared.log, append, Ne.symm hc] using h.tracked c
  · by_cases hc : b = .cap
    · subst hc
      have hnew : row.head? ∉ captureIds (rows .cap) := by
        rw [← (h.tracked .cap).split]
        refine fun hmem => hguard rfl (List.map_subset _ ?_ hmem)
        exact ((List.drop_sublist _ _).append_left _).subset
      have hids := List.nodup_append.mpr ⟨h.ids, List.nodup_singleton row.head?, by
        intro id hid other hother heq
        rw [heq, List.mem_singleton.mp hother] at hid
        exact hnew hid⟩
      simpa [captureIds] using hids
    · simpa [Ne.symm hc] using h.ids

/-- Everything one step of a flushing thread can do. -/
inductive Advance (s : Shared) (t : Flusher) : Shared → Prop
  | start : s.pc t = .idle → Advance s t (s.goto t (.test Buf.flushOrder))
  | commit : s.pc t = .test [] → Advance s t (s.commit.goto t t.afterFlush)
  | skip (b : Buf) (bs : List Buf) : s.pc t = .test (b :: bs) → s.logger.buffers b = [] →
      Advance s t (s.goto t (.test bs))
  | enter (b : Buf) (bs : List Buf) : s.pc t = .test (b :: bs) → s.logger.buffers b ≠ [] →
      Advance s t (s.goto t (.insert b 0 bs))
  | read (b : Buf) (cursor : Nat) (bs : List Buf) (row : Row) : s.pc t = .insert b cursor bs →
      (s.logger.buffers b)[cursor]? = some row → b.Binds row →
      Advance s t ((s.insert b row).goto t (.insert b (cursor + 1) bs))
  | exhaust (b : Buf) (cursor : Nat) (bs : List Buf) : s.pc t = .insert b cursor bs →
      (s.logger.buffers b)[cursor]? = none → Advance s t (s.goto t (.clear b cursor bs))
  | clear (b : Buf) (cursor : Nat) (bs : List Buf) : s.pc t = .clear b cursor bs →
      Advance s t ((s.clear b).goto t (.test bs))
  | close : s.pc t = .closing → Advance s t (s.disconnect.goto t .idle)

theorem advance_iff : s.advance t = some s' ↔ s.logger.connected = true ∧ Advance s t s' := by
  constructor
  · intro h
    rw [Shared.advance] at h
    split_ifs at h with hconn
    refine ⟨hconn, ?_⟩
    split at h
    · cases h
      exact .start ‹_›
    · cases h
      exact .commit ‹_›
    · cases h
      split_ifs with hempty
      · exact .skip _ _ ‹_› hempty
      · exact .enter _ _ ‹_› hempty
    · split at h
      · split_ifs at h with hbinds
        cases h
        exact .read _ _ _ _ ‹_› ‹_› hbinds
      · cases h
        exact .exhaust _ _ _ ‹_› ‹_›
    · cases h
      exact .clear _ _ _ ‹_›
    · cases h
      exact .close ‹_›
  · rintro ⟨hconn, h⟩
    cases h <;> simp [Shared.advance, *]

theorem inv_advance (h : Inv rows s) (hstep : Advance s t s') (hguard : Guarded s (.run t)) :
    Inv rows s' := by
  dsimp only [Guarded] at hguard
  cases hstep with
  | start hpc => exact inv_goto h (by simp [hpc, Pc.cursorIn]) (.inr (busy_goto s t id))
  | commit hpc =>
    have hcommit : Inv rows s.commit := ⟨h.tracked, h.ids, .inl rfl⟩
    refine inv_goto hcommit (fun b => ?_) (.inl rfl)
    cases t <;> simp [Shared.commit, hpc, Pc.cursorIn, Flusher.afterFlush]
  | skip b bs hpc _ => exact inv_goto h (by simp [hpc, Pc.cursorIn]) (.inr (busy_goto s t id))
  | enter b bs hpc _ => exact inv_goto h (by simp [hpc, Pc.cursorIn]) (.inr (busy_goto s t id))
  | read b cursor bs row hpc hrow _ =>
    rw [hpc] at hguard
    exact inv_read h hpc hrow (hguard (List.getElem?_eq_some_iff.mp hrow).1)
  | exhaust b cursor bs hpc _ =>
    exact inv_goto h (by simp [hpc, Pc.cursorIn]) (.inr (busy_goto s t id))
  | clear b cursor bs hpc =>
    rw [hpc] at hguard
    exact inv_clear h hpc hguard
  | close hpc =>
    have hclosed : Inv rows s.disconnect := ⟨h.tracked, h.ids, h.dirty⟩
    apply inv_goto hclosed (by simp [Shared.disconnect, hpc, Pc.cursorIn])
    refine h.dirty.imp_right fun ⟨u, hu⟩ => ⟨u, ?_⟩
    have hut : u ≠ t := by
      rintro rfl
      exact hu (hpc ▸ trivial)
    simpa [Shared.goto, Shared.disconnect, hut] using hu

theorem logged_log (db : Buf → List Row) (s : Shared) (b : Buf) (row : Row) :
    (fun c => db c ++ (s.log b row).logged c) =
      Function.update (fun c => db c ++ s.logged c) b (db b ++ s.logged b ++ [row]) := by
  funext c
  by_cases hc : c = b
  · subst hc
    simp [Shared.log]
  · simp [Shared.log, hc]

theorem logged_advance (hstep : Advance s t s') : s'.logged = s.logged := by
  cases hstep <;> rfl

theorem inv_step {db : Buf → List Row} (h : Inv (fun b => db b ++ s.logged b) s) {m : Move}
    (hstep : GuardedStep s m s') : Inv (fun b => db b ++ s'.logged b) s' := by
  obtain ⟨hmove, hguard⟩ := hstep
  cases m with
  | log b row =>
    cases hmove
    rw [logged_log]
    exact inv_log h hguard
  | run t =>
    have hadvance := (advance_iff.mp hmove).2
    rw [logged_advance hadvance]
    exact inv_advance h hadvance hguard

theorem inv_opened {db : Buf → List Row} (hids : (captureIds (db .cap)).Nodup) :
    Inv db (opened db) :=
  ⟨fun b => ⟨by simp [opened, DiagLogger.opened, Pc.cursorIn], Nat.zero_le _, Nat.zero_le _,
    .inl rfl⟩, hids, .inl rfl⟩

theorem cursorIn_of_ended {pc : Pc} (h : pc.Ended) (b : Buf) : pc.cursorIn b = 0 := by
  cases pc <;> first | rfl | cases h

/-- Once no flush is under way, nothing is open and a table and its buffer hold the rows in their
order. -/
theorem content_of_inv (h : Inv rows s) (hended : ∀ t, (s.pc t).Ended) :
    s.logger.committed = s.logger.working ∧
      ∀ b, s.logger.working b ++ s.logger.buffers b = rows b := by
  refine ⟨h.dirty.resolve_right fun ⟨t, ht⟩ => ht (hended t), fun b => ?_⟩
  have hidle := fun t => cursorIn_of_ended (hended t) b
  have hsplit := (h.tracked b).split
  rwa [hidle, hidle, List.drop_zero] at hsplit

theorem inv_run {db : Buf → List Row} (hids : (captureIds (db .cap)).Nodup) {moves : List Move}
    (hrun : Run GuardedStep (opened db) moves s) : Inv (fun b => db b ++ s.logged b) s := by
  refine hrun.invariant (fun s => Inv (fun b => db b ++ s.logged b) s)
    (fun _ _ _ hs => inv_step hs) ?_
  have hnone : (fun b => db b ++ (opened db).logged b) = db := funext fun b => List.append_nil _
  rw [hnone]
  exact inv_opened hids

/-- In every interleaving of logging, a background flush and the flush of `close` in which
no step finds a row read twice or a buffer not read to its end, no row is lost or written
twice. -/
theorem guarded_flushes_account (db : Buf → List Row) (hids : (captureIds (db .cap)).Nodup)
    (moves : List Move) (s : Shared) (hrun : Run GuardedStep (opened db) moves s) :
    Accounted db s := by
  intro hended b
  obtain ⟨hclean, hcontent⟩ := content_of_inv (inv_run hids hrun) hended
  rw [hclean, hcontent]

end

theorem ended_of_idle {s : Shared} (hworker : s.pc .worker = .idle) (hcloser : s.pc .closer = .idle) :
    ∀ t, (s.pc t).Ended := by
  rintro (_ | _)
  · rw [hworker]
    trivial
  · rw [hcloser]
    trivial

def sampleRow (arbId : Nat) : Row :=
  frameRow ⟨arbId, 0, [], false, none, 1760000000, 0⟩ false

def guardedAdvance (s : Shared) (m : Move) : Option Shared := if Guarded s m then s.step m else none

theorem run_of_guardedAdvance {s s' : Shared} {moves : List Move}
    (h : moves.foldlM guardedAdvance s = some s') : Run GuardedStep s moves s' := by
  refine run_of_foldlM ?_ h
  intro u m v hm
  rw [guardedAdvance] at hm
  split_ifs at hm with hguard
  exact ⟨hm, hguard⟩

/-- Frames come in while the worker flushes, one of them once it has cleared the buffer; `close`
writes that one beside the worker. A last frame stays in the buffer. -/
def twoFlushes : List Move :=
  [.log .frame (sampleRow 1), .run .worker, .run .worker, .log .frame (sampleRow 2)] ++
    List.replicate 4 (.run .worker) ++
    [.log .frame (sampleRow 3), .run .closer, .run .closer, .run .worker, .run .closer] ++
    List.replicate 2 (.run .worker) ++ List.replicate 2 (.run .closer) ++
    List.replicate 4 (.run .worker) ++ [.log .frame (sampleRow 4)] ++
    List.replicate 8 (.run .closer)

theorem twoFlushes_account :
    ∃ s, twoFlushes.foldlM guardedAdvance (opened fun _ => []) = some s ∧
      (∀ t, (s.pc t).Ended) ∧ s.logger.committed .frame = [1, 2, 3].map sampleRow ∧
      Accounted (fun _ => []) s := by
  have hend : (twoFlushes.foldlM guardedAdvance (opened fun _ => [])).map (fun s =>
      (s.pc .worker, s.pc .closer, s.logger.committed .frame)) =
      some (.idle, .idle, [1, 2, 3].map sampleRow) := by decide +kernel
  obtain ⟨s, hs, hpc⟩ := Option.map_eq_some_iff.mp hend
  simp only [Prod.mk.injEq] at hpc
  obtain ⟨hworker, hcloser, hrows⟩ := hpc
  exact ⟨s, hs, ended_of_idle hworker hcloser, hrows,
    guarded_flushes_account (fun _ => []) (by decide) twoFlushes s (run_of_guardedAdvance hs)⟩

/-- A frame comes in after `executemany` has read the last row and before the buffer is
cleared. -/
def lossMoves : List Move :=
  .log .frame (sampleRow 1) :: List.replicate 4 (.run .worker) ++
    .log .frame (sampleRow 2) :: List.replicate 8 (.run .worker)

theorem frame_lost_before_clear :
    ∃ s, Run (fun u m v => u.step m = some v) (opened fun _ => []) lossMoves s ∧
      (∀ t, (s.pc t).Ended) ∧ ¬ Accounted (fun _ => []) s := by
  have hpcs : (lossMoves.foldlM Shared.step (opened fun _ => [])).map
      (fun s => (s.pc .worker, s.pc .closer)) = some (.idle, .idle) := by decide +kernel
  have hrows : (lossMoves.foldlM Shared.step (opened fun _ => [])).map
      (fun s => ((s.logger.committed .frame ++ s.logger.buffers .frame).length,
        (s.logged .frame).length)) = some (1, 2) := by decide +kernel
  obtain ⟨s, hs, hpc⟩ := Option.map_eq_some_iff.mp hpcs
  rw [hs, Option.map_some, Option.some_inj] at hrows
  simp only [Prod.mk.injEq] at hpc hrows
  have hended := ended_of_idle hpc.1 hpc.2
  refine ⟨s, run_of_foldlM (fun _ _ _ h => h) hs, hended, fun hacc => ?_⟩
  have hlen := (hacc hended .frame).length_eq
  rw [hrows.1, List.nil_append, hrows.2] at hlen
  cases hlen

end CanSniffer.ConcurrentFlush
