import CanSniffer.ConcurrentFlush

namespace CanSniffer

open Library Models

/-- `value < t`: a comparison with NULL does not hold, and texts and blobs come after every number.
-/
def SqlValue.before (t : ℚ) : SqlValue → Bool
  | integer n => (n : ℚ) < t
  | real x => x < t
  | null | text _ | blob _ => false

namespace Buf

/-- The column that the retention of the table goes by. -/
def retainColumn : Buf → Nat
  | cap => 1
  | ann => 3
  | frame | error | pru | alert | busst => 0

def retainDays : Buf → Nat
  | frame | error => 7
  | pru | busst | cap => 30
  | alert | ann => 90

def older (b : Buf) (t : ℚ) (row : Row) : Bool := (row.getD b.retainColumn .null).before t

/-- The start of the days that are kept. -/
def since (b : Buf) (now : ℚ) : ℚ := now - 86400 * b.retainDays

def within (b : Buf) (t : ℚ) (rows : List Row) : List Row := rows.filter fun row => !b.older t row

/-- `strftime('%s','now') - 86400 * days`; the fraction of the second is cut off. -/
def cutoff (b : Buf) (now : ℚ) : ℚ := b.since ⌊now⌋

end Buf

namespace ConcurrentFlush.Shared

/-- A statement of the retention script. `executescript` first commits what is open, and every
statement commits. -/
def delete (s : Shared) (b : Buf) (now : ℚ) : Shared :=
  let tables := Function.update s.logger.working b (b.within (b.cutoff now) (s.logger.working b))
  { s with logger := { s.logger with working := tables, committed := tables } }

end ConcurrentFlush.Shared

/-- Where the loop of `run` stands: in its sleep, waiting for the thread with `_flush`, or for the
one with `_purge` and the statements still to come. -/
inductive Stage
  | sleeping | flushing
  | purging (bs : List Buf)
  deriving DecidableEq

/-- The task that runs `run`, on the logger it shares with its threads and the handlers. `woke`,
`checked` and `now` are the clock at the end of the last sleep, at the last test of the time since
the last purge and at the last step; no step reads them. -/
structure LoggerTask where
  shared : ConcurrentFlush.Shared
  stage : Stage
  lastRetain : ℚ
  woke : ℚ
  checked : ℚ
  now : ℚ

namespace LoggerTask

open DiagLogger ConcurrentFlush Library.Trace

inductive Act
  | log (b : Buf) (row : Row) (time : ℚ)
  | run (time : ℚ)

def flushStep (s : LoggerTask) (time : ℚ) : Option LoggerTask :=
  (s.shared.advance .worker).map fun shared => { s with shared, stage := .flushing, now := time }

/-- One step of the task or of the thread it waits for. The script takes the tables in the order in
which `_flush` writes them. -/
def advance (s : LoggerTask) (time : ℚ) : Option LoggerTask :=
  match s.stage with
  | .sleeping => { s with woke := time }.flushStep time
  | .flushing =>
    if s.shared.pc .worker = .idle then
      let due := Binary64.sub time s.lastRetain > 86400
      some { s with
        stage := if due then .purging Buf.flushOrder else .sleeping, checked := time, now := time }
    else s.flushStep time
  | .purging (b :: bs) =>
    some { s with shared := s.shared.delete b time, stage := .purging bs, now := time }
  | .purging [] => some { s with lastRetain := time, stage := .sleeping, now := time }

def step (s : LoggerTask) : Act → Option LoggerTask
  | .log b row time => some { s with shared := s.shared.log b row, now := time }
  | .run time => s.advance time

def start (db : Buf → List Row) (started : ℚ) : LoggerTask :=
  ⟨opened db, .sleeping, started, started, started, started⟩

def content (s : LoggerTask) (b : Buf) : List Row :=
  s.shared.logger.committed b ++ s.shared.logger.buffers b

def given (db : Buf → List Row) (s : LoggerTask) (b : Buf) : List Row := db b ++ s.shared.logged b

/-- The clock does not go back, a row is at most `slack` seconds old when it is logged, and the task
is awake for so long at most. -/
def InTime (slack : ℚ) (s : LoggerTask) : Act → Prop
  | .log b row time => s.now ≤ time ∧ b.older (time - slack) row = false
  | .run time => s.now ≤ time ∧ (s.stage ≠ .sleeping → time ≤ s.woke + slack)

instance (slack : ℚ) (s : LoggerTask) : (a : Act) → Decidable (InTime slack s a)
  | .log b row time =>
    inferInstanceAs (Decidable (s.now ≤ time ∧ b.older (time - slack) row = false))
  | .run time =>
    inferInstanceAs (Decidable (s.now ≤ time ∧ (s.stage ≠ .sleeping → time ≤ s.woke + slack)))

/-- What a flush beside the handlers must find: see `Guarded`. -/
def Undisturbed (s : LoggerTask) : Act → Prop
  | .log b row _ => Guarded s.shared (.log b row)
  | .run _ => Guarded s.shared (.run .worker)

instance (s : LoggerTask) : (a : Act) → Decidable (Undisturbed s a)
  | .log b row _ => inferInstanceAs (Decidable (Guarded s.shared (.log b row)))
  | .run _ => inferInstanceAs (Decidable (Guarded s.shared (.run .worker)))

def GuardedStep (slack : ℚ) (s : LoggerTask) (a : Act) (s' : LoggerTask) : Prop :=
  s.step a = some s' ∧ InTime slack s a ∧ Undisturbed s a

variable {b : Buf} {row : Row} {rows more : List Row}

theorem older_mono {t t' : ℚ} (h : t ≤ t') (hold : b.older t row = true) :
    b.older t' row = true := by
  rw [Buf.older] at *
  cases hv : row.getD b.retainColumn .null <;> rw [hv] at hold <;>
    simp only [SqlValue.before, decide_eq_true_eq, Bool.false_eq_true] at * <;> linarith

theorem older_false_of_le {t t' : ℚ} (h : t ≤ t') (hyoung : b.older t' row = false) :
    b.older t row = false := by
  by_contra hold
  rw [Bool.not_eq_false] at hold
  rw [older_mono h hold] at hyoung
  cases hyoung

theorem within_within {t t' : ℚ} (h : t ≤ t') (rows : List Row) :
    b.within t' (b.within t rows) = b.within t' rows := by
  rw [Buf.within, Buf.within, Buf.within, List.filter_filter]
  apply List.filter_congr
  intro row _
  cases hold : b.older t row with
  | false => simp
  | true => simp [older_mono h hold]

theorem within_append (t : ℚ) (rows more : List Row) :
    b.within t (rows ++ more) = b.within t rows ++ b.within t more := List.filter_append ..

theorem within_later {t t' : ℚ} (h : t ≤ t') (heq : b.within t rows = b.within t more) :
    b.within t' rows = b.within t' more := by
  rw [← within_within h rows, ← within_within h more, heq]

theorem older_of_mem_within {t : ℚ} (h : row ∈ b.within t rows) : b.older t row = false := by
  simpa using (List.mem_filter.mp h).2

theorem since_mono {t t' : ℚ} (h : t ≤ t') : b.since t ≤ b.since t' := by
  rw [Buf.since, Buf.since]
  linarith

theorem cutoff_le {t t' : ℚ} (h : t ≤ t') : b.cutoff t ≤ b.since t' :=
  since_mono ((Int.floor_le t).trans h)

theorem since_sub_le (t : ℚ) : b.since t ≤ t := by
  rw [Buf.since]
  have : (0 : ℚ) ≤ 86400 * b.retainDays := by positivity
  linarith

/-- The logger holds `rows`: some of those that there should be, and of these all that are not too
old. -/
structure Held (db : Buf → List Row) (now : ℚ) (s : Shared) (rows : Buf → List Row) : Prop where
  inv : Inv rows s
  sub : ∀ b, (rows b).Sublist (db b ++ s.logged b)
  young : ∀ b : Buf, b.within (b.since now) (rows b) = b.within (b.since now) (db b ++ s.logged b)

structure Sole (s : Shared) : Prop where
  connected : s.logger.connected = true
  closer : s.pc .closer = .idle
  worker : s.pc .worker ≠ .closing

def pending : Pc → List Buf
  | .idle | .closing => []
  | .test bs => bs
  | .insert b _ bs | .clear b _ bs => b :: bs

section

variable {db rows : Buf → List Row} {now time : ℚ} {s s' : Shared}

theorem held_later (h : Held db now s rows) (hnow : now ≤ time) : Held db time s rows :=
  ⟨h.inv, h.sub, fun b => within_later (since_mono hnow) (h.young b)⟩

theorem held_log (h : Held db now s rows) (hguard : Guarded s (.log b row)) (hnow : now ≤ time) :
    Held db time (s.log b row) (Function.update rows b (rows b ++ [row])) := by
  have hlater := held_later h hnow
  refine ⟨inv_log h.inv hguard, fun c => ?_, fun c => ?_⟩
  · rw [congrFun (logged_log db s b row) c]
    by_cases hc : c = b
    · subst hc
      simpa using (h.sub c).append_right [row]
    · simpa [hc] using h.sub c
  · rw [congrFun (logged_log db s b row) c]
    by_cases hc : c = b
    · subst hc
      rw [Function.update_self, Function.update_self, within_append, within_append, hlater.young c]
    · rw [Function.update_of_ne hc, Function.update_of_ne hc, hlater.young c]

theorem held_advance (h : Held db now s rows) (hstep : Advance s .worker s')
    (hguard : Guarded s (.run .worker)) (hnow : now ≤ time) : Held db time s' rows := by
  have hlogged := logged_advance hstep
  have hlater := held_later h hnow
  exact ⟨inv_advance h.inv hstep hguard, fun b => hlogged ▸ h.sub b,
    fun b => hlogged ▸ hlater.young b⟩

/-- A statement of a purge takes away only what is too old. -/
theorem held_delete (h : Held db now s rows) (hended : ∀ t, (s.pc t).Ended) (hnow : now ≤ time)
    (b : Buf) :
    Held db time (s.delete b time) (Function.update rows b
      (b.within (b.cutoff time) (s.logger.working b) ++ s.logger.buffers b)) := by
  have hrows := (content_of_inv h.inv hended).2
  have hlater := held_later h hnow
  have hsub : (b.within (b.cutoff time) (s.logger.working b) ++ s.logger.buffers b).Sublist
      (rows b) := by
    rw [← hrows]
    exact List.filter_sublist.append_right _
  refine ⟨⟨fun c => ?_, ?_, .inl rfl⟩, fun c => ?_, fun c => ?_⟩
  · by_cases hc : c = b
    · subst hc
      have hcursor := fun t => cursorIn_of_ended (hended t) c
      rw [Shared.delete, hcursor, hcursor]
      exact ⟨by simp, Nat.zero_le _, Nat.zero_le _, .inl rfl⟩
    · simpa [Shared.delete, hc] using h.inv.tracked c
  · by_cases hc : b = .cap
    · subst hc
      rw [Function.update_self]
      exact h.inv.ids.sublist (hsub.map List.head?)
    · rw [Function.update_of_ne (Ne.symm hc)]
      exact h.inv.ids
  · by_cases hc : c = b
    · subst hc
      rw [Function.update_self]
      exact hsub.trans (h.sub c)
    · rw [Function.update_of_ne hc]
      exact h.sub c
  · by_cases hc : c = b
    · subst hc
      rw [Function.update_self, within_append, within_within (cutoff_le le_rfl), ← within_append,
        hrows]
      exact hlater.young c
    · rw [Function.update_of_ne hc]
      exact hlater.young c

theorem sole_advance (h : Sole s) (hstep : Advance s .worker s') : Sole s' := by
  obtain ⟨hconn, hcloser, hworker⟩ := h
  have hmoved : ∀ (u : Shared) (pc : Pc), u.logger.connected = true → u.pc = s.pc → pc ≠ .closing →
      Sole (u.goto .worker pc) := by
    intro u pc hu hpc hne
    refine ⟨hu, ?_, by rwa [pc_goto_self]⟩
    have hother := pc_goto_other u .worker pc
    rw [Flusher.other] at hother
    rw [hother, hpc, hcloser]
  cases hstep with
  | close hpc => exact absurd hpc hworker
  | commit _ => exact hmoved s.commit _ hconn rfl (by simp [Flusher.afterFlush])
  | read b cursor bs row _ _ _ => exact hmoved (s.insert b row) _ hconn rfl (by simp)
  | clear b cursor bs _ => exact hmoved (s.clear b) _ hconn rfl (by simp)
  | start _ | skip _ _ _ _ | enter _ _ _ _ | exhaust _ _ _ _ _ => exact hmoved s _ hconn rfl (by simp)

/-- A flush leaves no row in a buffer that was there when it came to it. -/
theorem buffers_advance (hstep : Advance s .worker s') (hb : b ∉ pending (s'.pc .worker)) :
    s'.logger.buffers b = [] ∨ s.pc .worker ≠ .idle ∧ b ∉ pending (s.pc .worker) ∧
      s'.logger.buffers b = s.logger.buffers b := by
  cases hstep with
  | start hpc => exact absurd (Buf.mem_flushOrder b) (by simpa [pending] using hb)
  | commit hpc => exact .inr ⟨by simp [hpc], by simp [hpc, pending], rfl⟩
  | skip c bs hpc hempty =>
    by_cases hc : b = c
    · exact .inl (hc ▸ hempty)
    · exact .inr ⟨by simp [hpc], by simpa [hpc, pending, hc] using hb, rfl⟩
  | enter c bs hpc _ => exact .inr ⟨by simp [hpc], by simpa [hpc, pending] using hb, rfl⟩
  | read c cursor bs row hpc _ _ => exact .inr ⟨by simp [hpc], by simpa [hpc, pending] using hb, rfl⟩
  | exhaust c cursor bs hpc _ => exact .inr ⟨by simp [hpc], by simpa [hpc, pending] using hb, rfl⟩
  | clear c cursor bs hpc =>
    by_cases hc : b = c
    · subst hc
      exact .inl (by simp [Shared.clear, Shared.goto])
    · exact .inr ⟨by simp [hpc], by simpa [hpc, pending, hc] using hb,
        by simp [Shared.clear, Shared.goto, hc]⟩
  | close hpc => exact .inr ⟨by simp [hpc], by simp [hpc, pending], rfl⟩

theorem mem_insert {r : Row} (h : r ∈ b.insert row more) : r ∈ more ∨ r = row := by
  cases b with
  | cap =>
    obtain h | h := List.mem_append.mp h
    · exact .inl (List.mem_of_mem_filter h)
    · exact .inr (List.mem_singleton.mp h)
  | _ => simpa [Buf.insert] using h

theorem mem_advance (hstep : Advance s .worker s')
    (h : row ∈ s'.logger.working b ++ s'.logger.buffers b) :
    row ∈ s.logger.working b ++ s.logger.buffers b := by
  cases hstep with
  | read c cursor bs r hpc hr hbinds =>
    by_cases hc : b = c
    · subst hc
      simp only [Shared.insert, Shared.goto, Function.update_self, List.mem_append] at h ⊢
      obtain h | h := h
      · refine (mem_insert h).elim .inl fun heq => .inr ?_
        rw [heq]
        exact List.mem_of_getElem? hr
      · exact .inr h
    · simpa [Shared.insert, Shared.goto, hc] using h
  | clear c cursor bs hpc =>
    by_cases hc : b = c
    · subst hc
      exact List.mem_append_left _ (by simpa [Shared.clear, Shared.goto] using h)
    · simpa [Shared.clear, Shared.goto, hc] using h
  | start _ | commit _ | skip _ _ _ _ | enter _ _ _ _ | exhaust _ _ _ _ _ | close _ => exact h

end

variable {db : Buf → List Row} {slack started time : ℚ} {s s' : LoggerTask}

/-- What holds where the task stands. A pass has tested the time since the last purge; the buffers
that a flush is done with hold rows of this pass; and so do the tables that a purge is done with,
but for those of the days that are kept. -/
def Here (slack : ℚ) (s : LoggerTask) : Prop :=
  match s.stage with
  | .sleeping => s.shared.pc .worker = .idle ∧ s.checked - s.lastRetain ≤ 86401
  | .flushing => ∀ b ∉ pending (s.shared.pc .worker), ∀ row ∈ s.shared.logger.buffers b,
      b.older (s.woke - slack) row = false
  | .purging bs => s.shared.pc .worker = .idle ∧ s.checked ≤ s.now ∧ ∀ b,
      (∀ row ∈ s.shared.logger.buffers b, b.older (s.woke - slack) row = false) ∧
      (b ∉ bs → ∀ row ∈ s.shared.logger.working b, b.older (b.since s.woke - 1) row = false)

/-- After a purge there is nothing much older than what it was to leave. -/
def Recent (slack started : ℚ) (s : LoggerTask) : Prop :=
  s.lastRetain = started ∨ 0 ≤ slack ∧
    ∀ b, ∀ row ∈ s.shared.logger.working b ++ s.shared.logger.buffers b,
      b.older (b.since s.lastRetain - 2 * slack - 1) row = false

structure Kept (db : Buf → List Row) (slack started : ℚ) (s : LoggerTask) : Prop where
  held : ∃ rows, Held db s.now s.shared rows
  sole : Sole s.shared
  recent : Recent slack started s
  retained : s.lastRetain ≤ s.now

structure Retains (db : Buf → List Row) (slack started : ℚ) (s : LoggerTask) : Prop
    extends Kept db slack started s where
  here : Here slack s
  woken : s.woke ≤ s.now

theorem retains_log (h : Retains db slack started s) (hguard : Guarded s.shared (.log b row))
    (hin : InTime slack s (.log b row time)) :
    Retains db slack started { s with shared := s.shared.log b row, now := time } := by
  obtain ⟨hnow, hfresh⟩ := hin
  obtain ⟨rows, hheld⟩ := h.held
  have hbuf : ∀ c, ∀ r ∈ (s.shared.log b row).logger.buffers c,
      r ∈ s.shared.logger.buffers c ∨ c = b ∧ r = row := by
    intro c r hr
    by_cases hc : c = b
    · subst hc
      simpa [Shared.log, append] using hr
    · exact .inl (by simpa [Shared.log, append, hc] using hr)
  have hlogged : b.older (s.woke - slack) row = false :=
    older_false_of_le (by have := h.woken; linarith) hfresh
  refine ⟨⟨⟨_, held_log hheld hguard hnow⟩, ⟨h.sole.connected, h.sole.closer, h.sole.worker⟩, ?_,
    h.retained.trans hnow⟩, ?_, h.woken.trans hnow⟩
  rotate_left
  · have hhere := h.here
    rw [Here] at hhere ⊢
    dsimp only
    split at hhere
    · exact hhere
    · intro c hc r hr
      obtain hr | ⟨rfl, rfl⟩ := hbuf c r hr
      · exact hhere c hc r hr
      · exact hlogged
    · refine ⟨hhere.1, hhere.2.1.trans hnow, fun c => ⟨fun r hr => ?_, (hhere.2.2 c).2⟩⟩
      obtain hr | ⟨rfl, rfl⟩ := hbuf c r hr
      · exact (hhere.2.2 c).1 r hr
      · exact hlogged
  · refine h.recent.imp_right fun hrecent => ⟨hrecent.1, fun c r hr => ?_⟩
    have hslack := hrecent.1
    obtain hr | hr := List.mem_append.mp hr
    · exact hrecent.2 c r (List.mem_append_left _ hr)
    · obtain hr | ⟨rfl, rfl⟩ := hbuf c r hr
      · exact hrecent.2 c r (List.mem_append_right _ hr)
      · refine older_false_of_le ?_ hfresh
        have hsince := since_sub_le (b := c) s.lastRetain
        have hlast := h.retained
        dsimp only
        linarith

theorem retains_flushStep (h : Kept db slack started s) (hwoken : s.woke ≤ time)
    (hhere : s.shared.pc .worker ≠ .idle → ∀ b ∉ pending (s.shared.pc .worker),
      ∀ row ∈ s.shared.logger.buffers b, b.older (s.woke - slack) row = false)
    (hnow : s.now ≤ time) (hguard : Guarded s.shared (.run .worker))
    (hstep : s.flushStep time = some s') : Retains db slack started s' := by
  obtain ⟨rows, hheld⟩ := h.held
  obtain ⟨shared, hshared, rfl⟩ := Option.map_eq_some_iff.mp hstep
  obtain ⟨-, hadvance⟩ := advance_iff.mp hshared
  have hrecent : Recent slack started { s with shared, stage := .flushing, now := time } :=
    h.recent.imp_right (And.imp_right fun hrecent b row hrow =>
      hrecent b row (mem_advance hadvance hrow))
  refine ⟨⟨⟨rows, held_advance hheld hadvance hguard hnow⟩, sole_advance h.sole hadvance, hrecent,
    h.retained.trans hnow⟩, ?_, hwoken⟩
  intro b hb row hrow
  obtain hempty | ⟨hbusy, hb', heq⟩ := buffers_advance hadvance hb
  · exact absurd hrow (by simp [hempty])
  · exact hhere hbusy b hb' row (heq ▸ hrow)

/-- A difference that is not found to be more than a day is hardly more. -/
theorem le_of_sub_le {x y : ℚ} (h : ¬ Binary64.sub x y > 86400) : x - y ≤ 86401 := by
  by_contra hgt
  have hround : Binary64.round ((86401 : ℕ) : ℚ) ≤ Binary64.sub x y :=
    Binary64.round_mono (by push_cast; linarith)
  rw [Binary64.round_natCast (by norm_num)] at hround
  push_cast at hround
  linarith

theorem kept_later (h : Kept db slack started s) (hnow : s.now ≤ time) (stage : Stage)
    (checked : ℚ) : Kept db slack started { s with stage, checked, now := time } := by
  obtain ⟨rows, hheld⟩ := h.held
  exact ⟨⟨rows, held_later hheld hnow⟩, h.sole, h.recent, h.retained.trans hnow⟩

theorem retains_check (h : Retains db slack started s) (hstage : s.stage = .flushing)
    (hidle : s.shared.pc .worker = .idle) (hnow : s.now ≤ time) :
    Retains db slack started { s with
      stage := if Binary64.sub time s.lastRetain > 86400 then .purging Buf.flushOrder else .sleeping
      checked := time
      now := time } := by
  refine ⟨kept_later h.toKept hnow _ _, ?_, h.woken.trans hnow⟩
  have hhere := h.here
  rw [Here, hstage] at hhere
  rw [Here]
  split_ifs with hday
  · refine ⟨hidle, le_rfl, fun b => ⟨hhere b (by simp [hidle, pending]), fun hb => ?_⟩⟩
    exact absurd (Buf.mem_flushOrder b) hb
  · exact ⟨hidle, le_of_sub_le hday⟩

theorem retains_delete {bs : List Buf} (h : Retains db slack started s)
    (hstage : s.stage = .purging (b :: bs)) (hnow : s.now ≤ time) :
    Retains db slack started
      { s with shared := s.shared.delete b time, stage := .purging bs, now := time } := by
  obtain ⟨rows, hheld⟩ := h.held
  have hhere := h.here
  rw [Here, hstage] at hhere
  obtain ⟨hidle, hchecked, hrows⟩ := hhere
  have hworking : ∀ c, ∀ row ∈ (s.shared.delete b time).logger.working c,
      row ∈ s.shared.logger.working c ∧ (c = b → c.older (c.cutoff time) row = false) := by
    intro c row hrow
    by_cases hc : c = b
    · subst hc
      have hmem : row ∈ c.within (c.cutoff time) (s.shared.logger.working c) := by
        simpa [Shared.delete] using hrow
      exact ⟨List.mem_of_mem_filter hmem, fun _ => older_of_mem_within hmem⟩
    · exact ⟨by simpa [Shared.delete, hc] using hrow, fun heq => absurd heq hc⟩
  refine ⟨⟨⟨_, held_delete hheld (ended_of_idle hidle h.sole.closer) hnow b⟩,
    ⟨h.sole.connected, h.sole.closer, h.sole.worker⟩, ?_, h.retained.trans hnow⟩,
    ⟨hidle, hchecked.trans hnow, fun c => ⟨(hrows c).1, fun hc row hrow => ?_⟩⟩, h.woken.trans hnow⟩
  · refine h.recent.imp_right (And.imp_right fun hrecent c row hrow => ?_)
    obtain hrow | hrow := List.mem_append.mp hrow
    · exact hrecent c row (List.mem_append_left _ (hworking c row hrow).1)
    · exact hrecent c row (List.mem_append_right _ hrow)
  · obtain ⟨hrow, hcut⟩ := hworking c row hrow
    by_cases hcb : c = b
    · refine older_false_of_le ?_ (hcut hcb)
      have hfloor := Int.lt_floor_add_one time
      have hwoken := h.woken
      rw [Buf.cutoff, Buf.since, Buf.since]
      dsimp only
      linarith
    · exact (hrows c).2 (by simp [hcb, hc]) row hrow

theorem retains_purged (h : Retains db slack started s) (hstage : s.stage = .purging [])
    (hnow : s.now ≤ time) (hawake : time ≤ s.woke + slack) :
    Retains db slack started { s with lastRetain := time, stage := .sleeping, now := time } := by
  obtain ⟨rows, hheld⟩ := h.held
  have hhere := h.here
  rw [Here, hstage] at hhere
  obtain ⟨hidle, hchecked, hrows⟩ := hhere
  have hwoken := h.woken
  have hslack : 0 ≤ slack := by linarith
  refine ⟨⟨⟨rows, held_later hheld hnow⟩, h.sole, .inr ⟨hslack, fun b row hrow => ?_⟩, le_rfl⟩,
    ⟨hidle, ?_⟩, hwoken.trans hnow⟩
  · obtain hrow | hrow := List.mem_append.mp hrow
    · refine older_false_of_le ?_ ((hrows b).2 List.not_mem_nil row hrow)
      rw [Buf.since, Buf.since]
      dsimp only
      linarith
    · refine older_false_of_le ?_ ((hrows b).1 row hrow)
      have hsince := since_sub_le (b := b) time
      dsimp only
      linarith
  · dsimp only
    linarith

theorem retains_step (h : Retains db slack started s) {a : Act}
    (hstep : GuardedStep slack s a s') : Retains db slack started s' := by
  obtain ⟨hmove, hin, hguard⟩ := hstep
  cases a with
  | log b row time =>
    cases hmove
    exact retains_log h hguard hin
  | run time =>
    obtain ⟨hnow, hawake⟩ := hin
    have hhere := h.here
    dsimp only [step, advance] at hmove
    split at hmove
    · rename_i hstage
      rw [Here, hstage] at hhere
      obtain ⟨rows, hheld⟩ := h.held
      have hkept : Kept db slack started { s with woke := time } :=
        ⟨⟨rows, hheld⟩, h.sole, h.recent, h.retained⟩
      exact retains_flushStep hkept le_rfl (fun hbusy => absurd hhere.1 hbusy) hnow hguard hmove
    · rename_i hstage
      rw [Here, hstage] at hhere
      by_cases hidle : s.shared.pc .worker = .idle
      · rw [if_pos hidle] at hmove
        cases hmove
        exact retains_check h hstage hidle hnow
      · rw [if_neg hidle] at hmove
        exact retains_flushStep h.toKept (h.woken.trans hnow) (fun _ => hhere) hnow hguard hmove
    · rename_i b bs hstage
      cases hmove
      exact retains_delete h hstage hnow
    · rename_i hstage
      cases hmove
      exact retains_purged h hstage hnow (hawake (by simp [hstage]))

theorem retains_start (hids : (captureIds (db .cap)).Nodup) :
    Retains db slack started (start db started) := by
  have hgiven : ∀ b, db b ++ (start db started).shared.logged b = db b := fun b => List.append_nil _
  refine ⟨⟨⟨db, inv_opened hids, fun b => ?_, fun b => ?_⟩,
    ⟨rfl, rfl, by simp [start, ConcurrentFlush.opened]⟩, .inl rfl, le_rfl⟩, ⟨rfl, ?_⟩, le_rfl⟩
  · rw [hgiven]
  · rw [hgiven]
  · dsimp only [start]
    linarith

theorem retains_run (hids : (captureIds (db .cap)).Nodup) {acts : List Act}
    (hrun : Run (GuardedStep slack) (start db started) acts s) : Retains db slack started s :=
  hrun.invariant (Retains db slack started) (fun _ _ _ hs => retains_step hs) (retains_start hids)

theorem content_of_retains (h : Retains db slack started s) (hidle : s.shared.pc .worker = .idle)
    (b : Buf) :
    (s.content b).Sublist (s.given db b) ∧
      b.within (b.since s.now) (s.content b) = b.within (b.since s.now) (s.given db b) := by
  obtain ⟨rows, hheld⟩ := h.held
  obtain ⟨hclean, hrows⟩ := content_of_inv hheld.inv (ended_of_idle hidle h.sole.closer)
  rw [content, hclean, hrows]
  exact ⟨hheld.sub b, hheld.young b⟩

/-- While the task runs, rows come in between any two of its steps and of those of its threads. As
long as no statement raises, each buffer has been read to its end when it is cleared and no two
captures share an id, whenever no flush is under way the tables and buffers hold rows that were
there or were logged since, in their order, and all of them that are within the days that their
table is kept for; and when the task has been up for more than a day and sleeps, none that is more
than a day older. -/
theorem retention_window (db : Buf → List Row) (slack started : ℚ)
    (hids : (captureIds (db .cap)).Nodup) (acts : List Act) (s : LoggerTask)
    (hrun : Run (GuardedStep slack) (start db started) acts s)
    (hidle : s.shared.pc .worker = .idle) :
    (∀ b, (s.content b).Sublist (s.given db b) ∧
      b.within (b.since s.now) (s.content b) = b.within (b.since s.now) (s.given db b)) ∧
    (s.stage = .sleeping → started + 86401 < s.checked → ∀ b, ∀ row ∈ s.content b,
      b.older (b.since s.checked - 86401 - 2 * slack - 1) row = false) := by
  have h := retains_run hids hrun
  refine ⟨content_of_retains h hidle, fun hstage hday b row hrow => ?_⟩
  have hhere := h.here
  rw [Here, hstage] at hhere
  have hlast := hhere.2
  obtain heq | ⟨-, hrecent⟩ := h.recent
  · rw [heq] at hlast
    linarith
  · obtain ⟨rows, hheld⟩ := h.held
    rw [content, (content_of_inv hheld.inv (ended_of_idle hidle h.sole.closer)).1] at hrow
    refine older_false_of_le ?_ (hrecent b row hrow)
    rw [Buf.since, Buf.since]
    linarith

def frameAt (arbId : Nat) (kernelTs : ℚ) : Row :=
  frameRow ⟨arbId, 0, [], false, none, kernelTs, 0⟩ false

def oldFrames : Buf → List Row
  | .frame => [frameAt 1 1759000000]
  | _ => []

def runs (n : ℕ) (time : ℚ) : List Act := List.replicate n (.run time)

/-- A frame comes in before the first flush and one while it reads that, and, a day later, one
between the statements of a purge. -/
def dayLater : List Act :=
  [.log .frame (frameAt 2 1760000000) 1760000000] ++ runs 3 1760000001 ++
    [.log .frame (frameAt 3 1760000001) 1760000001] ++ runs 11 1760000001 ++
    runs 12 1760090000 ++ [.log .frame (frameAt 4 1760090000) 1760090000] ++ runs 6 1760090001

def guardedStep (slack : ℚ) (s : LoggerTask) (a : Act) : Option LoggerTask :=
  if InTime slack s a ∧ Undisturbed s a then s.step a else none

theorem guardedStep_spec {a : Act} (h : guardedStep slack s a = some s') :
    GuardedStep slack s a s' := by
  rw [guardedStep] at h
  split_ifs at h with hguard
  exact ⟨h, hguard⟩

theorem retention_window_dayLater :
    ∃ s, dayLater.foldlM (guardedStep 60) (start oldFrames 1760000000) = some s ∧
      s.content .frame = [frameAt 2 1760000000, frameAt 3 1760000001, frameAt 4 1760090000] ∧
      (∀ b, (s.content b).Sublist (s.given oldFrames b) ∧
        b.within (b.since s.now) (s.content b) = b.within (b.since s.now) (s.given oldFrames b)) ∧
      ∀ b, ∀ row ∈ s.content b,
        b.older (b.since s.checked - 86401 - 2 * 60 - 1) row = false := by
  have hend : (dayLater.foldlM (guardedStep 60) (start oldFrames 1760000000)).map (fun s =>
      (s.shared.pc .worker, s.stage, s.content .frame, decide (1760000000 + 86401 < s.checked))) =
      some (.idle, .sleeping, [frameAt 2 1760000000, frameAt 3 1760000001, frameAt 4 1760090000],
        true) := by decide +kernel
  obtain ⟨s, hs, hpc⟩ := Option.map_eq_some_iff.mp hend
  simp only [Prod.mk.injEq, decide_eq_true_eq] at hpc
  obtain ⟨hidle, hstage, hframes, hday⟩ := hpc
  obtain ⟨hkept, hgone⟩ := retention_window oldFrames 60 1760000000 (by decide) dayLater s
    (run_of_foldlM (fun _ _ _ => guardedStep_spec) hs) hidle
  exact ⟨s, hs, hframes, hkept, hgone hstage hday⟩

end LoggerTask
end CanSniffer
