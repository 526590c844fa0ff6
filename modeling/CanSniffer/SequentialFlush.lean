import CanSniffer.ConcurrentFlush
import CanSniffer.FlushFailure

namespace CanSniffer.SequentialFlush

open Library.Trace Models DiagLogger ConcurrentFlush

/-- Steps of one thread with none of the others in between. -/
def Alone (t : Flusher) : Shared → Shared → Prop :=
  Relation.ReflTransGen fun s s' => s.advance t = some s'

/-- A thread at a point of `_flush`, beside whatever the others hold. -/
def stateAt (p : Flusher → Pc) (logged : Buf → List Row) (t : Flusher) (l : DiagLogger) (pc : Pc) :
    Shared :=
  ⟨l, Function.update p t pc, logged⟩

variable {p : Flusher → Pc} {logged : Buf → List Row} {t : Flusher}

theorem alone_step {l : DiagLogger} {pc : Pc} {s s' : Shared} (hl : l.connected = true)
    (hstep : Advance (stateAt p logged t l pc) t s) (hrest : Alone t s s') :
    Alone t (stateAt p logged t l pc) s' :=
  .head (advance_iff.mpr ⟨hl, hstep⟩) hrest

@[simp] theorem pc_stateAt (l : DiagLogger) (pc : Pc) : (stateAt p logged t l pc).pc t = pc :=
  Function.update_self ..

@[simp] theorem goto_stateAt (l : DiagLogger) (pc pc' : Pc) :
    (stateAt p logged t l pc).goto t pc' = stateAt p logged t l pc' := by
  simp [stateAt, Shared.goto]

theorem alone_executemany (l : DiagLogger) (hl : l.connected = true) (b : Buf) (bs : List Buf)
    (rest before : List Row) (hrows : l.buffers b = before ++ rest) (table : List Row)
    (hmany : executemany (fun _ _ => false) b rest (l.working b) = some table) :
    Alone t (stateAt p logged t l (.insert b before.length bs))
      (stateAt p logged t { l with working := Function.update l.working b table }
        (.clear b (l.buffers b).length bs)) := by
  induction rest generalizing l before with
  | nil =>
    cases hmany
    rw [Function.update_eq_self, hrows, List.append_nil]
    refine alone_step hl (.exhaust b before.length bs (pc_stateAt ..) ?_) ?_
    · simp [stateAt, hrows]
    · rw [goto_stateAt]
      exact .refl
  | cons row rest ih =>
    rw [executemany, List.foldlM_cons] at hmany
    obtain ⟨table', hrow, hmany⟩ := Option.bind_eq_some_iff.mp hmany
    rw [execute] at hrow
    split_ifs at hrow with hbinds
    cases hrow
    refine alone_step hl (.read b before.length bs row (pc_stateAt ..) ?_ hbinds.1) ?_
    · simp [stateAt, hrows]
    · have hih := ih { l with
        working := Function.update l.working b (b.insert row (l.working b)) } hl
        (before ++ [row]) (by simpa using hrows) (by simpa [executemany] using hmany)
      simpa [stateAt, Shared.insert, Shared.goto] using hih

theorem alone_flushBufs (bs : List Buf) (l l' : DiagLogger) (hl : l.connected = true)
    (hflush : flushBufs (fun _ _ => false) bs l = (l', none)) :
    Alone t (stateAt p logged t l (.test bs)) (stateAt p logged t l' (.test [])) := by
  induction bs generalizing l with
  | nil =>
    cases hflush
    exact .refl
  | cons b bs ih =>
    rw [flushBufs] at hflush
    split_ifs at hflush with hempty
    · apply alone_step hl (.skip b bs (pc_stateAt ..) hempty)
      rw [goto_stateAt]
      exact ih l hl hflush
    · apply alone_step hl (.enter b bs (pc_stateAt ..) hempty)
      rw [goto_stateAt]
      cases hmany : executemany (fun _ _ => false) b (l.buffers b) (l.working b) with
      | none =>
        rw [hmany] at hflush
        cases hflush
      | some table =>
        rw [hmany] at hflush
        apply (alone_executemany l hl b bs (l.buffers b) [] rfl table hmany).trans
        refine alone_step hl (.clear b _ bs (pc_stateAt ..)) ?_
        have hih := ih { l with
          working := Function.update l.working b table
          buffers := Function.update l.buffers b [] } hl hflush
        simpa [stateAt, Shared.clear, Shared.goto] using hih

theorem connected_flushBufs (refuses : Buf → Row → Bool) (bs : List Buf) (l : DiagLogger) :
    (flushBufs refuses bs l).1.connected = l.connected := by
  induction bs generalizing l with
  | nil => rfl
  | cons b bs ih =>
    rw [flushBufs]
    split
    · exact ih l
    · split
      · rfl
      · exact ih _

/-- The steps of a thread that nothing interrupts are the calls of `_flush`. -/
theorem alone_flush (l : DiagLogger) (hl : l.connected = true)
    (hok : (flush (fun _ _ => false) l).2 = none) :
    Alone t (stateAt p logged t l .idle)
      (stateAt p logged t (flush (fun _ _ => false) l).1 t.afterFlush) := by
  apply alone_step hl (.start (pc_stateAt ..))
  rw [goto_stateAt]
  have hconn := connected_flushBufs (fun _ _ => false) Buf.flushOrder l
  rw [flush] at hok ⊢
  rw [if_pos hl] at hok ⊢
  cases hbufs : flushBufs (fun _ _ => false) Buf.flushOrder l with
  | mk l' raised =>
    rw [hbufs] at hok hconn
    cases raised with
    | some b => cases hok
    | none =>
      apply (alone_flushBufs Buf.flushOrder l l' hl hbufs).trans
      apply alone_step (hconn.trans hl) (.commit (pc_stateAt ..))
      simp only [stateAt, Shared.commit, Shared.goto, Function.update_idem]
      exact .refl

section

variable {refuses : Buf → Row → Bool} {b : Buf}

theorem executemany_eq {rows table table' : List Row}
    (h : executemany refuses b rows table = some table')
    (hids : b = .cap → (captureIds (table ++ rows)).Nodup) : table' = table ++ rows := by
  induction rows generalizing table with
  | nil =>
    cases h
    exact (List.append_nil _).symm
  | cons row rows ih =>
    rw [executemany, List.foldlM_cons] at h
    obtain ⟨next, hrow, hrest⟩ := Option.bind_eq_some_iff.mp h
    rw [execute] at hrow
    split_ifs at hrow
    cases hrow
    have hfresh : b.insert row table = table ++ [row] := by
      apply insert_of_fresh
      intro hcap hmem
      have hnodup := hids hcap
      rw [captureIds, List.map_append, List.map_cons] at hnodup
      exact List.disjoint_of_nodup_append hnodup hmem List.mem_cons_self
    rw [hfresh] at hrest
    rw [List.append_cons] at hids ⊢
    exact ih hrest hids

theorem flushBufs_eq (bs : List Buf) (hbs : bs.Nodup)
    {l l' : DiagLogger} (h : flushBufs refuses bs l = (l', none))
    (hids : (captureIds (l.working .cap ++ l.buffers .cap)).Nodup) (b : Buf) :
    l'.working b ++ l'.buffers b = l.working b ++ l.buffers b ∧
      l'.buffers b = (if b ∈ bs then [] else l.buffers b) ∧ l'.connected = l.connected := by
  induction bs generalizing l with
  | nil =>
    cases h
    exact ⟨rfl, by simp, rfl⟩
  | cons c bs ih =>
    obtain ⟨hc, hrest⟩ := List.nodup_cons.mp hbs
    rw [flushBufs] at h
    split_ifs at h with hempty
    · obtain ⟨hsame, hbuf, hconn⟩ := ih hrest h hids
      refine ⟨hsame, ?_, hconn⟩
      rw [hbuf]
      by_cases hbc : b = c
      · subst hbc
        simp [hempty]
      · simp [hbc]
    · cases hmany : executemany refuses c (l.buffers c) (l.working c) with
      | none =>
        rw [hmany] at h
        cases h
      | some table =>
        rw [hmany] at h
        have htable : table = l.working c ++ l.buffers c := by
          apply executemany_eq hmany
          rintro rfl
          exact hids
        have hids' : (captureIds (Function.update l.working c table .cap ++
            Function.update l.buffers c [] .cap)).Nodup := by
          by_cases hcap : c = .cap
          · subst hcap
            rw [Function.update_self, Function.update_self, List.append_nil, htable]
            exact hids
          · rw [Function.update_of_ne (Ne.symm hcap), Function.update_of_ne (Ne.symm hcap)]
            exact hids
        obtain ⟨hsame, hbuf, hconn⟩ := ih hrest h hids'
        refine ⟨?_, ?_, hconn⟩
        · rw [hsame]
          by_cases hbc : b = c
          · subst hbc
            simp [htable]
          · simp [hbc]
        · rw [hbuf]
          by_cases hbc : b = c
          · subst hbc
            simp
          · simp [hbc]

theorem flushBufs_of_binds (bs : List Buf) (l : DiagLogger)
    (hbinds : ∀ b, ∀ row ∈ l.buffers b, b.Binds row) :
    (flushBufs (fun _ _ => false) bs l).2 = none := by
  induction bs generalizing l with
  | nil => rfl
  | cons c bs ih =>
    rw [flushBufs]
    split
    · exact ih l hbinds
    · split
      · rename_i hmany
        obtain ⟨row, hrow, hraise⟩ := (FlushFailure.executemany_eq_none_iff c _ _).mp hmany
        simp [hbinds c row hrow] at hraise
      · refine ih _ fun d row hrow => hbinds d row ?_
        by_cases hd : d = c
        · subst hd
          simp at hrow
        · simpa [hd] using hrow

end

theorem stateAt_self {s : Shared} {pc : Pc} (hpc : s.pc t = pc) :
    stateAt s.pc s.logged t s.logger pc = s := by
  subst hpc
  simp [stateAt]

/-- Between flushes, however the logger came there, a flush that nothing interrupts and whose rows
all bind leaves the database with what was in it and every row logged since, in their order, and the
buffers empty; and it does what the call of `_flush` does in one go. -/
theorem alone_flush_writes_all (db : Buf → List Row) (hids : (captureIds (db .cap)).Nodup)
    (moves : List Move) (s : Shared) (hrun : Run GuardedStep (opened db) moves s)
    (hended : ∀ u, (s.pc u).Ended) (t : Flusher) (hidle : s.pc t = .idle)
    (hconn : s.logger.connected = true) (hbinds : ∀ b, ∀ row ∈ s.logger.buffers b, b.Binds row) :
    ∃ s', Alone t s s' ∧ s'.pc t = t.afterFlush ∧
      s'.logger = (flush (fun _ _ => false) s.logger).1 ∧
      ∀ b, s'.logger.committed b = db b ++ s.logged b ∧ s'.logger.buffers b = [] := by
  have hinv := inv_run hids hrun
  have hrows := (content_of_inv hinv hended).2
  have hok := flushBufs_of_binds Buf.flushOrder s.logger hbinds
  cases hbufs : flushBufs (fun _ _ => false) Buf.flushOrder s.logger with
  | mk l raised =>
    rw [hbufs] at hok
    dsimp only at hok
    subst hok
    have hflush : flush (fun _ _ => false) s.logger = ({ l with committed := l.working }, none) := by
      rw [flush, if_pos hconn, hbufs]
    have halone : Alone t (stateAt s.pc s.logged t s.logger .idle)
        (stateAt s.pc s.logged t (flush (fun _ _ => false) s.logger).1 t.afterFlush) :=
      alone_flush s.logger hconn (by rw [hflush])
    rw [stateAt_self hidle] at halone
    refine ⟨_, halone, pc_stateAt .., rfl, fun b => ?_⟩
    have hnodup : (captureIds (s.logger.working .cap ++ s.logger.buffers .cap)).Nodup := by
      rw [hrows]
      exact hinv.ids
    obtain ⟨hsame, hbuf, -⟩ := flushBufs_eq Buf.flushOrder (by decide) hbufs hnodup b
    rw [if_pos (Buf.mem_flushOrder b)] at hbuf
    rw [hbuf, List.append_nil, hrows] at hsame
    rw [stateAt, hflush]
    exact ⟨hsame, hbuf⟩

def flushedThenLogged : List Move :=
  [.log .frame (sampleRow 1)] ++ List.replicate 12 (.run .worker) ++
    [.log .frame (sampleRow 2), .log .frame (sampleRow 3)]

theorem alone_flush_flushedThenLogged :
    ∃ s s', flushedThenLogged.foldlM guardedAdvance (opened fun _ => []) = some s ∧
      s.logger.buffers .frame = [sampleRow 2, sampleRow 3] ∧ Alone .worker s s' ∧
      s'.pc .worker = .idle ∧ s'.logger = (flush (fun _ _ => false) s.logger).1 ∧
      ∀ b, s'.logger.committed b = [] ++ s.logged b ∧ s'.logger.buffers b = [] := by
  have hend : (flushedThenLogged.foldlM guardedAdvance (opened fun _ => [])).map (fun s =>
      ((s.pc .worker, s.pc .closer, s.logger.connected), s.logger.buffers .frame,
        Buf.flushOrder.all fun b => (s.logger.buffers b).all fun row => decide (b.Binds row))) =
      some ((.idle, .idle, true), [sampleRow 2, sampleRow 3], true) := by decide +kernel
  obtain ⟨s, hs, hpc⟩ := Option.map_eq_some_iff.mp hend
  simp only [Prod.mk.injEq, List.all_eq_true, decide_eq_true_eq] at hpc
  obtain ⟨⟨hworker, hcloser, hconn⟩, hrows, hbinds⟩ := hpc
  obtain ⟨s', halone, hpc, hflush, hall⟩ := alone_flush_writes_all (fun _ => []) (by decide)
    flushedThenLogged s (run_of_guardedAdvance hs) (ended_of_idle hworker hcloser) .worker hworker
    hconn fun b row hrow => hbinds b (Buf.mem_flushOrder b) row hrow
  exact ⟨s, s', hs, hrows, halone, hpc, hflush, hall⟩

end CanSniffer.SequentialFlush
