import CanSniffer.RingHistory
import CanSniffer.CorrelatorRuns

namespace CanSniffer

open Library.RingSlots Library.Trace Models Firmware PruShm RingHistory CorrelatorRuns

structure Pipeline where
  pru : Pru
  reader : PruShm
  session : Session

namespace Pipeline

/-- The server starts beside running firmware; `none` is the RuntimeError of `PruShm`. -/
def attach (pru : Pru) (nowNs : Int) : Option Pipeline :=
  (PruShm.init pru.shm nowNs).map fun reader => ⟨pru, reader, .init Correlator.defaultMaxDeltaNs⟩

inductive Act
  | capture (tFallNs : UInt64)
  | frame (msg : RawCanMessage)
  | poll (drainNs flushNs : Int)
  deriving DecidableEq

/-- The `drain` of a poll. The fuel is the number of unread events. -/
def drainAt (s : Pipeline) (drainNs : Int) : Drain :=
  drain (s.pru.shm.writeIdx.toNat - s.reader.readIdx) s.pru.shm drainNs s.reader

def ops (s : Pipeline) : Act → List Op
  | .capture _ => []
  | .frame msg => [.ingestFrame msg]
  | .poll drainNs flushNs => (s.drainAt drainNs).yielded.map .ingestPru ++ [.drainMatched flushNs]

def step (s : Pipeline) (a : Act) : Pipeline :=
  { pru := match a with
      | .capture tFallNs => s.pru.writeSof tFallNs
      | .frame _ | .poll _ _ => s.pru
    reader := match a with
      | .poll drainNs _ => (s.drainAt drainNs).reader
      | .capture _ | .frame _ => s.reader
    session := (s.ops a).foldl Session.step s.session }

def run (s : Pipeline) (acts : List Act) : Pipeline := acts.foldl step s

theorem run_cons (s : Pipeline) (a : Act) (acts : List Act) :
    s.run (a :: acts) = (s.step a).run acts := by
  rw [run, run, List.foldl_cons]

@[simp] theorem pru_step_frame (s : Pipeline) (msg : RawCanMessage) :
    (s.step (.frame msg)).pru = s.pru := by
  simp only [step]

@[simp] theorem reader_step_frame (s : Pipeline) (msg : RawCanMessage) :
    (s.step (.frame msg)).reader = s.reader := by
  simp only [step]

def opsFrom (s : Pipeline) : List Act → List Op
  | [] => []
  | a :: acts => s.ops a ++ (s.step a).opsFrom acts

theorem opsFrom_append (s : Pipeline) (acts acts' : List Act) :
    s.opsFrom (acts ++ acts') = s.opsFrom acts ++ (s.run acts).opsFrom acts' := by
  induction acts generalizing s with
  | nil => rfl
  | cons a acts ih => rw [List.cons_append, opsFrom, opsFrom, ih, List.append_assoc, run_cons]

theorem session_run (s : Pipeline) (acts : List Act) :
    (s.run acts).session = (s.opsFrom acts).foldl Session.step s.session := by
  induction acts generalizing s with
  | nil => rfl
  | cons a acts ih =>
    rw [opsFrom, List.foldl_append]
    exact ih (s.step a)

/-- The events that the firmware writes for the captures of a run. -/
def writes (seq : UInt16) : List Act → List PruEventT
  | [] => []
  | .capture tFallNs :: acts => ⟨evtSof, 0, seq, tFallNs, 0⟩ :: writes (seq + 1) acts
  | .frame _ :: acts | .poll _ _ :: acts => writes seq acts

def received (acts : List Act) : List RawCanMessage :=
  acts.filterMap fun
    | .frame msg => some msg
    | .capture _ | .poll _ _ => none

theorem frames_opsFrom (s : Pipeline) (acts : List Act) : frames (s.opsFrom acts) = received acts := by
  induction acts generalizing s with
  | nil => rfl
  | cons a acts ih =>
    rw [opsFrom, frames_append, ih]
    cases a with
    | capture tFallNs => rfl
    | frame msg => rfl
    | poll drainNs flushNs =>
      simp [ops, received, frames, List.filterMap_map, Function.comp_def, List.filterMap_cons,
        Op.frame?]

/-- The ring, seen from the reader, is the queue `unread` as far as its depth reaches. -/
structure Queued (unread : List PruEventT) (s : Pipeline) : Prop where
  sane : Sane ⟨s.pru.shm, s.reader⟩
  index : s.pru.shm.writeIdx.toNat = s.reader.readIdx + unread.length
  holds : Holds s.pru.shm.ring s.reader.readIdx unread
  sofs : ∀ e ∈ unread, e.type = evtSof

variable {unread : List PruEventT} {s : Pipeline}

theorem queued_attach {pru : Pru} {nowNs : Int} (h : attach pru nowNs = some s) :
    Queued [] s ∧ s.pru = pru ∧ s.session = .init Correlator.defaultMaxDeltaNs := by
  obtain ⟨reader, hinit, rfl⟩ := Option.map_eq_some_iff.mp h
  obtain ⟨hsane, hidx⟩ := init_sane hinit
  exact ⟨⟨hsane, by simp [hidx], holds_nil _ _, by simp⟩, rfl, rfl⟩

theorem queued_frame (h : Queued unread s) (msg : RawCanMessage) :
    Queued unread (s.step (.frame msg)) := by
  refine ⟨?_, ?_, ?_, h.sofs⟩
  · rw [pru_step_frame, reader_step_frame]
    exact h.sane
  · rw [pru_step_frame, reader_step_frame]
    exact h.index
  · rw [pru_step_frame, reader_step_frame]
    exact h.holds

theorem queued_capture (h : Queued unread s) (hw : s.pru.shm.writeIdx.toNat + 1 < 2 ^ 32)
    (tFallNs : UInt64) :
    Queued (unread ++ [⟨evtSof, 0, s.pru.seq, tFallNs, 0⟩]) (s.step (.capture tFallNs)) := by
  have hsane := write_sane h.sane .sof s.pru.seq tFallNs 0
  have hidx := h.index
  refine ⟨hsane, ?_, ?_, ?_⟩
  · simp only [step, Pru.writeSof, writeEvent_eq, UInt32.toNat_add, UInt32.reduceToNat,
      List.length_append, List.length_singleton]
    omega
  · have hput := holds_put h.holds ⟨evtSof, 0, s.pru.seq, tFallNs, 0⟩
    rw [← hidx] at hput
    simpa only [step, Pru.writeSof, writeEvent_eq] using hput
  · intro e he
    obtain hold | hnew := List.mem_append.mp he
    · exact h.sofs e hold
    · rw [List.mem_singleton.mp hnew]

def sofEvent (e : PruEventT) (off : Int) : PruEvent :=
  ⟨.sof, e.flags.toNat, e.seq.toNat, e.tFallNs.toNat + off, e.pulseNs.toNat⟩

theorem decodeEvent_sof {e : PruEventT} (h : e.type = evtSof) (off : Int) :
    decodeEvent e off = some (sofEvent e off) := by
  simp [decodeEvent, h, evtSof, PruEventType.ofValue?, sofEvent]

/-- A poll takes the whole queue, all of it with one offset. -/
theorem queued_drain (h : Queued unread s) (hroom : unread.length ≤ 256) (drainNs flushNs : Int) :
    (s.drainAt drainNs).yielded =
        unread.map (sofEvent · (s.reader.prepare s.pru.shm drainNs).epochOffsetNs) ∧
      Queued [] (s.step (.poll drainNs flushNs)) := by
  have hidx := h.index
  obtain ⟨-, hd⟩ := drain_of_le h.sane (by dsimp only; omega) drainNs
  have hsane := drain_catches_up (ended_of_exit hd)
  dsimp only at hd hsane
  rw [← drainAt] at hd hsane
  refine ⟨?_, hsane, ?_, holds_nil _ _, by simp⟩
  · rw [hd, show s.pru.shm.writeIdx.toNat - s.reader.readIdx = unread.length by omega]
    have hread := congrArg (List.filterMap fun e =>
      decodeEvent e (s.reader.prepare s.pru.shm drainNs).epochOffsetNs) (holds_read h.holds hroom)
    rw [List.filterMap_map] at hread
    apply hread.trans
    rw [← List.filterMap_eq_map]
    exact List.filterMap_congr fun e he => decodeEvent_sof (h.sofs e he) _
  · simp [step, hd]

theorem prepare_offset {p : PruShm} {shm : PruShmT} (hlt : p.readIdx < shm.writeIdx.toNat)
    (hlatest : 0 < latestPruNs shm) (nowNs : Int) :
    (p.prepare shm nowNs).epochOffsetNs = nowNs - latestPruNs shm := by
  have hsame : p.detectRestart shm nowNs = p := by
    rw [detectRestart]
    split_ifs
    · rfl
    · omega
    · rfl
  rw [prepare, hsame, recalibrate, if_pos (by omega)]
  dsimp only
  rw [if_pos hlatest]

theorem latest_eq (h : Queued unread s) {last : PruEventT} (hlast : unread.getLast? = some last) :
    latestPruNs s.pru.shm = last.tFallNs.toNat := by
  have hidx := h.index
  have hne : unread ≠ [] := by
    rintro rfl
    cases hlast
  have hpos := List.length_pos_of_ne_nil hne
  rw [List.getLast?_eq_getElem?] at hlast
  obtain ⟨hlt, hget⟩ := List.getElem?_eq_some_iff.mp hlast
  have hholds := h.holds (unread.length - 1) hlt (by omega)
  rw [latestPruNs, if_neg (by omega), unpackSlot_eq,
    show s.pru.shm.writeIdx.toNat - 1 = s.reader.readIdx + (unread.length - 1) by omega, hholds, hget]

end Pipeline
end CanSniffer
