import CanSniffer.Models

namespace CanSniffer

open Models

inductive SqlValue
  | null
  | integer (n : Int)
  | real (x : ℚ)
  | text (s : String)
  | blob (bytes : List UInt8)
  deriving DecidableEq

namespace SqlValue

def Fits : SqlValue → Prop
  | integer n => -2 ^ 63 ≤ n ∧ n < 2 ^ 63
  | null | real _ | text _ | blob _ => True

instance : (v : SqlValue) → Decidable v.Fits
  | integer _ => inferInstanceAs (Decidable (_ ∧ _))
  | null | real _ | text _ | blob _ => instDecidableTrue

def ofOption {α : Type} (f : α → SqlValue) : Option α → SqlValue
  | some a => f a
  | none => null

def ofBool (b : Bool) : SqlValue := integer (if b then 1 else 0)

end SqlValue

abbrev Row := List SqlValue

/-- The buffers of `DiagLogger`, each with the table it is flushed to. -/
inductive Buf
  | frame | error | pru | alert | busst | cap | ann
  deriving DecidableEq

namespace Buf

def columns : Buf → List String
  | frame => ["ts", "can_id", "is_extended", "dlc", "data", "pru_ts_ns", "is_aborted"]
  | error => ["ts", "error_class", "error_data", "tec", "rec", "bus_state"]
  | pru => ["ts", "event_type", "pru_ts_ns", "pulse_ns", "matched"]
  | alert => ["ts", "severity", "category", "can_id", "signal_name", "detail", "resolved",
      "resolved_ts"]
  | busst => ["ts", "tec", "rec", "state"]
  | cap => ["id", "trigger_ts", "condition_type", "frame_count", "data"]
  | ann => ["kernel_ts", "arb_id", "note", "created_ts"]

def flushOrder : List Buf := [frame, error, pru, alert, busst, cap, ann]

theorem mem_flushOrder (b : Buf) : b ∈ flushOrder := by
  cases b <;> decide

/-- What binding the values of a row to the placeholders of the INSERT asks for. -/
def Binds (b : Buf) (row : Row) : Prop := row.length = b.columns.length ∧ ∀ v ∈ row, v.Fits

instance (b : Buf) (row : Row) : Decidable (b.Binds row) := inferInstanceAs (Decidable (_ ∧ _))

/-- `captures` is written with INSERT OR REPLACE on its first column, the other tables get
a new key for each row. -/
def insert : Buf → Row → List Row → List Row
  | cap, row, table => table.filter (·.head? ≠ row.head?) ++ [row]
  | _, row, table => table ++ [row]

end Buf

/-- The buffers, and the database as the open transaction and as another connection sees
it. -/
structure DiagLogger where
  connected : Bool
  buffers : Buf → List Row
  working : Buf → List Row
  committed : Buf → List Row

namespace DiagLogger

/-- A logger that was just opened on a database. -/
def opened (db : Buf → List Row) : DiagLogger := ⟨true, fun _ => [], db, db⟩

def append (l : DiagLogger) (b : Buf) (row : Row) : DiagLogger :=
  { l with buffers := Function.update l.buffers b (l.buffers b ++ [row]) }

def frameRow (frame : EnrichedFrame) (isAborted : Bool) : Row :=
  [.real frame.kernelTs, .integer frame.arbId, .ofBool frame.isExtended, .integer frame.dlc,
    .blob frame.data, .ofOption .integer frame.pruTsNs, .ofBool isAborted]

def logFrame (l : DiagLogger) (frame : EnrichedFrame) (isAborted : Bool := false) : DiagLogger :=
  l.append .frame (frameRow frame isAborted)

def errorRow (err : ErrorEvent) (busState : Option String) : Row :=
  [.real err.ts, .integer err.errorClass, .blob err.rawData,
    .ofOption (fun n : Nat => .integer n) err.tec, .ofOption (fun n : Nat => .integer n) err.recCount,
    .ofOption .text busState]

def logError (l : DiagLogger) (err : ErrorEvent) (busState : Option String := none) : DiagLogger :=
  l.append .error (errorRow err busState)

def pruRow (event : PruEvent) (now : ℚ) (isMatched : Bool) : Row :=
  [.real now, .integer event.type.value, .integer event.tFallNs,
    if event.type ≠ .sof then .integer event.pulseNs else .null, .ofBool isMatched]

def logPruEvent (l : DiagLogger) (event : PruEvent) (now : ℚ) (isMatched : Bool := false) :
    DiagLogger :=
  l.append .pru (pruRow event now isMatched)

def alertRow (alert : Alert) : Row :=
  [.real alert.ts, .text alert.severity.value, .text alert.category.value,
    .ofOption .integer alert.canId, .ofOption .text alert.signalName,
    .text alert.msg, .ofBool alert.resolved, .ofOption .real alert.resolvedTs]

def logAlert (l : DiagLogger) (alert : Alert) : DiagLogger := l.append .alert (alertRow alert)

def logBusState (l : DiagLogger) (tec recCount : Nat) (state : String) (now : ℚ) : DiagLogger :=
  l.append .busst [.real now, .integer tec, .integer recCount, .text state]

/-- The dictionary of a capture; each frame is the JSON text of its own dictionary. -/
structure CaptureDict where
  id : String
  triggerTs : ℚ
  conditionType : String
  frameCount : Nat
  preFrames : List String
  postFrames : List String

/-- `json.dumps` of the dictionary with the keys `pre` and `post`. -/
def dumpFrames (pre post : List String) : String :=
  "\x7b\"pre\": [" ++ ", ".intercalate pre ++ "], \"post\": [" ++ ", ".intercalate post ++ "]\x7d"

def captureRow (session : CaptureDict) : Row :=
  [.text session.id, .real session.triggerTs, .text session.conditionType,
    .integer session.frameCount, .text (dumpFrames session.preFrames session.postFrames)]

def logCapture (l : DiagLogger) (session : CaptureDict) : DiagLogger :=
  l.append .cap (captureRow session)

def annotationRow (kernelTs : ℚ) (arbId : Int) (note : String) (now : ℚ) : Row :=
  [.real kernelTs, .integer arbId, .text note, .real now]

def logAnnotation (l : DiagLogger) (kernelTs : ℚ) (arbId : Int) (note : String) (now : ℚ) :
    DiagLogger :=
  l.append .ann (annotationRow kernelTs arbId note now)

section

variable (refuses : Buf → Row → Bool)

/-- One row of an `executemany`; `none` is an exception, from binding the values or from
SQLite. -/
def execute (b : Buf) (table : List Row) (row : Row) : Option (List Row) :=
  if b.Binds row ∧ refuses b row = false then some (b.insert row table) else none

def executemany (b : Buf) (rows : List Row) (table : List Row) : Option (List Row) :=
  rows.foldlM (execute refuses b) table

/-- The body of the transaction, over the buffers still to do. The second component is
the buffer whose `executemany` raised. -/
def flushBufs : List Buf → DiagLogger → DiagLogger × Option Buf
  | [], l => (l, none)
  | b :: bs, l =>
    if l.buffers b = [] then flushBufs bs l
    else
      match executemany refuses b (l.buffers b) (l.working b) with
      | none => (l, some b)
      | some table =>
        flushBufs bs { l with
          working := Function.update l.working b table
          buffers := Function.update l.buffers b [] }

/-- `with conn` commits at the end and rolls back on an exception, which it raises again. -/
def flush (l : DiagLogger) : DiagLogger × Option Buf :=
  if l.connected then
    match flushBufs refuses Buf.flushOrder l with
    | (l', none) => ({ l' with committed := l'.working }, none)
    | (l', some b) => ({ l' with working := l'.committed }, some b)
  else (l, none)

end

end DiagLogger
end CanSniffer
