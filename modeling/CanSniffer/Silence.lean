import CanSniffer.Babbling
import CanSniffer.MonitorSafety

namespace CanSniffer.Silence

open Library Library.PyText Models BehavioralMonitor MonitorSafety Babbling

/-- How overdue a message is that was last received at `since`, in cycles. -/
def overdueRatio (cycle : PyNumber) (since now : ℚ) : Option ℚ := do
  Binary64.div? (Binary64.sub now since) (Binary64.div (← cycle.toFloat?) 1000)

def verdict (ratio : ℚ) : List AlertCategory :=
  if overdueWarn < ratio then [.missingMsg]
  else if overdueInfo < ratio then [.missingMsgTransient]
  else []

/-- What a check reports of a message that was last received at `since`. -/
def due (cycleTime : Option PyNumber) (since now : ℚ) : List AlertCategory :=
  ((cycleTime.bind fun cycle => overdueRatio cycle since now).map verdict).getD []

def reportOf (now : ℚ) (state : MessageState) : List AlertCategory :=
  if state.isKnown then due state.cycleTimeMs state.lastRxTime now else []

def reported (m : BehavioralMonitor) (now : ℚ) (wall : Nat → ℚ) (id : Nat) : List AlertCategory :=
  (((m.checkTimeouts now wall).1.pendingAlerts.drop m.pendingAlerts.length).filter
    (·.canId = some (id : Int))).map Alert.category

variable {db : Database} {m m' : BehavioralMonitor} {now : ℚ} {wall : Nat → ℚ} {id : Nat}
  {state : MessageState} {msg : Message}

def From (now : ℚ) (state : MessageState) (alerts : List Alert) : Prop :=
  alerts.map (fun a => (a.category, a.canId)) =
    (reportOf now state).map (·, some (state.canId : Int))

theorem checkTimeout_from (h : checkTimeout now wall m state = some m') :
    ∃ alerts, From now state alerts ∧
      m' = { m with pendingAlerts := m.pendingAlerts ++ alerts } := by
  rw [checkTimeout] at h
  cases hcycle : state.cycleTimeMs with
  | none =>
    rw [hcycle] at h
    cases h
    exact ⟨[], by simp [From, reportOf, due, hcycle], by simp⟩
  | some cycle =>
    cases hknown : state.isKnown with
    | false =>
      rw [hcycle, hknown] at h
      cases h
      exact ⟨[], by simp [From, reportOf, hknown], by simp⟩
    | true =>
      rw [hcycle, hknown] at h
      obtain ⟨cycleMs, hms, h⟩ := Option.bind_eq_some_iff.mp h
      obtain ⟨ratio, hratio, h⟩ := Option.bind_eq_some_iff.mp h
      have hreport : reportOf now state = verdict ratio := by
        simp [reportOf, hknown, due, hcycle, overdueRatio, hms, hratio]
      split_ifs at h with hwarn hinfo
      · cases h
        refine ⟨_, ?_, rfl⟩
        rw [From, hreport, verdict, if_pos hwarn]
        rfl
      · cases h
        refine ⟨_, ?_, rfl⟩
        rw [From, hreport, verdict, if_neg hwarn, if_pos hinfo]
        rfl
      · cases h
        refine ⟨[], ?_, by simp⟩
        rw [From, hreport, verdict, if_neg hwarn, if_neg hinfo]
        rfl

theorem checkTimeouts_from (states : List MessageState) (m : BehavioralMonitor)
    (h : (ForLoop.tryFold (checkTimeout now wall) m states).2 = false) :
    ∃ alerts, (ForLoop.tryFold (checkTimeout now wall) m states).1.pendingAlerts =
        m.pendingAlerts ++ alerts ∧
      alerts.map (fun a => (a.category, a.canId)) = states.flatMap fun state =>
        (reportOf now state).map (·, some (state.canId : Int)) := by
  induction states generalizing m with
  | nil => exact ⟨[], (List.append_nil _).symm, rfl⟩
  | cons state states ih =>
    rw [ForLoop.tryFold] at h ⊢
    cases hpass : checkTimeout now wall m state with
    | none =>
      rw [hpass] at h
      cases h
    | some m' =>
      rw [hpass] at h
      obtain ⟨first, hfirst, rfl⟩ := checkTimeout_from hpass
      obtain ⟨rest, hpending, hrest⟩ := ih _ h
      refine ⟨first ++ rest, ?_, ?_⟩
      · dsimp only
        rw [hpending, List.append_assoc]
      · rw [List.map_append, hfirst, hrest, List.flatMap_cons]

theorem filter_marks {alerts : List Alert} {marks : List (AlertCategory × Option Int)}
    (h : alerts.map (fun a => (a.category, a.canId)) = marks) (id : Nat) :
    (alerts.filter (·.canId = some (id : Int))).map Alert.category =
      (marks.filter (·.2 = some (id : Int))).map Prod.fst := by
  rw [← h, List.filter_map, List.map_map]
  rfl

theorem filter_reports (states : List MessageState) (id : Nat) :
    ((states.flatMap fun state => (reportOf now state).map (·, some (state.canId : Int))).filter
        (·.2 = some (id : Int))).map Prod.fst =
      (states.filter (·.canId = id)).flatMap (reportOf now) := by
  induction states with
  | nil => rfl
  | cons state states ih =>
    rw [List.flatMap_cons, List.filter_append, List.map_append, ih, List.filter_cons]
    by_cases hid : state.canId = id
    · simp [hid, List.filter_map, Function.comp_def]
    · simp [hid, List.filter_map, Function.comp_def]

theorem canId_of_mem (hm : Knows db m) {p : Nat × MessageState} (hp : p ∈ m.states.items) :
    p.2.canId = p.1 := by
  have hinfo : m.info p.1 = some p.2.toMessageInfo := by
    rw [info, PyDict.get?_eq_some_iff.mpr hp]
    rfl
  cases hreg : db.registered p.1 with
  | none => exact (hm.unknown hreg hinfo).1
  | some msg =>
    rw [hm.registered hreg] at hinfo
    exact (congrArg MessageInfo.canId (Option.some.inj hinfo)).symm.trans (registered_id hreg)

theorem cycle_of_mem (hm : Knows db m) (hstate : state ∈ m.states.values) {cycle : PyNumber}
    (hcycle : state.cycleTimeMs = some cycle) :
    ∃ id msg, db.registered id = some msg ∧ msg.cycleTime = some cycle := by
  obtain ⟨p, hp, rfl⟩ := List.mem_map.mp hstate
  have hinfo : m.info p.1 = some p.2.toMessageInfo := by
    rw [info, PyDict.get?_eq_some_iff.mpr hp]
    rfl
  cases hreg : db.registered p.1 with
  | none =>
    rw [(hm.unknown hreg hinfo).2.1] at hcycle
    cases hcycle
  | some msg =>
    rw [hm.registered hreg, Option.some_inj] at hinfo
    exact ⟨p.1, msg, hreg, (congrArg MessageInfo.cycleTimeMs hinfo).trans hcycle⟩

theorem reported_eq (hm : Knows db m) (hraised : (m.checkTimeouts now wall).2 = false) (id : Nat) :
    reported m now wall id = (m.states.get? id).toList.flatMap (reportOf now) := by
  obtain ⟨alerts, hpending, hmarks⟩ := checkTimeouts_from m.states.values m hraised
  rw [reported, checkTimeouts, hpending, List.drop_left, filter_marks hmarks, filter_reports,
    PyDict.filter_values (fun p hp => canId_of_mem hm hp)]

theorem boot_of_registered (db : Database) (boot : Nat → ℚ) (hreg : db.registered id = some msg) :
    ∃ i, db.messages[i]? = some msg ∧
      (init db boot).states.get? id = some { msg.info with lastRxTime := boot i } := by
  rw [Database.registered] at hreg
  rw [init]
  dsimp only
  generalize db.messages = messages at hreg
  induction messages using List.reverseRecOn with
  | nil => cases hreg
  | append_singleton messages last ih =>
    rw [registered_concat] at hreg
    rw [initKnownIds, List.zipIdx_append, List.foldl_append]
    rw [initKnownIds] at ih
    by_cases hid : last.frameId = id
    · rw [if_pos hid, Option.some_inj] at hreg
      subst hreg hid
      exact ⟨messages.length, by simp, by simp [PyDict.get?_set]⟩
    · rw [if_neg hid] at hreg
      obtain ⟨i, hi, hget⟩ := ih hreg
      refine ⟨i, ?_, ?_⟩
      · rw [List.getElem?_append_left (List.getElem?_eq_some_iff.mp hi).1, hi]
      · simpa [PyDict.get?_set, Function.update_of_ne (Ne.symm hid)] using hget

/-- When the last frame of the identifier was received. -/
def lastHeard (id : Nat) (booted : ℚ) (calls : List Call) : ℚ :=
  (arrivals id calls).getLast?.getD booted

theorem lastHeard_concat (id : Nat) (booted : ℚ) (calls : List Call) (c : Call) :
    lastHeard id booted (calls ++ [c]) = (arrival id c).getD (lastHeard id booted calls) := by
  rw [lastHeard, arrivals, List.filterMap_append]
  cases hc : arrival id c <;> simp [lastHeard, arrivals, hc]

theorem heard_step {s : Session} {t : ℚ}
    (h : (s.monitor.states.get? id).map MessageState.lastRxTime = some t) (c : Call) :
    ((s.step c).monitor.states.get? id).map MessageState.lastRxTime =
      some ((arrival id c).getD t) := by
  cases c with
  | ingest frame now wall =>
    obtain ⟨signals, alerts, hget, -⟩ := ingest_spec s.monitor frame now wall
    change ((s.monitor.ingest frame now wall).1.states.get? id).map _ = _
    rw [hget, arrival]
    by_cases hid : frame.arbId = id
    · subst hid
      rw [Function.update_self, if_pos rfl]
      rfl
    · rw [Function.update_of_ne (Ne.symm hid), if_neg hid]
      exact h
  | checkTimeouts now wall =>
    have hposts := checkTimeouts_posts s.monitor now wall
    change ((s.monitor.checkTimeouts now wall).1.states.get? id).map _ = _
    rw [hposts.states_eq]
    exact h
  | periodicMessageStatus now => exact h
  | drainAlerts => exact h

theorem heard_run {s : Session} {booted : ℚ}
    (h : (s.monitor.states.get? id).map MessageState.lastRxTime = some booted)
    (calls : List Call) :
    ((s.run calls).monitor.states.get? id).map MessageState.lastRxTime =
      some (lastHeard id booted calls) := by
  induction calls using List.reverseRecOn with
  | nil => exact h
  | append_singleton calls c ih =>
    rw [Session.run_concat, lastHeard_concat]
    exact heard_step ih c

def entryOf (now : ℚ) (state : MessageState) : Option PeriodicStatus :=
  (periodicStatus now state).getD none

theorem status_eq (h : ∀ state ∈ m.states.values, (periodicStatus now state).isSome) :
    m.periodicMessageStatus now = some (m.states.values.filterMap (entryOf now)) := by
  have hall : ∀ state ∈ m.states.values,
      periodicStatus now state = some (entryOf now state) := by
    intro state hstate
    obtain ⟨entry, hentry⟩ := Option.isSome_iff_exists.mp (h state hstate)
    rw [entryOf, hentry]
    rfl
  rw [periodicMessageStatus, ForLoop.mapM_eq_some_map hall, Option.map_some, List.filterMap_map]
  rfl

theorem id_entryOf {entry : PeriodicStatus} (h : entryOf now state = some entry) :
    entry.id = "0x" ++ hexUpper 0 state.canId := by
  rw [entryOf, periodicStatus] at h
  cases hcycle : state.cycleTimeMs with
  | none =>
    rw [hcycle] at h
    cases h
  | some cycle =>
    rw [hcycle] at h
    dsimp only at h
    split_ifs at h
    · cases h
    · cases hms : cycle.toFloat? with
      | none =>
        rw [hms] at h
        cases h
      | some cycleMs =>
        rw [hms] at h
        cases h
        rfl

theorem hexId_inj {a b : Nat} (h : "0x" ++ hexUpper 0 a = "0x" ++ hexUpper 0 b) : a = b := by
  have hdigits : hexUpper 0 a = hexUpper 0 b := by
    rw [← String.toList_inj] at h ⊢
    simpa using h
  have hread := readHex_hexUpper 0 a
  rw [hdigits, readHex_hexUpper] at hread
  cases hread
  rfl

theorem filter_entries (states : List MessageState) (now : ℚ) (id : Nat) :
    (states.filterMap (entryOf now)).filter (·.id = "0x" ++ hexUpper 0 id) =
      (states.filter (·.canId = id)).filterMap (entryOf now) := by
  induction states with
  | nil => rfl
  | cons state states ih =>
    rw [List.filterMap_cons, List.filter_cons]
    cases hentry : entryOf now state with
    | none =>
      dsimp only
      rw [ih]
      split_ifs
      · rw [List.filterMap_cons, hentry]
      · rfl
    | some entry =>
      have hid : entry.id = "0x" ++ hexUpper 0 id ↔ state.canId = id := by
        rw [id_entryOf hentry]
        exact ⟨hexId_inj, fun h => by rw [h]⟩
      dsimp only
      rw [List.filter_cons, ih]
      by_cases hcan : state.canId = id
      · rw [if_pos (by simpa using hid.mpr hcan), if_pos (by simpa using hcan), List.filterMap_cons,
          hentry]
      · rw [if_neg (by simpa using fun h => hcan (hid.mp h)), if_neg (by simpa using hcan)]

def Dividable (db : Database) : Prop :=
  ∀ id msg cycle, db.registered id = some msg → msg.cycleTime = some cycle → Usable cycle

/-- In every run, a check reports a message of the database exactly by the time since its last
frame, or since the start if none has come: as missing once that is over two cycles, as a missed
cycle once it is over one and a half, and an identifier that is not in the database never. The
list of periodic messages has one entry for it, with the same time. -/
theorem silence_reported (hdb : Dividable db) (boot : Nat → ℚ) (id : Nat) :
    (db.registered id = none → ∀ calls now wall,
      reported ((start db boot).run calls).monitor now wall id = []) ∧
    ∀ msg, db.registered id = some msg → ∃ i, db.messages[i]? = some msg ∧
      ∀ calls now wall,
        let m := ((start db boot).run calls).monitor
        let heard := lastHeard id (boot i) calls
        reported m now wall id = due msg.cycleTime heard now ∧
        ∃ entries, m.periodicMessageStatus now = some entries ∧
          entries.filter (·.id = "0x" ++ hexUpper 0 id) =
            (entryOf now { msg.info with lastRxTime := heard }).toList := by
  have hvalues : ∀ calls, ∀ state ∈ ((start db boot).run calls).monitor.states.values,
      ∀ cycle, state.cycleTimeMs = some cycle → state.isKnown → Usable cycle := by
    intro calls state hstate cycle hcycle _
    obtain ⟨id, msg, hreg, hmsg⟩ := cycle_of_mem (knows_run db boot calls) hstate hcycle
    exact hdb id msg cycle hreg hmsg
  have hreported : ∀ calls now wall,
      reported ((start db boot).run calls).monitor now wall id =
        (((start db boot).run calls).monitor.states.get? id).toList.flatMap (reportOf now) :=
    fun calls now wall => reported_eq (knows_run db boot calls)
      ((checkTimeouts_raises _ now wall).mpr (hvalues calls)) id
  constructor
  · intro hnone calls now wall
    rw [hreported]
    cases hget : ((start db boot).run calls).monitor.states.get? id with
    | none => rfl
    | some state =>
      have hinfo : ((start db boot).run calls).monitor.info id = some state.toMessageInfo := by
        rw [info, hget]
        rfl
      have hunknown := ((knows_run db boot calls).unknown hnone hinfo).2.2
      simp [reportOf, hunknown]
  · intro msg hreg
    obtain ⟨i, hi, hboot⟩ := boot_of_registered db boot hreg
    refine ⟨i, hi, fun calls now wall => ?_⟩
    intro m heard
    have hheard : (m.states.get? id).map MessageState.lastRxTime = some heard := by
      apply heard_run
      rw [start, hboot]
      rfl
    obtain ⟨state, hget, hlast⟩ := Option.map_eq_some_iff.mp hheard
    have hinfo : (m.states.get? id).map MessageState.toMessageInfo = some msg.info :=
      (knows_run db boot calls).registered hreg
    rw [hget, Option.map_some, Option.some_inj] at hinfo
    constructor
    · rw [hreported, hget, Option.toList_some, List.flatMap_singleton, reportOf, hinfo, hlast]
      rfl
    · refine ⟨_, status_eq fun state hstate => periodicStatus_isSome now (hvalues calls state hstate),
        ?_⟩
      rw [filter_entries,
        PyDict.filter_values (fun p hp => canId_of_mem (knows_run db boot calls) hp), hget,
        Option.toList_some]
      obtain ⟨fields, lastRx, count, window, signals⟩ := state
      dsimp only at hinfo hlast
      have hentry : entryOf now ⟨fields, lastRx, count, window, signals⟩ =
          entryOf now { msg.info with lastRxTime := heard } := by
        rw [hinfo, hlast]
        rfl
      rw [List.filterMap_cons, List.filterMap_nil, hentry]
      cases entryOf now { msg.info with lastRxTime := heard } <;> rfl

theorem silence_reported_status :
    (status.registered 0x100 = none → ∀ calls now wall,
      reported ((start status fun _ => 0).run calls).monitor now wall 0x100 = []) ∧
    ∀ msg, status.registered 0x100 = some msg → ∃ i : Nat, status.messages[i]? = some msg ∧
      ∀ calls now wall,
        let m := ((start status fun _ => 0).run calls).monitor
        let heard := lastHeard 0x100 0 calls
        reported m now wall 0x100 = due msg.cycleTime heard now ∧
        ∃ entries, m.periodicMessageStatus now = some entries ∧
          entries.filter (·.id = "0x" ++ hexUpper 0 0x100) =
            (entryOf now { msg.info with lastRxTime := heard }).toList := by
  refine silence_reported ?_ (fun _ => 0) 0x100
  intro id msg cycle hreg hcycle
  have hmem := List.mem_of_find?_eq_some hreg
  rw [status, List.reverse_singleton, List.mem_singleton] at hmem
  rw [hmem] at hcycle
  cases hcycle
  exact ⟨1, by decide +kernel, by decide +kernel⟩

end CanSniffer.Silence
