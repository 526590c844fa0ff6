import CanSniffer.BehavioralMonitor

namespace CanSniffer.BehavioralMonitor

open Library Library.PyText Models

inductive Call
  | ingest (frame : EnrichedFrame) (now : ℚ) (wall : Nat → ℚ)
  | checkTimeouts (now : ℚ) (wall : Nat → ℚ)
  | periodicMessageStatus (now : ℚ)
  | drainAlerts

structure Session where
  monitor : BehavioralMonitor
  drained : List Alert := []
  raised : Bool := false

namespace Session

def step (s : Session) : Call → Session
  | .ingest frame now wall =>
    let (monitor, raised) := s.monitor.ingest frame now wall
    { s with monitor, raised := s.raised || raised }
  | .checkTimeouts now wall =>
    let (monitor, raised) := s.monitor.checkTimeouts now wall
    { s with monitor, raised := s.raised || raised }
  | .periodicMessageStatus now =>
    { s with raised := s.raised || (s.monitor.periodicMessageStatus now).isNone }
  | .drainAlerts =>
    let (alerts, monitor) := s.monitor.drainAlerts
    { s with monitor, drained := s.drained ++ alerts }

def run (s : Session) (calls : List Call) : Session := calls.foldl step s

def alerts (s : Session) : List Alert := s.drained ++ s.monitor.pendingAlerts

theorem run_concat (s : Session) (calls : List Call) (c : Call) :
    s.run (calls ++ [c]) = (s.run calls).step c := by
  rw [run, List.foldl_append]
  rfl

end Session

def start (db : Database) (boot : Nat → ℚ) : Session := { monitor := init db boot }

/-- The message that `_init_known_ids` keeps for an identifier. -/
def Database.registered (db : Database) (id : Nat) : Option Message :=
  db.messages.reverse.find? fun msg => msg.frameId = id

variable {m m' : BehavioralMonitor} {frame : EnrichedFrame} {now : ℚ} {wall : Nat → ℚ}
  {state : MessageState} {ok ok' : Alert → Prop}

def Posts (ok : Alert → Prop) (m m' : BehavioralMonitor) : Prop :=
  ∃ alerts, (∀ a ∈ alerts, ok a ∧ a.resolved = false) ∧
    m' = { m with pendingAlerts := m.pendingAlerts ++ alerts }

namespace Posts

theorem refl (ok : Alert → Prop) (m : BehavioralMonitor) : Posts ok m m :=
  ⟨[], by simp, by rw [List.append_nil]⟩

theorem trans {n : BehavioralMonitor} (h : Posts ok m m') (h' : Posts ok m' n) : Posts ok m n := by
  obtain ⟨xs, hxs, rfl⟩ := h
  obtain ⟨ys, hys, rfl⟩ := h'
  refine ⟨xs ++ ys, ?_, by simp only [List.append_assoc]⟩
  intro a ha
  exact (List.mem_append.mp ha).elim (hxs a) (hys a)

theorem mono (h : Posts ok m m') (himp : ∀ a, ok a → ok' a) : Posts ok' m m' := by
  obtain ⟨alerts, hok, rfl⟩ := h
  exact ⟨alerts, fun a ha => ⟨himp a (hok a ha).1, (hok a ha).2⟩, rfl⟩

theorem emit (m : BehavioralMonitor) (wall : Nat → ℚ) (category : AlertCategory) (msg : String)
    (canId : Nat) (signalName : Option String) :
    Posts (fun a => a.category = category ∧ a.canId = some (canId : Int)) m
      (m.emit wall category msg canId signalName) :=
  ⟨_, by simp, rfl⟩

theorem states_eq (h : Posts ok m m') : m'.states = m.states := by
  obtain ⟨_, -, rfl⟩ := h
  rfl

theorem db_eq (h : Posts ok m m') : m'.db = m.db := by
  obtain ⟨_, -, rfl⟩ := h
  rfl

theorem withStates (h : Posts ok m m') (states : PyDict Nat MessageState) :
    Posts ok { m with states } { m' with states } := by
  obtain ⟨alerts, hok, rfl⟩ := h
  exact ⟨alerts, hok, rfl⟩

end Posts

def babbling (m : BehavioralMonitor) : List Alert :=
  m.pendingAlerts.filter fun a => a.category = .babblingTx

theorem babbling_emit (m : BehavioralMonitor) (wall : Nat → ℚ) (msg : String) (canId : Nat) :
    ∃ a, a.canId = some (canId : Int) ∧
      (m.emit wall .babblingTx msg canId).babbling = m.babbling ++ [a] := by
  refine ⟨{ severity := alertSeverityMap .babblingTx, category := .babblingTx, msg := msg,
            ts := wall m.pendingAlerts.length, canId := some (canId : Int) }, rfl, ?_⟩
  rw [babbling, babbling, emit, List.filter_append]
  rfl

theorem Posts.babbling_eq (h : Posts ok m m') (hno : ∀ a, ok a → a.category ≠ .babblingTx) :
    m'.babbling = m.babbling := by
  obtain ⟨alerts, hok, rfl⟩ := h
  have hnone : alerts.filter (fun a => a.category = .babblingTx) = [] :=
    List.filter_eq_nil_iff.mpr fun a ha => by simpa using hno a (hok a ha).1
  rw [babbling, babbling, List.filter_append, hnone, List.append_nil]

theorem checkSignal_posts {msgDef : Message} {s t : BehavioralMonitor} {sig : String × SignalValue}
    (h : checkSignal msgDef frame state wall s sig = some t) :
    Posts (fun a => a.category = .rangeViolation) s t := by
  obtain ⟨sigName, value⟩ := sig
  have hpost : ∀ msg, Posts (fun a => a.category = .rangeViolation) s
      (s.emit wall .rangeViolation msg frame.arbId (some sigName)) := fun msg =>
    (Posts.emit s wall .rangeViolation msg frame.arbId (some sigName)).mono fun _ ha => ha.1
  rw [checkSignal] at h
  split at h
  · cases h
    exact Posts.refl _ s
  · obtain ⟨below, -, h⟩ := Option.bind_eq_some_iff.mp h
    split_ifs at h
    · cases h
      exact hpost _
    · obtain ⟨above, -, h⟩ := Option.bind_eq_some_iff.mp h
      split_ifs at h
      · cases h
        exact hpost _
      · cases h
        exact Posts.refl _ s

theorem checkTimeout_posts {s t : BehavioralMonitor} {st : MessageState}
    (h : checkTimeout now wall s st = some t) :
    Posts (fun a => a.category = .missingMsg ∨ a.category = .missingMsgTransient) s t := by
  rw [checkTimeout] at h
  split at h
  · cases h
    exact Posts.refl _ s
  · split_ifs at h with hknown
    · cases h
      exact Posts.refl _ s
    · obtain ⟨cycleMs, -, h⟩ := Option.bind_eq_some_iff.mp h
      obtain ⟨ratio, -, h⟩ := Option.bind_eq_some_iff.mp h
      split_ifs at h
      · cases h
        exact (Posts.emit s wall .missingMsg _ st.canId none).mono fun _ ha => .inl ha.1
      · cases h
        exact (Posts.emit s wall .missingMsgTransient _ st.canId none).mono fun _ ha => .inr ha.1
      · cases h
        exact Posts.refl _ s

theorem checkTimeouts_posts (m : BehavioralMonitor) (now : ℚ) (wall : Nat → ℚ) :
    Posts (fun a => a.category = .missingMsg ∨ a.category = .missingMsgTransient) m
      (m.checkTimeouts now wall).1 :=
  ForLoop.tryFold_keeps (fun _ _ _ _ hs ht => hs.trans (checkTimeout_posts ht)) (Posts.refl _ m)

def TooFast (cycle : PyNumber) (window : List ℚ) : Prop :=
  10 ≤ window.length ∧ 0 < Binary64.sub (window.getLastD 0) (window.headD 0) ∧
    ∃ hz, expectedHz cycle = some hz ∧
      Binary64.mul hz overateRatio < Binary64.div (window.length - 1 : Nat)
        (Binary64.sub (window.getLastD 0) (window.headD 0))

theorem checkBabble_cases (m : BehavioralMonitor) (state : MessageState) (wall : Nat → ℚ) :
    (m.checkBabble state wall = none ∧
        ∃ cycle, state.cycleTimeMs = some cycle ∧ expectedHz cycle = none) ∨
      (m.checkBabble state wall = some m ∧
        ∀ cycle, state.cycleTimeMs = some cycle → ¬ TooFast cycle state.babbleWindow.items) ∨
      ∃ cycle msg, state.cycleTimeMs = some cycle ∧ TooFast cycle state.babbleWindow.items ∧
        m.checkBabble state wall = some (m.emit wall .babblingTx msg state.canId) := by
  rw [checkBabble]
  cases hcycle : state.cycleTimeMs with
  | none => exact .inr (.inl ⟨rfl, by simp⟩)
  | some cycle =>
    dsimp only
    by_cases hlen : state.babbleWindow.items.length < 10
    · refine .inr (.inl ⟨if_pos hlen, ?_⟩)
      rintro _ _ ⟨hten, -⟩
      omega
    · rw [if_neg hlen]
      split_ifs with hspan
      · refine .inr (.inl ⟨rfl, ?_⟩)
        rintro _ _ ⟨-, hpos, -⟩
        exact absurd hpos (not_lt.mpr hspan)
      · cases hhz : expectedHz cycle with
        | none => exact .inl ⟨rfl, cycle, rfl, hhz⟩
        | some hz =>
          rw [Option.bind_eq_bind, Option.bind_some]
          split_ifs with hfast
          · refine .inr (.inr ⟨cycle, _, rfl, ?_, rfl⟩)
            exact ⟨not_lt.mp hlen, not_le.mp hspan, hz, hhz, hfast⟩
          · refine .inr (.inl ⟨rfl, ?_⟩)
            rintro _ hc ⟨-, -, hz', hhz', hfast'⟩
            cases hc
            rw [hhz] at hhz'
            cases hhz'
            exact hfast hfast'

def stateOf (m : BehavioralMonitor) (frame : EnrichedFrame) (now : ℚ) : MessageState :=
  (m.states.get? frame.arbId).getD { unknownInfo frame with lastRxTime := now }

theorem lookup_state (m : BehavioralMonitor) (frame : EnrichedFrame) (now : ℚ) (wall : Nat → ℚ) :
    (m.lookup frame now wall).2 = m.stateOf frame now := by
  rw [lookup, stateOf]
  cases m.states.get? frame.arbId with
  | none => rfl
  | some state =>
    dsimp only
    split_ifs <;> rfl

theorem lookup_posts (m : BehavioralMonitor) (frame : EnrichedFrame) (now : ℚ) (wall : Nat → ℚ) :
    ∃ states, states.get? =
        Function.update m.states.get? frame.arbId (some (m.stateOf frame now)) ∧
      Posts (fun a => a.category = .unexpectedId ∨ a.category = .dlcMismatch)
        { m with states } (m.lookup frame now wall).1 := by
  rw [lookup, stateOf]
  cases hget : m.states.get? frame.arbId with
  | none =>
    exact ⟨_, m.states.get?_set _ _, (Posts.emit _ wall .unexpectedId _ _ none).mono
      fun _ ha => .inl ha.1⟩
  | some state =>
    refine ⟨m.states, ?_, ?_⟩
    · rw [Option.getD_some, ← hget, Function.update_eq_self]
    · dsimp only
      split_ifs
      · exact (Posts.emit _ wall .dlcMismatch _ _ none).mono fun _ ha => .inr ha.1
      · exact Posts.refl _ m

theorem checkSignals_posts (frame : EnrichedFrame) (wall : Nat → ℚ)
    (hget : m.states.get? frame.arbId = some state) :
    ∃ states signals, states.get? =
        Function.update m.states.get? frame.arbId (some { state with lastSignals := signals }) ∧
      Posts (fun a => a.category = .rangeViolation) { m with states }
        (m.checkSignals frame state wall).1 := by
  have hsame : m.states.get? = Function.update m.states.get? frame.arbId (some state) := by
    rw [← hget, Function.update_eq_self]
  rw [checkSignals]
  split
  · rename_i msgDef decoded _ _
    have hposts : Posts (fun a => a.category = .rangeViolation) m
        (ForLoop.tryFold (checkSignal msgDef frame state wall) m decoded.items).1 :=
      ForLoop.tryFold_keeps (fun _ _ _ _ hs ht => hs.trans (checkSignal_posts ht)) (Posts.refl _ m)
    dsimp only
    split_ifs
    · exact ⟨m.states, state.lastSignals, hsame, hposts⟩
    · refine ⟨_, decoded, ?_, hposts.withStates _⟩
      rw [PyDict.get?_set, hposts.states_eq]
  · exact ⟨m.states, state.lastSignals, hsame, Posts.refl _ m⟩

def counted (m : BehavioralMonitor) (frame : EnrichedFrame) (now : ℚ) (wall : Nat → ℚ) :
    BehavioralMonitor :=
  (m.lookup frame now wall).1.setState frame.arbId (receive (m.stateOf frame now) now)

theorem ingest_eq (m : BehavioralMonitor) (frame : EnrichedFrame) (now : ℚ) (wall : Nat → ℚ) :
    m.ingest frame now wall =
      match (m.counted frame now wall).checkBabble (receive (m.stateOf frame now) now) wall with
      | none => (m.counted frame now wall, true)
      | some m' =>
        if (m.stateOf frame now).isKnown then
          m'.checkSignals frame (receive (m.stateOf frame now) now) wall
        else (m', false) := by
  rw [ingest, counted, ← lookup_state m frame now wall]
  rfl

theorem counted_posts (m : BehavioralMonitor) (frame : EnrichedFrame) (now : ℚ) (wall : Nat → ℚ) :
    ∃ states, states.get? = Function.update m.states.get? frame.arbId
        (some (receive (m.stateOf frame now) now)) ∧
      Posts (fun a => a.category = .unexpectedId ∨ a.category = .dlcMismatch)
        { m with states } (m.counted frame now wall) := by
  obtain ⟨states, hstates, hposts⟩ := lookup_posts m frame now wall
  refine ⟨_, ?_, hposts.withStates _⟩
  rw [PyDict.get?_set, hposts.states_eq, hstates, Function.update_idem]

theorem counted_babbling (m : BehavioralMonitor) (frame : EnrichedFrame) (now : ℚ)
    (wall : Nat → ℚ) : (m.counted frame now wall).babbling = m.babbling := by
  obtain ⟨states, -, hcounted⟩ := counted_posts m frame now wall
  apply hcounted.babbling_eq
  rintro a (ha | ha)
  · rw [ha]
    decide
  · rw [ha]
    decide

theorem ingest_checked {ok : Alert → Prop} {m m' : BehavioralMonitor} {frame : EnrichedFrame}
    {now : ℚ} {wall : Nat → ℚ}
    (hcheck : (m.counted frame now wall).checkBabble (receive (m.stateOf frame now) now) wall =
      some m') (hposts : Posts ok (m.counted frame now wall) m') :
    ∃ signals, (m.ingest frame now wall).1.states.get? =
        Function.update m.states.get? frame.arbId
          (some { receive (m.stateOf frame now) now with lastSignals := signals }) ∧
      (∃ states, Posts (fun _ => True) { m with states } (m.ingest frame now wall).1) ∧
      (m.ingest frame now wall).1.babbling = m'.babbling := by
  obtain ⟨states, hget, hcounted⟩ := counted_posts m frame now wall
  have hall : Posts (fun _ => True) { m with states } m' :=
    (hcounted.mono fun _ _ => trivial).trans (hposts.mono fun _ _ => trivial)
  have hget' : m'.states.get? = Function.update m.states.get? frame.arbId
      (some (receive (m.stateOf frame now) now)) := by
    rw [hall.states_eq, hget]
  rw [ingest_eq, hcheck]
  dsimp only
  split_ifs
  · have hstate : m'.states.get? frame.arbId = some (receive (m.stateOf frame now) now) := by
      rw [hget', Function.update_self]
    obtain ⟨states', signals, h, hrange⟩ := checkSignals_posts frame wall hstate
    rw [hget', Function.update_idem] at h
    refine ⟨signals, ?_, ⟨states', ?_⟩, ?_⟩
    · rw [hrange.states_eq, h]
    · exact (hall.withStates states').trans (hrange.mono fun _ _ => trivial)
    · apply hrange.babbling_eq
      intro a ha
      rw [ha]
      decide
  · exact ⟨_, hget', ⟨states, hall⟩, rfl⟩

theorem ingest_spec (m : BehavioralMonitor) (frame : EnrichedFrame) (now : ℚ) (wall : Nat → ℚ) :
    let state := receive (m.stateOf frame now) now
    ∃ signals alerts,
      (m.ingest frame now wall).1.states.get? =
          Function.update m.states.get? frame.arbId (some { state with lastSignals := signals }) ∧
        (∃ states, Posts (fun _ => True) { m with states } (m.ingest frame now wall).1) ∧
        (m.ingest frame now wall).1.babbling = m.babbling ++ alerts ∧
        ((alerts = [] ∧
            ∀ cycle, state.cycleTimeMs = some cycle → ¬ TooFast cycle state.babbleWindow.items) ∨
          ∃ a cycle, alerts = [a] ∧ a.canId = some (state.canId : Int) ∧
            state.cycleTimeMs = some cycle ∧ TooFast cycle state.babbleWindow.items) := by
  intro state
  have hbabbling := counted_babbling m frame now wall
  obtain ⟨hcheck, cycle, hcycle, hhz⟩ | ⟨hcheck, hquiet⟩ | ⟨cycle, msg, hcycle, hfast, hcheck⟩ :=
    checkBabble_cases (m.counted frame now wall) state wall
  · -- the division by the cycle time raises, before the signals are looked at
    obtain ⟨states, hget, hcounted⟩ := counted_posts m frame now wall
    refine ⟨state.lastSignals, [], ?_⟩
    rw [ingest_eq, hcheck, List.append_nil]
    refine ⟨by rw [hcounted.states_eq, hget], ⟨states, hcounted.mono fun _ _ => trivial⟩, hbabbling,
      .inl ⟨rfl, ?_⟩⟩
    rintro c hc ⟨-, -, hz, hhz', -⟩
    rw [hcycle] at hc
    cases hc
    rw [hhz] at hhz'
    cases hhz'
  · obtain ⟨signals, hs, hposts, hb⟩ := ingest_checked hcheck (Posts.refl (fun _ => True) _)
    rw [hbabbling] at hb
    exact ⟨signals, [], hs, hposts, by rw [hb, List.append_nil], .inl ⟨rfl, hquiet⟩⟩
  · obtain ⟨signals, hs, hposts, hb⟩ :=
      ingest_checked hcheck (Posts.emit _ wall .babblingTx msg state.canId none)
    obtain ⟨a, ha, hemit⟩ := babbling_emit (m.counted frame now wall) wall msg state.canId
    rw [hemit, hbabbling] at hb
    exact ⟨signals, [a], hs, hposts, hb, .inr ⟨a, cycle, rfl, ha, hcycle, hfast⟩⟩

def info (m : BehavioralMonitor) (id : Nat) : Option MessageInfo :=
  (m.states.get? id).map MessageState.toMessageInfo

theorem info_of_get? (h : m.states.get? = Function.update m'.states.get? frame.arbId (some state)) :
    m.info = Function.update m'.info frame.arbId (some state.toMessageInfo) := by
  funext id
  rw [info, h]
  by_cases hid : id = frame.arbId
  · subst hid
    rw [Function.update_self, Function.update_self]
    rfl
  · rw [Function.update_of_ne hid, Function.update_of_ne hid]
    rfl

theorem Posts.info_eq (h : Posts ok m m') : m'.info = m.info := by
  funext id
  rw [info, info, h.states_eq]

theorem stateOf_info (m : BehavioralMonitor) (frame : EnrichedFrame) (now : ℚ) :
    (m.stateOf frame now).toMessageInfo = (m.info frame.arbId).getD (unknownInfo frame) := by
  rw [stateOf, info]
  cases m.states.get? frame.arbId <;> rfl

theorem ingest_info (m : BehavioralMonitor) (frame : EnrichedFrame) (now : ℚ) (wall : Nat → ℚ) :
    (m.ingest frame now wall).1.info = Function.update m.info frame.arbId
      (some ((m.info frame.arbId).getD (unknownInfo frame))) := by
  obtain ⟨signals, alerts, hget, -⟩ := ingest_spec m frame now wall
  have hinfo := info_of_get? hget
  have hstate : (receive (m.stateOf frame now) now).toMessageInfo =
      (m.info frame.arbId).getD (unknownInfo frame) := stateOf_info m frame now
  dsimp only at hinfo
  rw [hinfo, hstate]

theorem registered_concat (messages : List Message) (msg : Message) (id : Nat) :
    (messages ++ [msg]).reverse.find? (fun msg => msg.frameId = id) =
      if msg.frameId = id then some msg
      else messages.reverse.find? fun msg => msg.frameId = id := by
  rw [List.reverse_append, List.reverse_singleton, List.singleton_append, List.find?_cons]
  split_ifs with h <;> simp [h]

theorem init_get? (db : Database) (boot : Nat → ℚ) (id : Nat) :
    ∃ t, (init db boot).states.get? id =
      (db.registered id).map fun msg => { msg.info with lastRxTime := t } := by
  rw [init, Database.registered]
  induction db.messages using List.reverseRecOn with
  | nil => exact ⟨0, rfl⟩
  | append_singleton messages msg ih =>
    rw [initKnownIds, List.zipIdx_append, List.foldl_append, registered_concat]
    rw [initKnownIds] at ih
    by_cases hid : msg.frameId = id
    · subst hid
      exact ⟨boot messages.length, by simp [PyDict.get?_set]⟩
    · obtain ⟨t, ht⟩ := ih
      refine ⟨t, ?_⟩
      simpa [PyDict.get?_set, hid, Function.update_of_ne (Ne.symm hid)] using ht

theorem init_info (db : Database) (boot : Nat → ℚ) (id : Nat) :
    (init db boot).info id = (db.registered id).map Message.info := by
  obtain ⟨t, ht⟩ := init_get? db boot id
  rw [info, ht, Option.map_map]
  rfl

/-- What a run never changes: the messages of the database, and that all others are unknown. -/
structure Knows (db : Database) (m : BehavioralMonitor) : Prop where
  db_eq : m.db = db
  registered : ∀ {id msg}, db.registered id = some msg → m.info id = some msg.info
  unknown : ∀ {id i}, db.registered id = none → m.info id = some i →
    i.canId = id ∧ i.cycleTimeMs = none ∧ i.isKnown = false

variable {db : Database}

theorem knows_init (db : Database) (boot : Nat → ℚ) : Knows db (init db boot) where
  db_eq := rfl
  registered := by
    intro id msg h
    rw [init_info, h]
    rfl
  unknown := by
    intro id i hnone h
    rw [init_info, hnone] at h
    cases h

theorem Knows.of_info (h : Knows db m) (hdb : m'.db = m.db) (hinfo : m'.info = m.info) :
    Knows db m' where
  db_eq := hdb.trans h.db_eq
  registered := by
    rw [hinfo]
    exact h.registered
  unknown := by
    rw [hinfo]
    exact h.unknown

theorem Knows.ingest (h : Knows db m) (frame : EnrichedFrame) (now : ℚ) (wall : Nat → ℚ) :
    Knows db (m.ingest frame now wall).1 := by
  obtain ⟨_, _, -, ⟨_, hposts⟩, -⟩ := ingest_spec m frame now wall
  have hinfo := ingest_info m frame now wall
  cases hknown : m.info frame.arbId with
  | some i =>
    rw [hknown, Option.getD_some, ← hknown, Function.update_eq_self] at hinfo
    exact h.of_info hposts.db_eq hinfo
  | none =>
    rw [hknown, Option.getD_none] at hinfo
    refine ⟨hposts.db_eq.trans h.db_eq, ?_, ?_⟩
    · intro id msg hreg
      rw [hinfo, Function.update_of_ne]
      · exact h.registered hreg
      · rintro rfl
        rw [h.registered hreg] at hknown
        cases hknown
    · intro id i hnone hi
      rw [hinfo] at hi
      by_cases hid : id = frame.arbId
      · subst hid
        rw [Function.update_self] at hi
        cases hi
        exact ⟨rfl, rfl, rfl⟩
      · rw [Function.update_of_ne hid] at hi
        exact h.unknown hnone hi

theorem Knows.step {s : Session} (h : Knows db s.monitor) (c : Call) :
    Knows db (s.step c).monitor := by
  cases c with
  | ingest frame now wall => exact h.ingest frame now wall
  | checkTimeouts now wall =>
    have hposts := checkTimeouts_posts s.monitor now wall
    exact h.of_info hposts.db_eq hposts.info_eq
  | periodicMessageStatus now => exact h
  | drainAlerts => exact h.of_info rfl rfl

theorem knows_run (db : Database) (boot : Nat → ℚ) (calls : List Call) :
    Knows db ((start db boot).run calls).monitor := by
  induction calls using List.reverseRecOn with
  | nil => exact knows_init db boot
  | append_singleton calls c ih =>
    rw [Session.run_concat]
    exact ih.step c

end CanSniffer.BehavioralMonitor
