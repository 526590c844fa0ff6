import CanSniffer.MonitorRuns

namespace CanSniffer.DbcConformance

open Library Library.PyText Models BehavioralMonitor

def received (id : Nat) : Call → Option EnrichedFrame
  | .ingest frame _ _ => if frame.arbId = id then some frame else none
  | .checkTimeouts _ _ | .periodicMessageStatus _ | .drainAlerts => none

def frames (id : Nat) (calls : List Call) : List EnrichedFrame := calls.filterMap (received id)

def IsConformance (a : Alert) : Prop := a.category = .unexpectedId ∨ a.category = .dlcMismatch

instance (a : Alert) : Decidable (IsConformance a) :=
  inferInstanceAs (Decidable (a.category = .unexpectedId ∨ a.category = .dlcMismatch))

def conformance (alerts : List Alert) : List (AlertCategory × Option Int) :=
  (alerts.filter (IsConformance ·)).map fun a => (a.category, a.canId)

/-- What a call appends to the pending alerts. -/
def emittedBy (s : Session) (c : Call) : List Alert :=
  (s.step c).monitor.pendingAlerts.drop s.monitor.pendingAlerts.length

/-- The alerts on identifiers and lengths that the database asks for. -/
def expected (db : Database) (before : List Call) : Call → List (AlertCategory × Option Int)
  | .ingest frame _ _ =>
    match db.registered frame.arbId with
    | none => if frames frame.arbId before = [] then [(.unexpectedId, some frame.arbId)] else []
    | some msg => if frame.dlc ≠ msg.length then [(.dlcMismatch, some frame.arbId)] else []
  | .checkTimeouts _ _ | .periodicMessageStatus _ | .drainAlerts => []

/-- Every call of a run emits the alerts on identifiers and lengths that it has to. -/
def Conforms (db : Database) (boot : Nat → ℚ) (calls : List Call) : Prop :=
  ∀ before c after, calls = before ++ c :: after →
    conformance (emittedBy ((start db boot).run before) c) = expected db before c

variable {db : Database} {boot : Nat → ℚ} {m m' : BehavioralMonitor} {frame : EnrichedFrame}
  {now : ℚ} {wall : Nat → ℚ} {ok : Alert → Prop} {s : Session} {calls : List Call} {c : Call}
  {id : Nat}

theorem frames_snoc (id : Nat) (calls : List Call) (c : Call) :
    frames id (calls ++ [c]) = frames id calls ++ (received id c).toList := by
  rw [frames, List.filterMap_append]
  cases h : received id c <;> simp [frames, h]

theorem conformance_append (xs ys : List Alert) :
    conformance (xs ++ ys) = conformance xs ++ conformance ys := by
  rw [conformance, List.filter_append, List.map_append]
  rfl

theorem conformance_of_none {alerts : List Alert} (h : ∀ a ∈ alerts, ¬ IsConformance a) :
    conformance alerts = [] := by
  rw [conformance, List.filter_eq_nil_iff.mpr (by simpa using h), List.map_nil]

theorem conformance_posts (h : Posts ok m m') (hno : ∀ a, ok a → ¬ IsConformance a) :
    ∃ alerts, m'.pendingAlerts = m.pendingAlerts ++ alerts ∧ conformance alerts = [] := by
  obtain ⟨alerts, hok, rfl⟩ := h
  exact ⟨alerts, rfl, conformance_of_none fun a ha => hno a (hok a ha).1⟩

theorem counted_conformance (m : BehavioralMonitor) (frame : EnrichedFrame) (now : ℚ)
    (wall : Nat → ℚ) :
    ∃ alerts, (m.counted frame now wall).pendingAlerts = m.pendingAlerts ++ alerts ∧
      conformance alerts = match m.info frame.arbId with
        | none => [(.unexpectedId, some frame.arbId)]
        | some i => if frame.dlc ≠ i.expectedDlc then [(.dlcMismatch, some frame.arbId)] else [] := by
  rw [counted, lookup, info]
  cases m.states.get? frame.arbId with
  | none => exact ⟨_, rfl, rfl⟩
  | some state =>
    dsimp only [Option.map_some]
    split_ifs with hdlc
    · exact ⟨_, rfl, rfl⟩
    · exact ⟨[], (List.append_nil _).symm, rfl⟩

theorem checkBabble_posts {state : MessageState} (h : m.checkBabble state wall = some m') :
    Posts (fun a => a.category = .babblingTx) m m' := by
  obtain ⟨hcheck, -⟩ | ⟨hcheck, -⟩ | ⟨_, msg, -, -, hcheck⟩ := checkBabble_cases m state wall
  · rw [hcheck] at h
    cases h
  · rw [hcheck] at h
    cases h
    exact Posts.refl _ m
  · rw [hcheck] at h
    cases h
    exact (Posts.emit m wall .babblingTx msg state.canId none).mono fun _ ha => ha.1

/-- The checks after the counting bring no alert on the identifier or the length. -/
theorem ingest_conformance (m : BehavioralMonitor) (frame : EnrichedFrame) (now : ℚ)
    (wall : Nat → ℚ) :
    ∃ alerts, (m.ingest frame now wall).1.pendingAlerts =
      (m.counted frame now wall).pendingAlerts ++ alerts ∧ conformance alerts = [] := by
  have hbabble : ∀ a : Alert, a.category = .babblingTx → ¬ IsConformance a := by
    intro a ha
    simp [IsConformance, ha]
  have hrange : ∀ a : Alert, a.category = .rangeViolation → ¬ IsConformance a := by
    intro a ha
    simp [IsConformance, ha]
  rw [ingest_eq]
  cases hcheck : (m.counted frame now wall).checkBabble (receive (m.stateOf frame now) now) wall with
  | none => exact ⟨[], (List.append_nil _).symm, rfl⟩
  | some m' =>
    have hposts := checkBabble_posts hcheck
    obtain ⟨alerts, halerts, hnone⟩ := conformance_posts hposts hbabble
    dsimp only
    split_ifs
    · obtain ⟨states, hget, hcounted⟩ := counted_posts m frame now wall
      have hstate : m'.states.get? frame.arbId = some (receive (m.stateOf frame now) now) := by
        rw [hposts.states_eq, hcounted.states_eq, hget, Function.update_self]
      obtain ⟨_, _, -, hsignals⟩ := checkSignals_posts frame wall hstate
      obtain ⟨more, hmore, hnone'⟩ := conformance_posts hsignals hrange
      refine ⟨alerts ++ more, ?_, ?_⟩
      · rw [hmore, halerts, List.append_assoc]
      · rw [conformance_append, hnone, hnone', List.append_nil]
    · exact ⟨alerts, halerts, hnone⟩

theorem emittedBy_ingest (s : Session) (frame : EnrichedFrame) (now : ℚ) (wall : Nat → ℚ) :
    conformance (emittedBy s (.ingest frame now wall)) = match s.monitor.info frame.arbId with
      | none => [(.unexpectedId, some frame.arbId)]
      | some i => if frame.dlc ≠ i.expectedDlc then [(.dlcMismatch, some frame.arbId)] else [] := by
  obtain ⟨first, hfirst, hconf⟩ := counted_conformance s.monitor frame now wall
  obtain ⟨more, hmore, hnone⟩ := ingest_conformance s.monitor frame now wall
  have hstep : (s.step (.ingest frame now wall)).monitor.pendingAlerts =
      s.monitor.pendingAlerts ++ (first ++ more) := by
    rw [← List.append_assoc, ← hfirst]
    exact hmore
  rw [emittedBy, hstep, List.drop_left, conformance_append, hnone, List.append_nil, hconf]

theorem emittedBy_other (s : Session) (hc : ∀ frame now wall, c ≠ .ingest frame now wall) :
    conformance (emittedBy s c) = [] := by
  cases c with
  | ingest frame now wall => exact absurd rfl (hc frame now wall)
  | checkTimeouts now wall =>
    have hno : ∀ a : Alert, a.category = .missingMsg ∨ a.category = .missingMsgTransient →
        ¬ IsConformance a := by
      rintro a (ha | ha) <;> simp [IsConformance, ha]
    obtain ⟨alerts, halerts, hnone⟩ :=
      conformance_posts (checkTimeouts_posts s.monitor now wall) hno
    have hstep : (s.step (.checkTimeouts now wall)).monitor.pendingAlerts =
        s.monitor.pendingAlerts ++ alerts := halerts
    rw [emittedBy, hstep, List.drop_left, hnone]
  | periodicMessageStatus now => simp [emittedBy, Session.step, conformance]
  | drainAlerts => simp [emittedBy, Session.step, drainAlerts, conformance]

theorem info_of_unregistered (boot : Nat → ℚ) (calls : List Call) (h : db.registered id = none) :
    ((start db boot).run calls).monitor.info id = (frames id calls).head?.map unknownInfo := by
  induction calls using List.reverseRecOn with
  | nil =>
    have hinit := init_info db boot id
    rw [h] at hinit
    exact hinit
  | append_singleton calls c ih =>
    rw [Session.run_concat, frames_snoc]
    cases c with
    | ingest frame now wall =>
      have hstep : (((start db boot).run calls).step (.ingest frame now wall)).monitor.info = _ :=
        ingest_info ((start db boot).run calls).monitor frame now wall
      rw [hstep]
      by_cases hid : frame.arbId = id
      · subst hid
        rw [Function.update_self, ih, received, if_pos rfl]
        cases frames frame.arbId calls <;> rfl
      · rw [Function.update_of_ne (Ne.symm hid), ih, received, if_neg hid, Option.toList_none,
          List.append_nil]
    | checkTimeouts now wall =>
      have hstep := (checkTimeouts_posts ((start db boot).run calls).monitor now wall).info_eq
      rw [received, Option.toList_none, List.append_nil, ← ih, ← hstep]
      rfl
    | periodicMessageStatus now =>
      rw [received, Option.toList_none, List.append_nil, ← ih]
      rfl
    | drainAlerts =>
      rw [received, Option.toList_none, List.append_nil, ← ih]
      rfl

theorem emittedBy_expected_iff (db : Database) (boot : Nat → ℚ) (before : List Call) (c : Call) :
    conformance (emittedBy ((start db boot).run before) c) = expected db before c ↔
      ∀ frame now wall, c = .ingest frame now wall → db.registered frame.arbId = none →
        ∀ first ∈ (frames frame.arbId before).head?, frame.dlc = first.dlc := by
  cases c with
  | ingest frame now wall =>
    have hknows := knows_run db boot before
    rw [emittedBy_ingest, expected]
    cases hreg : db.registered frame.arbId with
    | some msg =>
      rw [hknows.registered hreg]
      refine iff_of_true rfl ?_
      rintro _ _ _ ⟨⟩ hnone
      rw [hreg] at hnone
      cases hnone
    | none =>
      rw [info_of_unregistered boot before hreg]
      cases hframes : frames frame.arbId before with
      | nil =>
        refine iff_of_true rfl ?_
        rintro _ _ _ ⟨⟩ - first hfirst
        rw [hframes] at hfirst
        cases hfirst
      | cons first rest =>
        dsimp only [List.head?_cons, Option.map_some]
        rw [if_neg (List.cons_ne_nil first rest)]
        constructor
        · rintro hsame _ _ _ ⟨⟩ - first' hfirst
          rw [hframes] at hfirst
          cases hfirst
          by_contra hdlc
          rw [if_pos (show frame.dlc ≠ (unknownInfo first).expectedDlc from hdlc)] at hsame
          cases hsame
        · intro hsame
          have hdlc := hsame frame now wall rfl hreg first (by rw [hframes]; rfl)
          exact if_neg (not_not.mpr hdlc)
  | checkTimeouts now wall => exact iff_of_true (emittedBy_other _ (by simp)) (by simp)
  | periodicMessageStatus now => exact iff_of_true (emittedBy_other _ (by simp)) (by simp)
  | drainAlerts => exact iff_of_true (emittedBy_other _ (by simp)) (by simp)

/-- The alerts are the ones that the database asks for exactly if the frames of an identifier that
it lacks all have the length of the first of them. -/
theorem conforms_iff (db : Database) (boot : Nat → ℚ) (calls : List Call) :
    Conforms db boot calls ↔
      ∀ before frame now wall after, calls = before ++ .ingest frame now wall :: after →
        db.registered frame.arbId = none →
          ∀ first ∈ (frames frame.arbId before).head?, frame.dlc = first.dlc := by
  constructor
  · intro h before frame now wall after hsplit
    exact (emittedBy_expected_iff db boot before _).mp (h before _ after hsplit) frame now wall rfl
  · intro h before c after hsplit
    apply (emittedBy_expected_iff db boot before c).mpr
    rintro frame now wall rfl
    exact h before frame now wall after hsplit

def noMessages : Database := ⟨[], fun _ => none, fun _ _ => none⟩

def twoLengths : List Call :=
  [.ingest ⟨0x200, 4, [0, 0, 0, 0], false, none, 0, 0⟩ 0 fun _ => 0,
    .ingest ⟨0x200, 8, [0, 0, 0, 0, 0, 0, 0, 0], false, none, 1, 0⟩ 1 fun _ => 1]

/-- A mismatch is reported for an identifier of which the database says nothing. -/
theorem unknown_length_reported : ¬ Conforms noMessages (fun _ => 0) twoLengths := by
  intro h
  have hsecond := h (twoLengths.take 1) _ [] rfl
  revert hsecond
  decide +kernel

end CanSniffer.DbcConformance
