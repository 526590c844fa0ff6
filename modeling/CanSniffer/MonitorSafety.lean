import CanSniffer.MonitorRuns

namespace CanSniffer.MonitorSafety

open Library Library.PyText Models BehavioralMonitor

def Usable (cycle : PyNumber) : Prop :=
  ∃ c, cycle.toFloat? = some c ∧ Binary64.div c 1000 ≠ 0

def Comparable (msgDef : Message) (p : String × SignalValue) : Prop :=
  ∀ sig, msgDef.getSignalByName p.1 = some sig → ∀ text, p.2 = .label text →
    sig.minimum = none ∧ sig.maximum = none

/-- A database whose cycle times can be divided by and whose decoded values can be compared. -/
structure Safe (db : Database) : Prop where
  usable : ∀ {id msg cycle}, db.registered id = some msg → msg.cycleTime = some cycle →
    Usable cycle
  comparable : ∀ {id msg data msgDef decoded}, db.registered id = some msg →
    db.getMessageByFrameId id = some msgDef → db.decodeMessage id data = some decoded →
    ∀ p ∈ decoded.items, Comparable msgDef p

def instant : Call → Option ℚ
  | .ingest _ now _ | .checkTimeouts now _ | .periodicMessageStatus now => some now
  | .drainAlerts => none

def Clocked (boot : Nat → ℚ) (calls : List Call) : Prop :=
  (∀ i, ∀ t ∈ calls.filterMap instant, boot i ≤ t) ∧
    (calls.filterMap instant).Pairwise (· ≤ ·)

def NeverRaises (db : Database) : Prop :=
  ∀ boot calls, Clocked boot calls → ((start db boot).run calls).raised = false

variable {db : Database} {m : BehavioralMonitor} {state : MessageState} {now : ℚ}
  {wall : Nat → ℚ} {frame : EnrichedFrame}

theorem div_zero (x : ℚ) : Binary64.div 0 x = 0 := by
  rw [Binary64.div, zero_div, Binary64.round, if_pos le_rfl, Binary64.onGrid_zero]

theorem Usable.expectedHz_ne_none {cycle : PyNumber} (h : Usable cycle) :
    expectedHz cycle ≠ none := by
  obtain ⟨c, hc, hne⟩ := h
  have hpos : c ≠ 0 := by
    rintro rfl
    exact hne (div_zero 1000)
  have hdiv : expectedHz cycle = some (Binary64.div 1000 c) := by
    simp [expectedHz, hc, Binary64.div?, hpos]
  rw [hdiv]
  exact Option.some_ne_none _

theorem below_isSome (value : SignalValue) (bound : Option PyNumber) :
    (value.below bound).isSome ↔ ∀ text, value = .label text → bound = none := by
  cases value <;> cases bound <;> simp [SignalValue.below]

theorem above_isSome (value : SignalValue) (bound : Option PyNumber) :
    (value.above bound).isSome ↔ ∀ text, value = .label text → bound = none := by
  cases value <;> cases bound <;> simp [SignalValue.above]

theorem checkSignal_isSome (msgDef : Message) (frame : EnrichedFrame) (state : MessageState)
    (wall : Nat → ℚ) (m : BehavioralMonitor) (p : String × SignalValue) :
    (checkSignal msgDef frame state wall m p).isSome ↔ Comparable msgDef p := by
  obtain ⟨name, value⟩ := p
  rw [checkSignal, Comparable]
  cases msgDef.getSignalByName name with
  | none => simp
  | some sig =>
    cases value with
    | number x =>
      have hbelow := (below_isSome (.number x) sig.minimum).mpr (by simp)
      have habove := (above_isSome (.number x) sig.maximum).mpr (by simp)
      obtain ⟨b, hb⟩ := Option.isSome_iff_exists.mp hbelow
      obtain ⟨a, ha⟩ := Option.isSome_iff_exists.mp habove
      simp only [hb, ha, Option.bind_eq_bind, Option.bind_some]
      cases b <;> cases a <;> simp
    | label text =>
      cases hmin : sig.minimum <;> cases hmax : sig.maximum <;>
        simp [SignalValue.below, SignalValue.above, hmin, hmax]

theorem checkSignals_raises (m : BehavioralMonitor) (frame : EnrichedFrame) (state : MessageState)
    (wall : Nat → ℚ) :
    (m.checkSignals frame state wall).2 = false ↔
      ∀ msgDef decoded, m.db.getMessageByFrameId frame.arbId = some msgDef →
        m.db.decodeMessage frame.arbId frame.data = some decoded →
          ∀ p ∈ decoded.items, Comparable msgDef p := by
  rw [checkSignals]
  cases hdef : m.db.getMessageByFrameId frame.arbId with
  | none => simp
  | some msgDef =>
    cases hdec : m.db.decodeMessage frame.arbId frame.data with
    | none => simp
    | some decoded =>
      have hpass : ∀ s, ∀ p ∈ decoded.items,
          (checkSignal msgDef frame state wall s p).isSome ↔ Comparable msgDef p :=
        fun s p _ => checkSignal_isSome msgDef frame state wall s p
      have hloop := ForLoop.tryFold_raises hpass m
      dsimp only
      split_ifs with hraised
      · rw [hraised] at hloop
        simpa using hloop
      · rw [Bool.not_eq_true] at hraised
        simpa [hraised] using hloop

theorem checkTimeout_isSome (now : ℚ) (wall : Nat → ℚ) (m : BehavioralMonitor)
    (state : MessageState) :
    (checkTimeout now wall m state).isSome ↔
      ∀ cycle, state.cycleTimeMs = some cycle → state.isKnown → Usable cycle := by
  rw [checkTimeout]
  cases hcycle : state.cycleTimeMs with
  | none => simp
  | some cycle =>
    cases hknown : state.isKnown with
    | false => simp
    | true =>
      cases hc : cycle.toFloat? with
      | none => simp [Usable, hc]
      | some c =>
        by_cases hzero : Binary64.div c 1000 = 0
        · simp [Usable, hc, Binary64.div?, hzero]
        · have husable : Usable cycle := ⟨c, hc, hzero⟩
          refine iff_of_true ?_ ?_
          · simp only [Binary64.div?, if_neg hzero, Option.bind_eq_bind, hc, Option.bind_some]
            rw [if_neg (by decide)]
            split_ifs <;> rfl
          · intro c' hc' _
            cases hc'
            exact husable

theorem periodicStatus_isSome (now : ℚ)
    (h : ∀ cycle, state.cycleTimeMs = some cycle → state.isKnown → Usable cycle) :
    (periodicStatus now state).isSome := by
  rw [periodicStatus]
  cases hcycle : state.cycleTimeMs with
  | none => rfl
  | some cycle =>
    cases hknown : state.isKnown with
    | false => rfl
    | true =>
      obtain ⟨c, hc, -⟩ := h cycle hcycle hknown
      simp [hc]

theorem periodicMessageStatus_isSome (now : ℚ)
    (h : ∀ state ∈ m.states.values, ∀ cycle, state.cycleTimeMs = some cycle → state.isKnown →
      Usable cycle) :
    (m.periodicMessageStatus now).isSome := by
  rw [periodicMessageStatus, Option.isSome_map]
  generalize m.states.values = states at h
  induction states with
  | nil => rfl
  | cons state states ih =>
    obtain ⟨entry, hentry⟩ := Option.isSome_iff_exists.mp
      (periodicStatus_isSome now (h state List.mem_cons_self))
    obtain ⟨entries, hentries⟩ := Option.isSome_iff_exists.mp
      (ih fun s hs => h s (List.mem_cons_of_mem state hs))
    simp [List.mapM_cons, hentry, hentries]

theorem checkTimeouts_raises (m : BehavioralMonitor) (now : ℚ) (wall : Nat → ℚ) :
    (m.checkTimeouts now wall).2 = false ↔
      ∀ state ∈ m.states.values, ∀ cycle, state.cycleTimeMs = some cycle → state.isKnown →
        Usable cycle :=
  ForLoop.tryFold_raises (fun s state _ => checkTimeout_isSome now wall s state) m

theorem mem_values {id : Nat} (h : m.states.get? id = some state) : state ∈ m.states.values :=
  List.mem_map.mpr ⟨_, PyDict.mem_of_get? h, rfl⟩

theorem registered_of_known (hm : Knows db m) {id : Nat} {i : MessageInfo}
    (hi : m.info id = some i) (hknown : i.isKnown) :
    ∃ msg, db.registered id = some msg ∧ i = msg.info := by
  cases hreg : db.registered id with
  | none =>
    obtain ⟨-, -, hunknown⟩ := hm.unknown hreg hi
    rw [hunknown] at hknown
    cases hknown
  | some msg =>
    rw [hm.registered hreg] at hi
    cases hi
    exact ⟨msg, rfl, rfl⟩

theorem info_usable (hdb : Safe db) (hm : Knows db m) {id : Nat} {i : MessageInfo}
    (hi : m.info id = some i) {cycle : PyNumber} (hcycle : i.cycleTimeMs = some cycle) :
    Usable cycle := by
  cases hreg : db.registered id with
  | none =>
    obtain ⟨-, hnone, -⟩ := hm.unknown hreg hi
    rw [hnone] at hcycle
    cases hcycle
  | some msg =>
    rw [hm.registered hreg] at hi
    cases hi
    exact hdb.usable hreg hcycle

theorem values_usable (hdb : Safe db) (hm : Knows db m) (hstate : state ∈ m.states.values)
    {cycle : PyNumber} (hcycle : state.cycleTimeMs = some cycle) : Usable cycle := by
  obtain ⟨⟨id, known⟩, hmem, rfl⟩ := List.mem_map.mp hstate
  have hget := PyDict.get?_eq_some_iff.mpr hmem
  have hinfo : m.info id = some known.toMessageInfo := by
    rw [info, hget]
    rfl
  exact info_usable hdb hm hinfo hcycle

theorem stateOf_usable (hdb : Safe db) (hm : Knows db m) {cycle : PyNumber}
    (hcycle : (m.stateOf frame now).cycleTimeMs = some cycle) : Usable cycle := by
  have hinfo := stateOf_info m frame now
  cases hknown : m.info frame.arbId with
  | some i =>
    rw [hknown, Option.getD_some] at hinfo
    exact info_usable hdb hm hknown (hinfo ▸ hcycle)
  | none =>
    rw [hknown, Option.getD_none] at hinfo
    rw [hinfo] at hcycle
    cases hcycle

theorem ingest_safe (hdb : Safe db) (hm : Knows db m) (frame : EnrichedFrame) (now : ℚ)
    (wall : Nat → ℚ) : (m.ingest frame now wall).2 = false := by
  obtain ⟨_, -, hposts⟩ := counted_posts m frame now wall
  have hdb' : (m.counted frame now wall).db = m.db := hposts.db_eq
  have hsignals : ∀ m' : BehavioralMonitor, m'.db = db → (m.stateOf frame now).isKnown →
      (m'.checkSignals frame (receive (m.stateOf frame now) now) wall).2 = false := by
    intro m' hm' hknown
    rw [checkSignals_raises]
    intro msgDef decoded hdef hdec
    have hinfo := stateOf_info m frame now
    cases hi : m.info frame.arbId with
    | none =>
      rw [hi, Option.getD_none] at hinfo
      rw [hinfo] at hknown
      cases hknown
    | some i =>
      rw [hi, Option.getD_some] at hinfo
      obtain ⟨msg, hreg, -⟩ := registered_of_known hm hi (hinfo ▸ hknown)
      exact hdb.comparable hreg (hm' ▸ hdef) (hm' ▸ hdec)
  rw [ingest_eq]
  obtain ⟨-, cycle, hcycle, hhz⟩ | ⟨hcheck, -⟩ | ⟨cycle, msg, -, -, hcheck⟩ :=
    checkBabble_cases (m.counted frame now wall) (receive (m.stateOf frame now) now) wall
  · exact absurd hhz (stateOf_usable hdb hm hcycle).expectedHz_ne_none
  · rw [hcheck]
    dsimp only
    split_ifs with hknown
    · exact hsignals _ (hdb'.trans hm.db_eq) hknown
    · rfl
  · rw [hcheck]
    dsimp only
    split_ifs with hknown
    · exact hsignals _ (hdb'.trans hm.db_eq) hknown
    · rfl

theorem step_safe (hdb : Safe db) {s : Session} (hm : Knows db s.monitor)
    (hs : s.raised = false) (c : Call) : (s.step c).raised = false := by
  cases c with
  | ingest frame now wall =>
    rw [Session.step, hs]
    exact ingest_safe hdb hm frame now wall
  | checkTimeouts now wall =>
    rw [Session.step, hs]
    apply (checkTimeouts_raises s.monitor now wall).mpr
    intro state hstate cycle hcycle _
    exact values_usable hdb hm hstate hcycle
  | periodicMessageStatus now =>
    have hsome := periodicMessageStatus_isSome now fun state hstate cycle hcycle _ =>
      values_usable hdb hm hstate hcycle
    rw [Session.step, hs, Option.isNone_eq_false_iff.mpr hsome]
    rfl
  | drainAlerts => exact hs

theorem run_safe (hdb : Safe db) (boot : Nat → ℚ) (calls : List Call) :
    ((start db boot).run calls).raised = false := by
  induction calls using List.reverseRecOn with
  | nil => rfl
  | append_singleton calls c ih =>
    rw [Session.run_concat]
    exact step_safe hdb (knows_run db boot calls) ih c

def frameOf (id : Nat) (data : List UInt8) : EnrichedFrame :=
  ⟨id, data.length, data, false, none, 0, 0⟩

theorem clocked_single (c : Call) (h : ∀ t, instant c = some t → t = 0) :
    Clocked (fun _ => 0) [c] := by
  cases hc : instant c with
  | none => simp [Clocked, hc]
  | some t => simp [Clocked, hc, h t hc]

theorem usable_of_neverRaises (h : NeverRaises db) {id : Nat} {msg : Message} {cycle : PyNumber}
    (hreg : db.registered id = some msg) (hcycle : msg.cycleTime = some cycle) : Usable cycle := by
  have hscan := h (fun _ => 0) [.checkTimeouts 0 fun _ => 0]
    (clocked_single _ fun t ht => (Option.some.inj ht).symm)
  have hinfo := (knows_init db fun _ => 0).registered hreg
  obtain ⟨state, hstate, hfields⟩ := Option.map_eq_some_iff.mp hinfo
  have hall := (checkTimeouts_raises (init db fun _ => 0) 0 fun _ => 0).mp hscan state
    (mem_values hstate)
  exact hall cycle (by rw [hfields]; exact hcycle) (by rw [hfields]; rfl)

theorem comparable_of_ingest (hknown : (m.stateOf frame now).isKnown)
    (h : (m.ingest frame now wall).2 = false) {msgDef : Message}
    {decoded : PyDict String SignalValue}
    (hdef : m.db.getMessageByFrameId frame.arbId = some msgDef)
    (hdec : m.db.decodeMessage frame.arbId frame.data = some decoded) :
    ∀ p ∈ decoded.items, Comparable msgDef p := by
  obtain ⟨_, -, hposts⟩ := counted_posts m frame now wall
  rw [← hposts.db_eq] at hdef hdec
  rw [ingest_eq] at h
  obtain ⟨hcheck, -⟩ | ⟨hcheck, -⟩ | ⟨cycle, text, -, -, hcheck⟩ :=
    checkBabble_cases (m.counted frame now wall) (receive (m.stateOf frame now) now) wall
  · rw [hcheck] at h
    cases h
  · rw [hcheck] at h
    dsimp only at h
    rw [if_pos hknown, checkSignals_raises] at h
    exact h msgDef decoded hdef hdec
  · rw [hcheck] at h
    dsimp only at h
    rw [if_pos hknown, checkSignals_raises] at h
    exact h msgDef decoded hdef hdec

theorem comparable_of_neverRaises (h : NeverRaises db) {id : Nat} {msg : Message}
    {data : List UInt8} {msgDef : Message} {decoded : PyDict String SignalValue}
    (hreg : db.registered id = some msg) (hdef : db.getMessageByFrameId id = some msgDef)
    (hdec : db.decodeMessage id data = some decoded) :
    ∀ p ∈ decoded.items, Comparable msgDef p := by
  have hflag := h (fun _ => 0) [.ingest (frameOf id data) 0 fun _ => 0]
    (clocked_single _ fun t ht => (Option.some.inj ht).symm)
  have hmsg : (init db fun _ => 0).info (frameOf id data).arbId = some msg.info :=
    (knows_init db fun _ => 0).registered hreg
  have hknown : ((init db fun _ => 0).stateOf (frameOf id data) 0).isKnown := by
    rw [stateOf_info, hmsg]
    rfl
  exact comparable_of_ingest hknown hflag hdef hdec

/-- The calls of the monitor never raise exactly if the cycle times of the database can be divided
by and no label stands where a signal has a bound. -/
theorem never_raises_iff (db : Database) : NeverRaises db ↔ Safe db := by
  constructor
  · intro h
    exact ⟨usable_of_neverRaises h, comparable_of_neverRaises h⟩
  · intro hdb boot calls _
    exact run_safe hdb boot calls

def zeroCycle : Database where
  messages := [⟨0x100, "Status", 8, some (.int 0), fun _ => none⟩]
  getMessageByFrameId := fun _ => none
  decodeMessage := fun _ _ => none

/-- The first scan divides by the cycle time 0. -/
theorem zero_cycle_raises : ¬ NeverRaises zeroCycle := by
  intro h
  have hrun := h (fun _ => 0) [.checkTimeouts 1 fun _ => 0] (by simp [Clocked, instant])
  exact absurd hrun (by decide +kernel)

end CanSniffer.MonitorSafety
