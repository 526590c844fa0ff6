import CanSniffer.CaptureCollection

namespace CanSniffer.TriggerStates

open Library Library.Newest Models TriggerCapture CaptureRecord CaptureCollection

def ingested (ops : List Op) : List FrameDict :=
  ops.filterMap fun
    | .ingest frame _ _ _ => some frame.toDict
    | .arm _ | .disarm | .fire | .popCompleted => none

def Rearms : Op → Prop
  | .arm _ | .disarm => True
  | .fire | .ingest _ _ _ _ | .popCompleted => False

instance : (op : Op) → Decidable (Rearms op)
  | .arm _ | .disarm => instDecidableTrue
  | .fire | .ingest _ _ _ _ | .popCompleted => instDecidableFalse

variable (preSize postSize : Nat)

/-- After the calls `before` the capture is armed with `cond`, the call `trigger` triggers it,
and none of the calls `during` arms or disarms it. -/
structure Triggered (cond : Option TriggerCondition) (before : List Op) (trigger : Op)
    (during : List Op) : Prop where
  fires : ∃ q t, run preSize postSize before = some q ∧ q.trig.state = .armed ∧
    q.trig.cond = cond ∧ q.trig.apply trigger = some t ∧ t.state = .collecting
  quiet : ∀ op ∈ during, ¬ Rearms op

/-- The call `last` saves the session `s`, after `n` others, from the frames that came since the
call `trigger`, and leaves the capture armed as it was. -/
structure Captured (cond : Option TriggerCondition) (n : Nat) (before : List Op) (trigger : Op)
    (during : List Op) (last : Op) (s : CaptureSession) : Prop
    extends Triggered preSize postSize cond before trigger during where
  saves : ∃ q t, run preSize postSize (before ++ trigger :: during) = some q ∧
    q.saves.length = n ∧ q.savedBy last = [(q.firedAt, s)] ∧ q.trig.apply last = some t ∧
    t.state = .armed ∧ t.cond = cond
  frames : s.postFrames = ingested (during ++ [last])

variable {preSize postSize} {r : CaptureRecord preSize postSize} {op : Op}
  {t : TriggerCapture preSize postSize}

theorem ingested_append (ops more : List Op) :
    ingested (ops ++ more) = ingested ops ++ ingested more := List.filterMap_append

theorem saves_cases (hsave : Saves r op) :
    ∃ frame busLoad id now, op = .ingest frame busLoad id now ∧ r.trig.Completes := by
  cases op with
  | ingest frame busLoad id now => exact ⟨frame, busLoad, id, now, rfl, hsave⟩
  | arm condition => exact hsave.elim
  | disarm => exact hsave.elim
  | fire => exact hsave.elim
  | popCompleted => exact hsave.elim

theorem apply_of_saves {frame : EnrichedFrame} {busLoad : ℚ} {id : String} {now : ℚ}
    (hdone : r.trig.Completes) (hop : r.trig.apply (.ingest frame busLoad id now) = some t) :
    t = (r.trig.addPost frame.toDict).saveSession id now ∧
      r.savedBy (.ingest frame busLoad id now) =
        [(r.firedAt, (r.trig.addPost frame.toDict).session id now)] := by
  rw [apply, ingest_collecting hdone.1, if_pos hdone] at hop
  exact ⟨(Option.some.inj hop).symm, by rw [savedBy, if_pos hdone]⟩

theorem apply_of_collects (hstate : r.trig.state = .collecting) (hquiet : ¬ Rearms op)
    (hno : ¬ Saves r op) (hop : r.trig.apply op = some t) :
    t.state = .collecting ∧ t.cond = r.trig.cond ∧ t.postBuf = r.trig.postBuf ++ ingested [op] := by
  cases op with
  | arm condition => exact absurd trivial hquiet
  | disarm => exact absurd trivial hquiet
  | fire =>
    have harmed : ¬ r.trig.state = .armed := by simp [hstate]
    rw [apply, fire, if_neg harmed] at hop
    cases hop
    exact ⟨hstate, rfl, (List.append_nil _).symm⟩
  | popCompleted =>
    cases hop
    exact ⟨hstate, rfl, (List.append_nil _).symm⟩
  | ingest frame busLoad id now =>
    have hmore : ¬ r.trig.Completes := hno
    rw [apply, ingest_collecting hstate, if_neg hmore] at hop
    cases hop
    exact ⟨hstate, rfl, rfl⟩

theorem collecting_cases (hcond : r.trig.Conditioned) (hop : r.trig.apply op = some t)
    (ht : t.state = .collecting) :
    (r.trig.state = .armed ∧ t.cond = r.trig.cond ∧ t.postBuf = []) ∨
      (r.trig.state = .collecting ∧ ¬ Rearms op ∧ ¬ Saves r op) := by
  cases op with
  | arm condition => cases hop; cases ht
  | disarm => cases hop; cases ht
  | fire =>
    rw [apply, fire] at hop
    split_ifs at hop with harmed <;> cases hop
    · exact Or.inl ⟨harmed, rfl, rfl⟩
    · exact Or.inr ⟨ht, id, id⟩
  | popCompleted =>
    cases hop
    exact Or.inr ⟨ht, id, id⟩
  | ingest frame busLoad id now =>
    rw [apply] at hop
    cases hstate : r.trig.state with
    | idle =>
      rw [ingest_idle hstate] at hop
      cases hop
      rw [hstate] at ht
      cases ht
    | armed =>
      obtain ⟨cond, hc⟩ := Option.isSome_iff_exists.mp (hcond (by simp [hstate]))
      rw [ingest_armed hstate hc] at hop
      split_ifs at hop <;> cases hop
      · exact Or.inl ⟨rfl, rfl, rfl⟩
      · rw [addPre, hstate] at ht
        cases ht
    | collecting =>
      refine Or.inr ⟨rfl, fun h => h, fun hdone => ?_⟩
      have hdone : r.trig.Completes := hdone
      rw [ingest_collecting hstate, if_pos hdone] at hop
      cases hop
      cases ht

/-- What the buffers and the list of sessions hold after every call. -/
structure Bounded (r : CaptureRecord preSize postSize) : Prop where
  post : r.trig.postBuf.length < max 1 postSize
  captures : r.trig.captures.items = (r.saves.map Prod.snd).rtake 20

theorem bounded_kept (h : Bounded r) (hsaves : r.savedBy op = [])
    (hcaptures : t.captures = r.trig.captures)
    (hpost : t.postBuf.length < max 1 postSize) : Bounded (r.after op t) := by
  refine ⟨hpost, ?_⟩
  rw [after, hsaves, List.append_nil, hcaptures]
  exact h.captures

theorem bounded_after (hcond : r.trig.Conditioned) (h : Bounded r)
    (hop : r.trig.apply op = some t) :
    Bounded (r.after op t) := by
  have hempty : ([] : List FrameDict).length < max 1 postSize := by simp
  cases op with
  | arm condition => cases hop; exact bounded_kept h rfl rfl hempty
  | disarm => cases hop; exact bounded_kept h rfl rfl hempty
  | popCompleted => cases hop; exact bounded_kept h rfl rfl h.post
  | fire =>
    rw [apply, fire] at hop
    split_ifs at hop <;> cases hop
    · exact bounded_kept h rfl rfl hempty
    · exact bounded_kept h rfl rfl h.post
  | ingest frame busLoad id now =>
    by_cases hdone : r.trig.Completes
    · obtain ⟨rfl, hsaved⟩ := apply_of_saves hdone hop
      refine ⟨hempty, ?_⟩
      rw [after, hsaved, List.map_append]
      exact Deque.items_append_rtake h.captures _
    · have hsaved : r.savedBy (.ingest frame busLoad id now) = [] := by rw [savedBy, if_neg hdone]
      rw [apply] at hop
      cases hstate : r.trig.state with
      | idle =>
        rw [ingest_idle hstate] at hop
        cases hop
        exact bounded_kept h hsaved rfl h.post
      | armed =>
        obtain ⟨cond, hc⟩ := Option.isSome_iff_exists.mp (hcond (by simp [hstate]))
        rw [ingest_armed hstate hc] at hop
        split_ifs at hop <;> cases hop
        · exact bounded_kept h hsaved rfl hempty
        · exact bounded_kept h hsaved rfl h.post
      | collecting =>
        rw [ingest_collecting hstate, if_neg hdone] at hop
        cases hop
        refine bounded_kept h hsaved rfl ?_
        have hfew : ¬ postSize ≤ r.trig.postBuf.length + 1 := fun hle => hdone ⟨hstate, hle⟩
        simp only [addPost, List.length_append, List.length_singleton]
        omega

theorem run_bounded {ops : List Op} (hr : run preSize postSize ops = some r) : Bounded r :=
  run_invariant (I := Bounded) ⟨by simp, by simp [Deque.empty]⟩
    (fun _ _ _ hcond h hop => bounded_after hcond h hop) ops r hr

theorem run_snoc_some {ops : List Op} (hr : run preSize postSize (ops ++ [op]) = some r) :
    ∃ q t, run preSize postSize ops = some q ∧ q.trig.Conditioned ∧ q.trig.apply op = some t ∧
      r = q.after op t := by
  obtain ⟨q, hq, hcond⟩ := run_total preSize postSize ops
  rw [run_snoc, hq, Option.bind_some, step] at hr
  obtain ⟨t, ht, rfl⟩ := Option.map_eq_some_iff.mp hr
  exact ⟨q, t, hq, hcond, ht, rfl⟩

theorem triggered_of_collecting {ops : List Op} (hr : run preSize postSize ops = some r)
    (hstate : r.trig.state = .collecting) :
    ∃ before trigger during, ops = before ++ trigger :: during ∧
      Triggered preSize postSize r.trig.cond before trigger during ∧
      r.trig.postBuf = ingested during := by
  induction ops using List.reverseRecOn generalizing r with
  | nil =>
    cases hr
    cases hstate
  | append_singleton ops op ih =>
    obtain ⟨q, t, hq, hcond, ht, rfl⟩ := run_snoc_some hr
    obtain ⟨harmed, hc, hbuf⟩ | ⟨hcoll, hquiet, hno⟩ := collecting_cases hcond ht hstate
    · exact ⟨ops, op, [], rfl, ⟨⟨q, t, hq, harmed, hc.symm, ht, hstate⟩, by simp⟩, hbuf⟩
    · obtain ⟨before, trigger, during, rfl, htrig, hbuf⟩ := ih hq hcoll
      obtain ⟨-, hc, hpost⟩ := apply_of_collects hcoll hquiet hno ht
      refine ⟨before, trigger, during ++ [op], by simp, ⟨?_, ?_⟩, ?_⟩
      · dsimp only [after]
        rw [hc]
        exact htrig.fires
      · intro later hlater
        obtain hlater | hlater := List.mem_append.mp hlater
        · exact htrig.quiet later hlater
        · rwa [List.mem_singleton.mp hlater]
      · dsimp only [after]
        rw [hpost, hbuf, ingested_append]

/-- A triggered capture collects until it has all its frames. -/
theorem triggered_run {cond : Option TriggerCondition} {before during : List Op} {trigger : Op}
    (h : Triggered preSize postSize cond before trigger during)
    (hfew : (ingested during).length < max 1 postSize) :
    ∃ r, run preSize postSize (before ++ trigger :: during) = some r ∧
      r.trig.state = .collecting ∧ r.trig.cond = cond ∧ r.trig.postBuf = ingested during := by
  induction during using List.reverseRecOn with
  | nil =>
    obtain ⟨q, t, hq, harmed, hc, ht, hstate⟩ := h.fires
    obtain ⟨q', hq', hcond⟩ := run_total preSize postSize before
    obtain rfl := Option.some.inj (hq'.symm.trans hq)
    obtain ⟨-, ht', hbuf⟩ | ⟨hcoll, -, -⟩ := collecting_cases hcond ht hstate
    · refine ⟨q'.after trigger t, ?_, hstate, ht'.trans hc, hbuf⟩
      rw [run_snoc, hq, Option.bind_some, step, ht, Option.map_some]
    · rw [harmed] at hcoll
      cases hcoll
  | append_singleton during op ih =>
    rw [ingested_append, List.length_append] at hfew
    have hshort : Triggered preSize postSize cond before trigger during :=
      ⟨h.fires, fun later hlater => h.quiet later (List.mem_append_left _ hlater)⟩
    obtain ⟨r, hr, hcoll, hc, hbuf⟩ := ih hshort (by omega)
    obtain ⟨r', hr', hcond⟩ := run_total preSize postSize (before ++ trigger :: during)
    obtain rfl := Option.some.inj (hr'.symm.trans hr)
    obtain ⟨t, ht, -⟩ := apply_spec hcond op
    have hno : ¬ Saves r' op := by
      intro hsave
      obtain ⟨frame, busLoad, id, now, rfl, hdone⟩ := saves_cases hsave
      have hfull := hdone.2
      have hone : (ingested [.ingest frame busLoad id now]).length = 1 := rfl
      rw [hbuf] at hfull
      omega
    obtain ⟨hstate, ht', hpost⟩ := apply_of_collects hcoll (h.quiet op (by simp)) hno ht
    refine ⟨r'.after op t, ?_, hstate, ht'.trans hc, ?_⟩
    · rw [← List.cons_append, ← List.append_assoc, run_snoc, hr, Option.bind_some, step, ht,
        Option.map_some]
    · rw [ingested_append, ← hbuf]
      exact hpost

theorem captured_of_triggered {cond : Option TriggerCondition} {before during : List Op}
    {trigger : Op} (h : Triggered preSize postSize cond before trigger during)
    (hfull : (ingested during).length + 1 = max 1 postSize) (frame : EnrichedFrame) (busLoad : ℚ)
    (id : String) (now : ℚ) :
    ∃ n s, Captured preSize postSize cond n before trigger during (.ingest frame busLoad id now) s ∧
      s.triggerTs = now := by
  obtain ⟨r, hr, hcoll, hc, hbuf⟩ := triggered_run h (by omega)
  have hdone : r.trig.Completes := ⟨hcoll, by rw [hbuf]; omega⟩
  have hop : r.trig.apply (.ingest frame busLoad id now) =
      some ((r.trig.addPost frame.toDict).saveSession id now) := by
    rw [apply, ingest_collecting hcoll, if_pos hdone]
  obtain ⟨-, hsaved⟩ := apply_of_saves hdone hop
  refine ⟨r.saves.length, _, ⟨h, ⟨r, _, hr, rfl, hsaved, hop, rfl, hc⟩, ?_⟩, rfl⟩
  rw [ingested_append, ← hbuf]
  rfl

theorem savedBy_of_not_saves (hno : ¬ Saves r op) : r.savedBy op = [] := by
  cases op with
  | ingest frame busLoad id now =>
    have hmore : ¬ r.trig.Completes := hno
    rw [savedBy, if_neg hmore]
  | arm condition => rfl
  | disarm => rfl
  | fire => rfl
  | popCompleted => rfl

theorem session_of_savedBy {ops : List Op} (hr : run preSize postSize ops = some r) {k : Nat}
    {s : CaptureSession} (hsaved : r.savedBy op = [(k, s)]) :
    ∃ frame busLoad id now, op = .ingest frame busLoad id now ∧ s.triggerTs = now ∧
      s.postFrames.length = max 1 postSize := by
  have hsave : Saves r op := by
    by_contra hno
    rw [savedBy_of_not_saves hno] at hsaved
    cases hsaved
  obtain ⟨frame, busLoad, id, now, rfl, hdone⟩ := saves_cases hsave
  rw [savedBy, if_pos hdone] at hsaved
  cases hsaved
  refine ⟨frame, busLoad, id, now, rfl, rfl, ?_⟩
  have hpost := (run_bounded hr).post
  have hfull := hdone.2
  simp only [session, addPost, List.length_append, List.length_singleton]
  omega

theorem captured_of_saves {ops : List Op} (hr : run preSize postSize ops = some r)
    (hsave : Saves r op) (hop : r.trig.apply op = some t) :
    ∃ before trigger during s, ops = before ++ trigger :: during ∧
      r.savedBy op = [(r.firedAt, s)] ∧
      Captured preSize postSize r.trig.cond r.saves.length before trigger during op s := by
  obtain ⟨frame, busLoad, id, now, rfl, hdone⟩ := saves_cases hsave
  obtain ⟨ht, hsaved⟩ := apply_of_saves hdone hop
  obtain ⟨before, trigger, during, rfl, htrig, hbuf⟩ := triggered_of_collecting hr hdone.1
  refine ⟨before, trigger, during, _, rfl, hsaved, htrig, ?_, ?_⟩
  · exact ⟨r, t, hr, rfl, hsaved, hop, by rw [ht]; rfl, by rw [ht]; rfl⟩
  · rw [ingested_append, ← hbuf]
    rfl

theorem saved_captured {ops : List Op} (hr : run preSize postSize ops = some r) {i : Nat}
    {e : Nat × CaptureSession} (he : r.saves[i]? = some e) :
    e.2.postFrames.length = max 1 postSize ∧ ∃ cond before trigger during last rest,
      ops = before ++ trigger :: during ++ last :: rest ∧
      Captured preSize postSize cond i before trigger during last e.2 := by
  induction ops using List.reverseRecOn generalizing r with
  | nil =>
    cases hr
    cases he
  | append_singleton ops op ih =>
    obtain ⟨q, t, hq, hcond, ht, rfl⟩ := run_snoc_some hr
    obtain hlt | hge := Nat.lt_or_ge i q.saves.length
    · have hold : q.saves[i]? = some e := by rwa [after, List.getElem?_append_left hlt] at he
      obtain ⟨hlen, cond, before, trigger, during, last, rest, rfl, hcapt⟩ := ih hq hold
      exact ⟨hlen, cond, before, trigger, during, last, rest ++ [op], by simp, hcapt⟩
    · by_cases hsave : Saves q op
      · obtain ⟨before, trigger, during, s, rfl, hsaved, hcapt⟩ := captured_of_saves hq hsave ht
        obtain ⟨-, -, -, -, -, -, hlen⟩ := session_of_savedBy hq hsaved
        rw [after, hsaved, List.getElem?_append_right hge] at he
        have hi : i = q.saves.length := by
          have := (List.getElem?_eq_some_iff.mp he).1
          rw [List.length_singleton] at this
          omega
        rw [hi, Nat.sub_self] at he
        cases he
        exact ⟨hlen, _, before, trigger, during, op, [], rfl, hi ▸ hcapt⟩
      · rw [after, savedBy_of_not_saves hsave, List.append_nil] at he
        exact absurd (List.getElem?_eq_some_iff.mp he).1 (Nat.not_lt.mpr hge)

/-- A capture that is not idle has a condition, its buffers keep to their sizes, and each
saved session holds the frames of the calls that followed its trigger. -/
theorem trigger_state_machine (preSize postSize : Nat) (hpost : 1 ≤ postSize) (ops : List Op) :
    ∃ r, run preSize postSize ops = some r ∧
      (r.trig.state ≠ .idle → r.trig.cond.isSome) ∧
      r.trig.postBuf.length < postSize ∧ r.trig.preBuf.items.length ≤ preSize ∧
      r.trig.captures.items = (r.saves.map Prod.snd).rtake 20 ∧
      ∀ (i : Nat) (e : Nat × CaptureSession), r.saves[i]? = some e →
        e.2.postFrames.length = postSize ∧ ∃ cond before trigger during last rest,
          ops = before ++ trigger :: during ++ last :: rest ∧
          Captured preSize postSize cond i before trigger during last e.2 := by
  obtain ⟨r, hr, hcond⟩ := run_total preSize postSize ops
  have hbounded := run_bounded hr
  have hsize : max 1 postSize = postSize := max_eq_right hpost
  have hroom := hbounded.post
  rw [hsize] at hroom
  refine ⟨r, hr, hcond, hroom, r.trig.preBuf.bounded, hbounded.captures, ?_⟩
  intro i e he
  obtain ⟨hlen, hcapt⟩ := saved_captured hr he
  exact ⟨hlen.trans hsize, hcapt⟩

def fired : List Op :=
  [.arm { type := .manual }, .ingest (emptyFrame 1 1) 0 "a" 1, .fire,
    .ingest (emptyFrame 2 2) 0 "a" 2, .popCompleted, .ingest (emptyFrame 3 3) 0 "a" 3]

theorem trigger_state_machine_fired : ∃ r, run 2 2 fired = some r ∧
    ∀ (i : Nat) (e : Nat × CaptureSession), r.saves[i]? = some e → e.2.postFrames.length = 2 := by
  obtain ⟨r, hr, -, -, -, -, h⟩ := trigger_state_machine 2 2 (by decide) fired
  exact ⟨r, hr, fun i e he => (h i e he).1⟩

end CanSniffer.TriggerStates
