import CanSniffer.CaptureRuns

namespace CanSniffer.CaptureCollection

open Library Library.Trace Models TriggerCapture CaptureRecord

variable {preSize postSize : Nat} {r : CaptureRecord preSize postSize}

/-- Every saved session has been handed out, or is the one that waits to be. -/
def NoneLost (r : CaptureRecord preSize postSize) : Prop :=
  r.saves.map Prod.snd = r.popped ++ r.trig.pending.toList

def Saves (r : CaptureRecord preSize postSize) : Op → Prop
  | .ingest _ _ _ _ => r.trig.Completes
  | .arm _ | .disarm | .fire | .popCompleted => False

instance (r : CaptureRecord preSize postSize) : (op : Op) → Decidable (Saves r op)
  | .ingest _ _ _ _ => inferInstanceAs (Decidable r.trig.Completes)
  | .arm _ | .disarm | .fire | .popCompleted => instDecidableFalse

/-- Whenever a collection ends, the session before it has been handed out. -/
def PoppedInTime (preSize postSize : Nat) (ops : List Op) : Prop :=
  AllSteps (fun r op => r.bind fun r => r.step op)
    (fun (r : Option (CaptureRecord preSize postSize)) op => ∀ q ∈ r, Saves q op →
      q.trig.pending = none)
    (some {}) ops

/-- A call either saves nothing and only moves the waiting session out, or it saves one
session, which then waits. -/
theorem apply_account {op : Op} {t : TriggerCapture preSize postSize} (hcond : r.trig.Conditioned)
    (hop : r.trig.apply op = some t) :
    (¬ Saves r op ∧ r.savedBy op = [] ∧
        r.poppedBy op ++ t.pending.toList = r.trig.pending.toList) ∨
      (Saves r op ∧ ∃ s, r.savedBy op = [(r.firedAt, s)] ∧ r.poppedBy op = [] ∧
        t.pending = some s) := by
  cases op with
  | arm condition =>
    cases hop
    exact Or.inl ⟨id, rfl, rfl⟩
  | disarm =>
    cases hop
    exact Or.inl ⟨id, rfl, rfl⟩
  | fire =>
    cases hop
    refine Or.inl ⟨id, rfl, ?_⟩
    rw [fire]
    split_ifs <;> rfl
  | popCompleted =>
    cases hop
    exact Or.inl ⟨id, rfl, by simp [poppedBy, popCompleted]⟩
  | ingest frame busLoad id now =>
    rw [apply] at hop
    cases hstate : r.trig.state with
    | idle =>
      rw [ingest_idle hstate] at hop
      cases hop
      have hno : ¬ r.trig.Completes := by simp [Completes, hstate]
      exact Or.inl ⟨hno, by simp [savedBy, hno], rfl⟩
    | armed =>
      obtain ⟨cond, hc⟩ := Option.isSome_iff_exists.mp (hcond (by simp [hstate]))
      rw [ingest_armed hstate hc] at hop
      have hno : ¬ r.trig.Completes := by simp [Completes, hstate]
      have hpend : t.pending = r.trig.pending := by
        rw [← Option.some.inj hop]
        split_ifs <;> rfl
      exact Or.inl ⟨hno, by simp [savedBy, hno], by rw [hpend]; rfl⟩
    | collecting =>
      rw [ingest_collecting hstate] at hop
      by_cases hdone : r.trig.Completes
      · rw [if_pos hdone] at hop
        cases hop
        exact Or.inr ⟨hdone, _, by rw [savedBy, if_pos hdone], rfl, rfl⟩
      · rw [if_neg hdone] at hop
        cases hop
        exact Or.inl ⟨hdone, by rw [savedBy, if_neg hdone], rfl⟩

theorem handed_le {op : Op} {t : TriggerCapture preSize postSize} (hcond : r.trig.Conditioned)
    (hop : r.trig.apply op = some t)
    (h : r.popped.length + r.trig.pending.toList.length ≤ r.saves.length) :
    (r.after op t).popped.length + (r.after op t).trig.pending.toList.length ≤
      (r.after op t).saves.length := by
  simp only [after, List.length_append]
  obtain ⟨-, hsaved, hmoved⟩ | ⟨-, s, hsaved, hpop, hpend⟩ := apply_account hcond hop
  · have hlen := congrArg List.length hmoved
    rw [List.length_append] at hlen
    rw [hsaved]
    simp only [List.length_nil]
    omega
  · rw [hsaved, hpop, hpend]
    simp only [Option.toList_some, List.length_singleton, List.length_nil]
    omega

theorem noneLost_after {op : Op} {t : TriggerCapture preSize postSize} (hcond : r.trig.Conditioned)
    (hop : r.trig.apply op = some t)
    (hle : r.popped.length + r.trig.pending.toList.length ≤ r.saves.length) :
    NoneLost (r.after op t) ↔ NoneLost r ∧ (Saves r op → r.trig.pending = none) := by
  simp only [NoneLost, after, List.map_append, List.append_assoc]
  obtain ⟨hno, hsaved, hmoved⟩ | ⟨hsave, s, hsaved, hpop, hpend⟩ := apply_account hcond hop
  · rw [hsaved, hmoved]
    simp [hno]
  · rw [hsaved, hpop, hpend]
    cases hwait : r.trig.pending with
    | none => simp
    | some old =>
      -- the list of saved sessions is longer than what was handed out
      rw [hwait] at hle
      have hne : r.saves.map Prod.snd ≠ r.popped := by
        intro he
        have hlen := congrArg List.length he
        simp only [List.length_map, Option.toList_some, List.length_singleton] at hlen hle
        omega
      simp [hsave, hne]

/-- No completed session is lost exactly when each is popped before the next completes. -/
theorem popCompleted_collects_iff (ops : List Op) :
    (∃ r, run preSize postSize ops = some r ∧ NoneLost r) ↔ PoppedInTime preSize postSize ops := by
  induction ops using List.reverseRecOn with
  | nil => exact ⟨fun _ => trivial, fun _ => ⟨{}, rfl, rfl⟩⟩
  | append_singleton ops op ih =>
    obtain ⟨r, hr, hcond⟩ := run_total preSize postSize ops
    obtain ⟨t, ht, -⟩ := apply_spec hcond op
    have hle := run_invariant
      (I := fun r : CaptureRecord preSize postSize =>
        r.popped.length + r.trig.pending.toList.length ≤ r.saves.length)
      (Nat.le_refl 0) (fun _ _ _ hc hI hop => handed_le hc hop hI) ops r hr
    have hnext : run preSize postSize (ops ++ [op]) = some (r.after op t) := by
      rw [run_snoc, hr, Option.bind_some, step, ht, Option.map_some]
    have hfold : ops.foldl (fun r op => r.bind fun r => r.step op) (some {}) = some r := hr
    have hstep := noneLost_after hcond ht hle
    rw [PoppedInTime, allSteps_snoc, hfold]
    rw [hr] at ih
    simp only [Option.some.injEq, exists_eq_left', hnext, Option.mem_def, forall_eq'] at ih ⊢
    rw [hstep, ih]
    exact Iff.rfl

/-- Two collections that end before the first poll, with the frame that triggers the second
right behind the end of the first. -/
def burst : List Op :=
  [.arm { type := .arbId, arbId := some 1 },
    .ingest (emptyFrame 1 1) 0 "a" 1, .ingest (emptyFrame 2 2) 0 "a" 2,
    .ingest (emptyFrame 1 3) 0 "b" 3, .ingest (emptyFrame 2 4) 0 "b" 4, .popCompleted]

/-- The second session takes the place of the first, which is never handed out. -/
theorem pending_overwritten : ¬ ∀ preSize postSize ops,
    ∃ r, run preSize postSize ops = some r ∧ NoneLost r := by
  intro h
  obtain ⟨r, hr, hlost⟩ := h 1 1 burst
  have hcounts : (run 1 1 burst).map
      (fun r => (r.saves.length, r.popped.length + r.trig.pending.toList.length)) = some (2, 1) := by
    decide
  rw [hr, Option.map_some, Option.some.injEq, Prod.mk.injEq] at hcounts
  have hlen := congrArg List.length hlost
  rw [List.length_map, List.length_append] at hlen
  omega

end CanSniffer.CaptureCollection
