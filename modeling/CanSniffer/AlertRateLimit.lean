import CanSniffer.AlertManager

namespace CanSniffer.AlertRateLimit

open Library Models AlertManager

inductive Call
  | submit (alert : Alert) (now : ℚ)
  | resolve (t : Triple) (now : ℚ)
  deriving DecidableEq

def Call.Fresh : Call → Prop
  | .submit alert now =>
    alert.triple.Named ∧ alert.resolved = false ∧ alert.count = 1 ∧ alert.ts = now ∧
      alert.severity = alertSeverityMap alert.category
  | .resolve t _ => t.Named

instance : (c : Call) → Decidable c.Fresh
  | .submit _ _ => inferInstanceAs (Decidable (_ ∧ _))
  | .resolve t _ => inferInstanceAs (Decidable t.Named)

def Call.Submits (t : Triple) : Call → Prop
  | .submit alert _ => alert.triple = t
  | .resolve _ _ => False

structure Session where
  mgr : AlertManager
  log : List (Call × Bool)

def Session.step (s : Session) : Call → Session
  | .submit alert now =>
    let (out, mgr) := s.mgr.submit alert now
    ⟨mgr, s.log ++ [(.submit alert now, out.isSome)]⟩
  | .resolve t now => ⟨s.mgr.resolve t now, s.log ++ [(.resolve t now, false)]⟩

def run (calls : List Call) : Session := calls.foldl Session.step ⟨AlertManager.init, []⟩

/-- The submissions of a triple after its last resolution: time, and whether let through. -/
def sinceResolve (t : Triple) (log : List (Call × Bool)) : List (ℚ × Bool) :=
  log.foldl (fun subs entry =>
    match entry with
    | (.submit alert now, accepted) => if alert.triple = t then subs ++ [(now, accepted)] else subs
    | (.resolve u _, _) => if u = t then [] else subs) []

/-- An alert of the triple was submitted and not resolved since. -/
def Unresolved (t : Triple) (log : List (Call × Bool)) : Prop := sinceResolve t log ≠ []

def lastAccepted (subs : List (ℚ × Bool)) : Option ℚ :=
  (subs.filter Prod.snd).getLast?.map Prod.fst

/-- The rate limit: whether a submission is let through. -/
def LetThrough (t : Triple) (log : List (Call × Bool)) (now : ℚ) : Prop :=
  ¬ Unresolved t log ∨ ∃ last ∈ lastAccepted (sinceResolve t log),
    alertCooldownS (alertSeverityMap t.category) ≤ Binary64.sub now last

theorem sinceResolve_submit (t : Triple) (log : List (Call × Bool)) (alert : Alert) (now : ℚ)
    (accepted : Bool) : sinceResolve t (log ++ [(.submit alert now, accepted)]) =
      if alert.triple = t then sinceResolve t log ++ [(now, accepted)] else sinceResolve t log := by
  rw [sinceResolve, List.foldl_append]
  rfl

theorem sinceResolve_resolve (t : Triple) (log : List (Call × Bool)) (u : Triple) (now : ℚ)
    (out : Bool) : sinceResolve t (log ++ [(.resolve u now, out)]) =
      if u = t then [] else sinceResolve t log := by
  rw [sinceResolve, List.foldl_append]
  rfl

theorem lastAccepted_snoc (subs : List (ℚ × Bool)) (now : ℚ) (accepted : Bool) :
    lastAccepted (subs ++ [(now, accepted)]) = if accepted then some now else lastAccepted subs := by
  cases accepted <;> simp [lastAccepted, List.filter_append]

/-- The unresolved alert of a triple sums up the submissions since the last resolution. -/
def Sums (t : Triple) (subs : List (ℚ × Bool)) : Option Alert → Prop
  | none => subs = []
  | some a =>
    subs ≠ [] ∧ a.count = subs.length ∧ lastAccepted subs = some a.ts ∧
      a.severity = alertSeverityMap t.category

/-- The map of the manager sums up the log, for every triple. -/
def Tracks (s : Session) : Prop :=
  ∀ t : Triple, t.Named → Sums t (sinceResolve t s.log) (s.mgr.activeAlert (makeKey t))

theorem tracks_init : Tracks ⟨AlertManager.init, []⟩ := by
  intro t _
  exact rfl

theorem sums_afterSubmit {t : Triple} {subs : List (ℚ × Bool)} {active : Option Alert}
    (h : Sums t subs active) {alert : Alert} {now : ℚ} (hfresh : (Call.submit alert now).Fresh)
    (ht : alert.triple = t) :
    Sums t (subs ++ [(now, (afterSubmit alert now active).2)])
      (some (afterSubmit alert now active).1) := by
  obtain ⟨-, -, hcount, hts, hsev⟩ := hfresh
  refine ⟨by simp, ?_⟩
  rw [lastAccepted_snoc]
  cases active with
  | none =>
    rw [h]
    subst ht
    exact ⟨hcount, congrArg some hts.symm, hsev⟩
  | some a =>
    obtain ⟨-, hlen, hlast, hseva⟩ := h
    rw [afterSubmit]
    by_cases hcool : Binary64.sub now a.ts < alertCooldownS a.severity
    · rw [if_pos hcool]
      exact ⟨by simp [countUp, hlen], hlast, hseva⟩
    · rw [if_neg hcool]
      exact ⟨by simp [refire, hlen], rfl, hseva⟩

theorem tracks_step {s : Session} (h : Tracks s) {c : Call} (hc : c.Fresh) : Tracks (s.step c) := by
  intro t ht
  cases c with
  | submit alert now =>
    obtain ⟨hout, hmap⟩ := submit_spec s.mgr hc.2.1 now
    rw [Session.step]
    simp only [hout, hmap, sinceResolve_submit]
    by_cases halert : alert.triple = t
    · rw [if_pos halert, halert, Function.update_self]
      exact sums_afterSubmit (h t ht) hc halert
    · have hkey : makeKey t ≠ makeKey alert.triple := fun he => halert (makeKey_inj ht hc.1 he).symm
      rw [if_neg halert, Function.update_of_ne hkey]
      exact h t ht
  | resolve u now =>
    rw [Session.step]
    simp only [resolve_spec, sinceResolve_resolve]
    by_cases hu : u = t
    · rw [if_pos hu, hu, Function.update_self]
      exact rfl
    · have hkey : makeKey t ≠ makeKey u := fun he => hu (makeKey_inj ht hc he).symm
      rw [if_neg hu, Function.update_of_ne hkey]
      exact h t ht

theorem tracks_run {calls : List Call} (h : ∀ c ∈ calls, c.Fresh) : Tracks (run calls) := by
  induction calls using List.reverseRecOn with
  | nil => exact tracks_init
  | append_singleton calls c ih =>
    rw [run, List.foldl_append]
    exact tracks_step (ih fun d hd => h d (List.mem_append_left _ hd)) (h c (by simp))

theorem run_snoc (calls : List Call) (c : Call) : run (calls ++ [c]) = (run calls).step c := by
  rw [run, List.foldl_append]
  rfl

theorem afterSubmit_iff {t : Triple} {log : List (Call × Bool)} {active : Option Alert}
    (h : Sums t (sinceResolve t log) active) (alert : Alert) (now : ℚ) :
    (afterSubmit alert now active).2 = true ↔ LetThrough t log now := by
  rw [LetThrough, Unresolved]
  cases active with
  | none => simp [afterSubmit, show sinceResolve t log = [] from h]
  | some a =>
    obtain ⟨hne, -, hlast, hsev⟩ := h
    rw [hlast, afterSubmit, hsev]
    by_cases hcool : Binary64.sub now a.ts < alertCooldownS (alertSeverityMap t.category)
    · simp [hcool, hne]
    · simp [hcool, not_lt.mp hcool]

theorem sinceResolve_quiet {t : Triple} {now : ℚ} (pre mid : List Call)
    (hmid : ∀ c ∈ mid, ¬ c.Submits t) :
    sinceResolve t (run (pre ++ .resolve t now :: mid)).log = [] := by
  induction mid using List.reverseRecOn with
  | nil =>
    rw [run_snoc, Session.step]
    simp only [sinceResolve_resolve, if_true]
  | append_singleton mid c ih =>
    have hquiet := ih fun d hd => hmid d (List.mem_append_left _ hd)
    have hc := hmid c (by simp)
    rw [← List.cons_append, ← List.append_assoc, run_snoc]
    cases c with
    | submit alert now' =>
      rw [Session.step]
      simp only [sinceResolve_submit, if_neg (show alert.triple ≠ t from hc), hquiet]
    | resolve u now' =>
      rw [Session.step]
      simp only [sinceResolve_resolve, hquiet, ite_self]

/-- The manager is its rate limit: which submissions are let through, how they are counted,
and that a resolution opens the triple again. -/
theorem manager_meets_rate_limit (calls : List Call) (hcalls : ∀ c ∈ calls, c.Fresh) :
    (∀ alert now, (Call.submit alert now).Fresh →
      (((run calls).mgr.submit alert now).1.isSome ↔
        LetThrough alert.triple (run calls).log now)) ∧
    (∀ t : Triple, t.Named →
      (((run calls).mgr.activeAlert (makeKey t)).isSome ↔ Unresolved t (run calls).log) ∧
      ∀ a ∈ (run calls).mgr.activeAlert (makeKey t),
        a.count = (sinceResolve t (run calls).log).length) ∧
    ∀ pre mid t now, calls = pre ++ .resolve t now :: mid → (∀ c ∈ mid, ¬ c.Submits t) →
      ∀ alert now', (Call.submit alert now').Fresh → alert.triple = t →
        ((run calls).mgr.submit alert now').1.isSome := by
  have htracks := tracks_run hcalls
  have hsubmit : ∀ alert now, (Call.submit alert now).Fresh →
      (((run calls).mgr.submit alert now).1.isSome ↔
        LetThrough alert.triple (run calls).log now) := by
    intro alert now hfresh
    rw [(submit_spec (run calls).mgr hfresh.2.1 now).1]
    exact afterSubmit_iff (htracks alert.triple hfresh.1) alert now
  refine ⟨hsubmit, ?_, ?_⟩
  · intro t ht
    have hsums := htracks t ht
    rw [Unresolved]
    cases hact : (run calls).mgr.activeAlert (makeKey t) with
    | none =>
      rw [hact] at hsums
      simp [show sinceResolve t (run calls).log = [] from hsums]
    | some a =>
      rw [hact] at hsums
      obtain ⟨hne, hcount, -⟩ := hsums
      simp [hne, hcount]
  · rintro pre mid t now rfl hmid alert now' hfresh rfl
    refine (hsubmit alert now' hfresh).mpr (Or.inl ?_)
    rw [Unresolved, sinceResolve_quiet pre mid hmid]
    simp

theorem manager_meets_rate_limit_reopened :
    let burst : Alert := { severity := .warn, category := .glitchBurst, msg := "", ts := 1 }
    let calls := [.submit burst 1, .submit { burst with ts := 2 } 2, .resolve burst.triple 3]
    ((run calls).mgr.submit { burst with ts := 4 } 4).1.isSome ↔
      LetThrough burst.triple (run calls).log 4 :=
  (manager_meets_rate_limit [.submit _ 1, .submit _ 2, .resolve _ 3] (by decide)).1
    { severity := .warn, category := .glitchBurst, msg := "", ts := 4 } 4 (by decide)

/-- Readings of a clock with the resolution that doubles have from 2004 to 2038 lose nothing
in the subtraction. -/
theorem elapsed_exact {now last : ℚ} {a b : ℤ} (hnow : now = a * 2 ^ (-22 : ℤ))
    (hlast : last = b * 2 ^ (-22 : ℤ)) (hle : last ≤ now) (hlt : now - last < 2 ^ (31 : ℤ)) :
    Binary64.sub now last = now - last := by
  apply Binary64.round_of_grid (e := -22) (k := a - b)
  · rw [hnow, hlast]
    push_cast
    ring
  · linarith
  · exact hlt
  · norm_num

theorem letThrough_exact {t : Triple} {log : List (Call × Bool)} {now : ℚ} {a : ℤ}
    (hnow : now = a * 2 ^ (-22 : ℤ))
    (hgrid : ∀ last ∈ lastAccepted (sinceResolve t log),
      (∃ b : ℤ, last = b * 2 ^ (-22 : ℤ)) ∧ last ≤ now ∧ now - last < 2 ^ (31 : ℤ)) :
    LetThrough t log now ↔ ¬ Unresolved t log ∨ ∃ last ∈ lastAccepted (sinceResolve t log),
      alertCooldownS (alertSeverityMap t.category) ≤ now - last := by
  rw [LetThrough]
  apply or_congr_right
  apply exists_congr
  intro last
  apply and_congr_right
  intro hlast
  obtain ⟨⟨b, hb⟩, hle, hlt⟩ := hgrid last hlast
  rw [elapsed_exact hnow hb hle hlt]

end CanSniffer.AlertRateLimit
