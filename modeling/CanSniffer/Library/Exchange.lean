import Mathlib.Tactic

namespace CanSniffer.Library.Exchange

/-- What an item of a stream means to those who wait for replies. -/
inductive Kind
  | request | reply | other
  deriving DecidableEq

/-- The request that waits for a reply and the pairs formed so far, each with the positions of
the two items. -/
structure State (α : Type) where
  seen : Nat := 0
  pending : Option (Nat × α) := none
  matched : List ((Nat × α) × (Nat × α)) := []

variable {α : Type} (kind : α → Kind) (keep : α → α → Bool)

/-- The latest request waits; a reply takes it. An item may also make it be given up. -/
def step (s : State α) (a : α) : State α where
  seen := s.seen + 1
  pending :=
    (match kind a with
      | .request => some (s.seen, a)
      | .reply => none
      | .other => s.pending).filter fun r => keep r.2 a
  matched :=
    match kind a with
    | .reply => s.matched ++ (s.pending.map fun r => (r, (s.seen, a))).toList
    | .request | .other => s.matched

def run (as : List α) : State α := as.foldl (step kind keep) {}

theorem run_snoc (as : List α) (a : α) :
    run kind keep (as ++ [a]) = step kind keep (run kind keep as) a := by
  rw [run, List.foldl_append]
  rfl

@[simp] theorem seen_run (as : List α) : (run kind keep as).seen = as.length := by
  induction as using List.reverseRecOn with
  | nil => rfl
  | append_singleton as a ih => rw [run_snoc, step, ih, List.length_append, List.length_singleton]

/-- The item `r` at `i` waits at the end: nothing came since, and every item kept it. -/
structure Waiting (as : List α) (i : Nat) (r : α) : Prop where
  at_pos : as[i]? = some r
  is_request : kind r = .request
  quiet : ∀ t a, i < t → as[t]? = some a → kind a = .other
  kept : ∀ t a, i ≤ t → as[t]? = some a → keep r a

variable {kind keep}

theorem Waiting.lt_length {as : List α} {i : Nat} {r : α} (h : Waiting kind keep as i r) :
    i < as.length :=
  (List.getElem?_eq_some_iff.mp h.at_pos).1

theorem getElem?_snoc {as : List α} {a b : α} {t : Nat} :
    (as ++ [a])[t]? = some b ↔ as[t]? = some b ∨ (t = as.length ∧ a = b) := by
  by_cases ht : t < as.length
  · rw [List.getElem?_append_left ht]
    simp [ht.ne]
  · rw [List.getElem?_eq_none (l := as) (by omega)]
    by_cases hlast : t = as.length
    · simp [hlast]
    · rw [List.getElem?_eq_none (by rw [List.length_append, List.length_singleton]; omega)]
      simp [hlast]

theorem waiting_snoc_iff {as : List α} {a r : α} {i : Nat} :
    Waiting kind keep (as ++ [a]) i r ↔
      (Waiting kind keep as i r ∧ kind a = .other ∧ keep r a) ∨
        (i = as.length ∧ a = r ∧ kind r = .request ∧ keep r a) := by
  have hlast : (as ++ [a])[as.length]? = some a := getElem?_snoc.mpr (Or.inr ⟨rfl, rfl⟩)
  constructor
  · intro h
    obtain hat | ⟨rfl, rfl⟩ := getElem?_snoc.mp h.at_pos
    · have hi : i < as.length := (List.getElem?_eq_some_iff.mp hat).1
      refine Or.inl ⟨⟨hat, h.is_request, ?_, ?_⟩, h.quiet _ a hi hlast, h.kept _ a hi.le hlast⟩
      · exact fun t b hit hb => h.quiet t b hit (getElem?_snoc.mpr (Or.inl hb))
      · exact fun t b hit hb => h.kept t b hit (getElem?_snoc.mpr (Or.inl hb))
    · exact Or.inr ⟨rfl, rfl, h.is_request, h.kept _ a le_rfl hlast⟩
  · intro h
    obtain ⟨h, hother, hkeep⟩ | ⟨rfl, rfl, hreq, hkeep⟩ := h
    · refine ⟨getElem?_snoc.mpr (Or.inl h.at_pos), h.is_request, ?_, ?_⟩
      · intro t b hit hb
        obtain hb | ⟨-, rfl⟩ := getElem?_snoc.mp hb
        · exact h.quiet t b hit hb
        · exact hother
      · intro t b hit hb
        obtain hb | ⟨-, rfl⟩ := getElem?_snoc.mp hb
        · exact h.kept t b hit hb
        · exact hkeep
    · refine ⟨hlast, hreq, ?_, ?_⟩
      · intro t b hit hb
        have ht := (List.getElem?_eq_some_iff.mp hb).1
        rw [List.length_append, List.length_singleton] at ht
        omega
      · intro t b hit hb
        obtain hb | ⟨-, rfl⟩ := getElem?_snoc.mp hb
        · have ht := (List.getElem?_eq_some_iff.mp hb).1
          omega
        · exact hkeep

theorem pending_run_iff (as : List α) (i : Nat) (r : α) :
    (run kind keep as).pending = some (i, r) ↔ Waiting kind keep as i r := by
  induction as using List.reverseRecOn with
  | nil =>
    constructor
    · intro h
      cases h
    · intro h
      exact absurd h.lt_length (Nat.not_lt_zero i)
  | append_singleton as a ih =>
    rw [run_snoc, step, seen_run, Option.filter_eq_some_iff, waiting_snoc_iff, ← ih]
    cases hk : kind a <;> grind

theorem mem_matched_snoc (as : List α) (a : α) (x : (Nat × α) × (Nat × α)) :
    x ∈ (run kind keep (as ++ [a])).matched ↔ x ∈ (run kind keep as).matched ∨
      (kind a = .reply ∧ x.2 = (as.length, a) ∧ Waiting kind keep as x.1.1 x.1.2) := by
  rw [run_snoc, step, seen_run, ← pending_run_iff]
  cases hk : kind a with
  | reply =>
    cases hp : (run kind keep as).pending with
    | none => simp
    | some r => grind
  | _ => simp

theorem mem_matched_iff_waiting (as : List α) (i j : Nat) (r b : α) :
    ((i, r), (j, b)) ∈ (run kind keep as).matched ↔
      as[j]? = some b ∧ kind b = .reply ∧ Waiting kind keep (as.take j) i r := by
  induction as using List.reverseRecOn with
  | nil => simp [run]
  | append_singleton as a ih =>
    rw [mem_matched_snoc, ih, getElem?_snoc]
    by_cases hj : j < as.length
    · rw [List.take_append_of_le_length hj.le]
      simp [hj.ne]
    · have hnone : as[j]? = none := List.getElem?_eq_none (by omega)
      by_cases hlast : j = as.length
      · simp [hlast]
        grind
      · simp [hnone, hlast]

/-- The reply `b` at `j` is the first item of the exchange after the request `r` at `i`, which
every item kept until then. -/
structure Answers (kind : α → Kind) (keep : α → α → Bool) (as : List α) (i : Nat) (r : α)
    (j : Nat) (b : α) : Prop where
  request_at : as[i]? = some r
  reply_at : as[j]? = some b
  before : i < j
  is_request : kind r = .request
  is_reply : kind b = .reply
  quiet : ∀ t a, i < t → t < j → as[t]? = some a → kind a = .other
  kept : ∀ t a, i ≤ t → t < j → as[t]? = some a → keep r a

theorem mem_matched_iff (as : List α) (i j : Nat) (r b : α) :
    ((i, r), (j, b)) ∈ (run kind keep as).matched ↔ Answers kind keep as i r j b := by
  have hget {t : Nat} {a : α} : (as.take j)[t]? = some a ↔ t < j ∧ as[t]? = some a := by
    by_cases ht : t < j <;> simp [ht]
  rw [mem_matched_iff_waiting]
  constructor
  · intro ⟨hb, hreply, hat, hreq, hquiet, hkept⟩
    obtain ⟨hij, hr⟩ := hget.mp hat
    exact ⟨hr, hb, hij, hreq, hreply, fun t a hit htj ha => hquiet t a hit (hget.mpr ⟨htj, ha⟩),
      fun t a hit htj ha => hkept t a hit (hget.mpr ⟨htj, ha⟩)⟩
  · intro ⟨hr, hb, hij, hreq, hreply, hquiet, hkept⟩
    refine ⟨hb, hreply, hget.mpr ⟨hij, hr⟩, hreq, fun t a hit ha => ?_, fun t a hit ha => ?_⟩
    · exact hquiet t a hit (hget.mp ha).1 (hget.mp ha).2
    · exact hkept t a hit (hget.mp ha).1 (hget.mp ha).2

theorem matched_pairwise (as : List α) :
    (run kind keep as).matched.Pairwise fun x y => x.2.1 < y.1.1 := by
  induction as using List.reverseRecOn with
  | nil => exact .nil
  | append_singleton as a ih =>
    rw [run_snoc, step]
    cases hk : kind a with
    | reply =>
      cases hp : (run kind keep as).pending with
      | none => simpa using ih
      | some r =>
        have hwait := (pending_run_iff as r.1 r.2).mp hp
        refine List.pairwise_append.mpr ⟨ih, List.pairwise_singleton _ _, fun x hx y hy => ?_⟩
        obtain rfl := List.mem_singleton.mp hy
        obtain ⟨-, hat, -, -, hreply, -, -⟩ := (mem_matched_iff as x.1.1 x.2.1 x.1.2 x.2.2).mp hx
        by_contra hle
        obtain hlt | heq := (not_lt.mp hle).lt_or_eq
        · have hother := hwait.quiet _ _ hlt hat
          rw [hreply] at hother
          cases hother
        · have hreq := hwait.at_pos
          rw [heq, hat] at hreq
          rw [Option.some.inj hreq, hwait.is_request] at hreply
          cases hreply
    | _ => exact ih

end CanSniffer.Library.Exchange
