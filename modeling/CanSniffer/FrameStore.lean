import CanSniffer.Library.Deque

namespace CanSniffer

open Library

/-- `total` counts the frames ever appended. -/
structure FrameStore (α : Type) (maxlen : Nat) where
  frames : Deque α maxlen
  total : Nat

namespace FrameStore

variable {α κ : Type} {maxlen : Nat}

def init : FrameStore α maxlen := ⟨Deque.empty, 0⟩

def append (s : FrameStore α maxlen) (frame : α) : FrameStore α maxlen :=
  ⟨s.frames.append frame, s.total + 1⟩

def since (s : FrameStore α maxlen) (lastTotal : Int) : List α × Nat :=
  let cur := s.total
  let nNew := cur - lastTotal
  if nNew ≤ 0 then ([], cur)
  else
    let n := min nNew.toNat s.frames.items.length
    let base := s.frames.items.length - n
    (List.ofFn fun i : Fin n => s.frames.items.get ⟨base + i, by omega⟩, cur)

theorem since_eq (s : FrameStore α maxlen) (lastTotal : Int) :
    s.since lastTotal = (s.frames.items.rtake (s.total - lastTotal).toNat, s.total) := by
  rw [since]
  dsimp only
  split_ifs with hle
  · rw [Int.toNat_of_nonpos hle, List.rtake_zero]
  · refine Prod.ext (List.ext_getElem ?_ fun i hi hi' => ?_) rfl
    · simp [List.rtake]
      omega
    · simp only [List.getElem_ofFn, List.get_eq_getElem, List.rtake, List.getElem_drop]
      congr 1
      omega

inductive Op (κ α : Type)
  | append (frame : α)
  | since (client : κ)

/-- A store with its clients: the total that each of them last got, and the lists. -/
structure Clients (κ α : Type) (maxlen : Nat) where
  store : FrameStore α maxlen := init
  lastTotal : κ → Nat := fun _ => 0
  received : κ → List (List α) := fun _ => []

namespace Clients

def appended (ops : List (Op κ α)) : List α :=
  ops.filterMap fun
    | .append frame => some frame
    | .since _ => none

@[simp] theorem appended_snoc_append (ops : List (Op κ α)) (frame : α) :
    appended (ops ++ [.append frame]) = appended ops ++ [frame] := by
  simp [appended]

@[simp] theorem appended_snoc_since (ops : List (Op κ α)) (client : κ) :
    appended (ops ++ [.since client]) = appended ops := by
  simp [appended]

variable [DecidableEq κ]

def step (s : Clients κ α maxlen) : Op κ α → Clients κ α maxlen
  | .append frame => { s with store := s.store.append frame }
  | .since client =>
    let (frames, total) := s.store.since (s.lastTotal client)
    { s with
      lastTotal := Function.update s.lastTotal client total
      received := Function.update s.received client (s.received client ++ [frames]) }

def run (maxlen : Nat) (ops : List (Op κ α)) : Clients κ α maxlen := ops.foldl step {}

/-- The frames appended since the last call of a client. -/
def unread (client : κ) (ops : List (Op κ α)) : List α :=
  ops.foldl (fun frames op =>
    match op with
    | .append frame => frames ++ [frame]
    | .since c => if c = client then [] else frames) []

theorem run_snoc (ops : List (Op κ α)) (op : Op κ α) :
    run maxlen (ops ++ [op]) = (run maxlen ops).step op := by
  rw [run, List.foldl_append]
  rfl

@[simp] theorem unread_snoc_append (client : κ) (ops : List (Op κ α)) (frame : α) :
    unread client (ops ++ [.append frame]) = unread client ops ++ [frame] := by
  rw [unread, List.foldl_append]
  rfl

@[simp] theorem unread_snoc_since (client c : κ) (ops : List (Op κ α)) :
    unread client (ops ++ [.since c]) = if c = client then [] else unread client ops := by
  rw [unread, List.foldl_append]
  rfl

/-- The store has the newest frames, and a client's total is the number of those before its
unread ones. -/
structure Tracks (ops : List (Op κ α)) (s : Clients κ α maxlen) : Prop where
  total : s.store.total = (appended ops).length
  newest : s.store.frames.items = (appended ops).rtake maxlen
  read : ∀ c, unread c ops = (appended ops).drop (s.lastTotal c)
  bounded : ∀ c, s.lastTotal c ≤ (appended ops).length

theorem tracks_run (ops : List (Op κ α)) : Tracks ops (run maxlen ops) := by
  induction ops using List.reverseRecOn with
  | nil => exact ⟨rfl, by simp [run, init, Deque.empty, appended], fun _ => rfl, fun _ => le_rfl⟩
  | append_singleton ops op ih =>
    rw [run_snoc]
    cases op with
    | append frame =>
      refine ⟨?_, ?_, fun c => ?_, fun c => ?_⟩
      · simp [step, append, ih.total]
      · rw [appended_snoc_append]
        exact Deque.items_append_rtake ih.newest frame
      · have hb := ih.bounded c
        rw [unread_snoc_append, appended_snoc_append, ih.read c]
        exact (List.drop_append_of_le_length hb).symm
      · have hb := ih.bounded c
        simp only [step, appended_snoc_append, List.length_append]
        omega
    | since client =>
      refine ⟨?_, ?_, fun c => ?_, fun c => ?_⟩
      · simp [step, ih.total]
      · rw [appended_snoc_since]
        exact ih.newest
      · rw [unread_snoc_since, appended_snoc_since, step, since_eq]
        by_cases hc : client = c
        · subst hc
          simp [ih.total]
        · simp [hc, Function.update_of_ne (Ne.symm hc), ih.read c]
      · rw [appended_snoc_since, step, since_eq]
        by_cases hc : c = client
        · subst hc
          simp [ih.total]
        · simp [Function.update_of_ne hc, ih.bounded c]

theorem since_unread (ops : List (Op κ α)) (client : κ) :
    ((run maxlen ops).store.since ((run maxlen ops).lastTotal client)).1 =
      (unread client ops).rtake maxlen := by
  have h := @tracks_run α κ maxlen _ ops
  have hb := h.bounded client
  rw [since_eq, h.newest, h.total, h.read client, ← Newest.rtake_rtake_drop hb, Int.toNat_sub]

theorem received_snoc_append (ops : List (Op κ α)) (frame : α) (client : κ) :
    (run maxlen (ops ++ [.append frame])).received client = (run maxlen ops).received client := by
  rw [run_snoc]
  rfl

theorem received_snoc_since (ops : List (Op κ α)) (client c : κ) :
    (run maxlen (ops ++ [.since c])).received client =
      (run maxlen ops).received client ++
        if c = client then [(unread client ops).rtake maxlen] else [] := by
  rw [run_snoc, step, since_eq]
  by_cases hc : client = c
  · subst hc
    rw [if_pos rfl, ← since_unread, since_eq]
    exact Function.update_self _ _ _
  · rw [if_neg (Ne.symm hc), List.append_nil]
    exact Function.update_of_ne hc _ _

theorem received_sublist (ops : List (Op κ α)) (client : κ) :
    (((run maxlen ops).received client).flatten ++ unread client ops).Sublist (appended ops) := by
  induction ops using List.reverseRecOn with
  | nil => exact List.Sublist.slnil
  | append_singleton ops op ih =>
    cases op with
    | append frame =>
      rw [received_snoc_append, unread_snoc_append, appended_snoc_append, ← List.append_assoc]
      exact ih.append (List.Sublist.refl [frame])
    | since c =>
      rw [received_snoc_since, unread_snoc_since, appended_snoc_since]
      by_cases hc : c = client
      · rw [if_pos hc, if_pos hc, List.flatten_append, List.append_nil, List.flatten_singleton]
        exact ((List.Sublist.refl _).append (List.drop_sublist _ _)).trans ih
      · rw [if_neg hc, if_neg hc, List.append_nil]
        exact ih

theorem received_nil {ops : List (Op κ α)} {client : κ} (h : .since client ∉ ops) :
    (run maxlen ops).received client = [] := by
  induction ops using List.reverseRecOn with
  | nil => rfl
  | append_singleton ops op ih =>
    rw [List.mem_append, List.mem_singleton, not_or] at h
    cases op with
    | append frame => rw [received_snoc_append, ih h.1]
    | since c =>
      have hc : c ≠ client := fun hc => h.2 (by rw [hc])
      rw [received_snoc_since, if_neg hc, ih h.1, List.append_nil]

theorem received_suffix (ops : List (Op κ α)) (client : κ)
    (hbehind : ∀ pre post, ops = pre ++ .since client :: post → .since client ∈ pre →
      (unread client pre).length ≤ maxlen) :
    ((run maxlen ops).received client).flatten ++ unread client ops <:+ appended ops := by
  induction ops using List.reverseRecOn with
  | nil => exact List.suffix_rfl
  | append_singleton ops op ih =>
    have hpre := ih fun pre post h => hbehind pre (post ++ [op]) (by simp [h])
    cases op with
    | append frame =>
      rw [received_snoc_append, unread_snoc_append, appended_snoc_append, ← List.append_assoc]
      obtain ⟨old, hold⟩ := hpre
      exact ⟨old, by rw [← hold, List.append_assoc, List.append_assoc, List.append_assoc]⟩
    | since c =>
      rw [received_snoc_since, unread_snoc_since, appended_snoc_since]
      by_cases hc : c = client
      · subst hc
        rw [if_pos rfl, if_pos rfl, List.flatten_append, List.append_nil, List.flatten_singleton]
        by_cases hfirst : .since c ∈ ops
        · have hlen := hbehind ops [] rfl hfirst
          rwa [Newest.rtake_of_le hlen]
        · rw [received_nil hfirst, List.flatten_nil, List.nil_append] at hpre ⊢
          exact (List.drop_suffix _ _).trans hpre
      · rw [if_neg hc, if_neg hc, List.append_nil]
        exact hpre

theorem received_all (ops : List (Op κ α)) (client : κ)
    (hbehind : ∀ pre post, ops = pre ++ .since client :: post →
      (unread client pre).length ≤ maxlen) :
    ((run maxlen ops).received client).flatten ++ unread client ops = appended ops := by
  induction ops using List.reverseRecOn with
  | nil => rfl
  | append_singleton ops op ih =>
    have hpre := ih fun pre post h => hbehind pre (post ++ [op]) (by simp [h])
    cases op with
    | append frame =>
      rw [received_snoc_append, unread_snoc_append, appended_snoc_append, ← List.append_assoc, hpre]
    | since c =>
      rw [received_snoc_since, unread_snoc_since, appended_snoc_since]
      by_cases hc : c = client
      · subst hc
        have hlen := hbehind ops [] rfl
        rw [if_pos rfl, if_pos rfl, List.flatten_append, List.append_nil, List.flatten_singleton]
        rwa [Newest.rtake_of_le hlen]
      · rw [if_neg hc, if_neg hc, List.append_nil]
        exact hpre

/-- What each client gets: an increasing part of all frames, in each call the newest of those
it has not read, and everything, or everything since its first answer, unless more than
`maxlen` frames came between two of its calls. -/
theorem clients_receive (ops : List (Op κ α)) (client : κ) :
    ((run maxlen ops).received client).flatten.Sublist (appended ops) ∧
    (∀ pre post, ops = pre ++ .since client :: post →
      ((run maxlen pre).store.since ((run maxlen pre).lastTotal client)).1 =
        (unread client pre).rtake maxlen) ∧
    ((∀ pre post, ops = pre ++ .since client :: post → (unread client pre).length ≤ maxlen) →
      ((run maxlen ops).received client).flatten ++ unread client ops = appended ops) ∧
    ((∀ pre post, ops = pre ++ .since client :: post → .since client ∈ pre →
        (unread client pre).length ≤ maxlen) →
      ((run maxlen ops).received client).flatten ++ unread client ops <:+ appended ops) :=
  ⟨(List.sublist_append_left _ _).trans (received_sublist ops client),
    fun pre _ _ => since_unread pre client, received_all ops client, received_suffix ops client⟩

end Clients
end FrameStore
end CanSniffer
