import CanSniffer.LatencyMonitor

namespace CanSniffer

open Library.PyJson LatencyPairs

structure PairConfig where
  file : Option PairsFile
  latency : LatencyMonitor

namespace PairConfig

/-- The handler of PUT, with whether it raised. The body is on the file before it is read. -/
def setLatencyPairs (c : PairConfig) (body : List Json) : PairConfig × Bool :=
  let file := some (savePairs body)
  match loadPairs file with
  | some (explicit, patterns) => (⟨file, c.latency.setPairs explicit patterns⟩, false)
  | none => (⟨file, c.latency⟩, true)

/-- The calls of clients, one after the other; a call that raises is answered with an error. -/
def putAll (c : PairConfig) (bodies : List (List Json)) : PairConfig :=
  bodies.foldl (fun c body => (c.setLatencyPairs body).1) c

/-- The call succeeds and file and monitor agree, or it raises and both are as before. -/
def AllOrNothing (c : PairConfig) (body : List Json) : Prop :=
  let (c', raised) := c.setLatencyPairs body
  (raised = false ∧ loadPairs c'.file = some (c'.latency.explicit, c'.latency.patterns)) ∨
    (raised = true ∧ c'.file = c.file ∧ c'.latency.explicit = c.latency.explicit ∧
      c'.latency.patterns = c.latency.patterns)

theorem file_setLatencyPairs (c : PairConfig) (body : List Json) :
    (c.setLatencyPairs body).1.file = some (savePairs body) := by
  rw [setLatencyPairs]
  split <;> rfl

theorem setLatencyPairs_accepts {c : PairConfig} {body : List Json}
    (h : ∀ e ∈ body, Acceptable e) : ∃ explicit patterns,
      loadPairs (some (savePairs body)) = some (explicit, patterns) ∧
      c.setLatencyPairs body =
        (⟨some (savePairs body), c.latency.setPairs explicit patterns⟩, false) := by
  obtain ⟨⟨explicit, patterns⟩, hload⟩ :=
    Option.isSome_iff_exists.mp ((loadPairs_savePairs body).mpr h)
  exact ⟨explicit, patterns, hload, by simp [setLatencyPairs, hload]⟩

theorem setLatencyPairs_rejects {c : PairConfig} {body : List Json}
    (h : ¬ ∀ e ∈ body, Acceptable e) :
    c.setLatencyPairs body = (⟨some (savePairs body), c.latency⟩, true) := by
  rw [← loadPairs_savePairs, Option.not_isSome_iff_eq_none] at h
  simp [setLatencyPairs, h]

theorem allOrNothing_iff (c : PairConfig) (body : List Json) :
    c.AllOrNothing body ↔ (∀ e ∈ body, Acceptable e) ∨ c.file = some (savePairs body) := by
  by_cases hacc : ∀ e ∈ body, Acceptable e
  · obtain ⟨explicit, patterns, hload, hput⟩ := setLatencyPairs_accepts (c := c) hacc
    rw [AllOrNothing, hput]
    exact ⟨fun _ => Or.inl hacc, fun _ => Or.inl ⟨rfl, hload⟩⟩
  · rw [AllOrNothing, setLatencyPairs_rejects hacc]
    simp [hacc, eq_comm]

theorem loads_putAll {c : PairConfig} (hload : (loadPairs c.file).isSome)
    (bodies : List (List Json)) :
    (loadPairs (c.putAll bodies).file).isSome ↔
      ∀ body ∈ bodies.getLast?, ∀ e ∈ body, Acceptable e := by
  cases bodies using List.reverseRecOn with
  | nil => simpa [putAll] using hload
  | append_singleton bodies body =>
    rw [putAll, List.foldl_append, List.foldl_cons, List.foldl_nil, file_setLatencyPairs,
      loadPairs_savePairs]
    simp

/-- A call is all-or-nothing exactly when the body can be loaded or is on the file already, and
after a row of calls the file can be loaded exactly when the last body can. -/
theorem set_latency_pairs_iff (c : PairConfig) :
    (∀ body, c.AllOrNothing body ↔
      (∀ e ∈ body, Acceptable e) ∨ c.file = some (savePairs body)) ∧
    ((loadPairs c.file).isSome → ∀ bodies : List (List Json),
      (loadPairs (c.putAll bodies).file).isSome ↔
        ∀ body ∈ bodies.getLast?, ∀ e ∈ body, Acceptable e) :=
  ⟨allOrNothing_iff c, loads_putAll⟩

theorem set_latency_pairs_missing_file :
    (loadPairs (PairConfig.putAll ⟨none, ⟨[], [], fun _ => none, fun _ => .empty⟩⟩
      [[.obj [("request_id", .str "0x601"), ("response_id", .int 0x581)]]]).file).isSome ↔
      ∀ body ∈ [[Json.obj [("request_id", .str "0x601"), ("response_id", .int 0x581)]]].getLast?,
        ∀ e ∈ body, Acceptable e :=
  (set_latency_pairs_iff ⟨none, ⟨[], [], fun _ => none, fun _ => .empty⟩⟩).2 rfl _

/-- An entry without its ids is refused only after it has replaced the file, which then
cannot be loaded. -/
theorem refused_body_stays : ¬ ∀ (c : PairConfig) (body : List Json),
    c.AllOrNothing body ∧ ((loadPairs c.file).isSome → (loadPairs (c.putAll [body]).file).isSome) := by
  intro h
  have hput := (h ⟨none, ⟨[], [], fun _ => none, fun _ => .empty⟩⟩ [.obj []]).2 rfl
  exact absurd hput (by decide)

end PairConfig
end CanSniffer
