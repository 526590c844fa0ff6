import CanSniffer.PairUpdates

namespace CanSniffer.IngestSafety

open Library.PyJson LatencyPairs LatencyMonitor PairConfig Models

variable {format : String → Nat → Option String}

/-- No sequence of frames makes `ingest` raise. -/
def NeverRaises (format : String → Nat → Option String) (m : LatencyMonitor) : Prop :=
  ∀ frames frame, ((m.run format frames).ingest format frame).2 = false

/-- The base of 256 ids, one for each node. -/
def IsBase (base : Int) : Prop := 0 ≤ base ∧ base % 256 = 0

/-- The label can be a key, or no frame has an id of the pair. -/
def ExplicitSafe (ep : ExplicitPair) : Prop :=
  ep.label.dictKey.isSome ∨ (ep.requestId < 0 ∧ ep.responseId < 0)

/-- The template can be formatted for every node, or no frame has a base of the pair. -/
def PatternSafe (format : String → Nat → Option String) (pp : PatternPair) : Prop :=
  IsBase pp.requestBase ∨ IsBase pp.responseBase →
    ∀ node < 256, (pp.labelFor format node).isSome

theorem isBase_baseOf (arbId : Nat) : IsBase (baseOf arbId) := by
  rw [IsBase, baseOf, nodeOf_eq]
  omega

theorem exists_arbId {base : Int} (hbase : IsBase base) {node : Nat} (hnode : node < 256) :
    ∃ arbId, baseOf arbId = base ∧ nodeOf arbId = node := by
  obtain ⟨hpos, hmod⟩ := hbase
  refine ⟨base.toNat + node, ?_, ?_⟩
  · rw [baseOf, nodeOf_eq]
    omega
  · rw [nodeOf_eq]
    omega

theorem explicit_safe_iff (ep : ExplicitPair) :
    (∀ arbId, (Pair.explicit ep).reaction format arbId ≠ .raises) ↔ ExplicitSafe ep := by
  simp only [ne_eq, Pair.reaction_raises_iff, Pair.label, Pair.isRequest, Pair.isResponse,
    decide_eq_true_eq, ExplicitSafe]
  cases hkey : ep.label.dictKey with
  | some key => simp
  | none =>
    simp only [true_and, Option.isSome_none, Bool.false_eq_true, false_or]
    constructor
    · intro h
      have hreq := h ep.requestId.toNat
      have hresp := h ep.responseId.toNat
      omega
    · intro h arbId
      omega

theorem pattern_safe_iff (pp : PatternPair) :
    (∀ arbId, (Pair.pattern pp).reaction format arbId ≠ .raises) ↔ PatternSafe format pp := by
  simp only [ne_eq, Pair.reaction_raises_iff, Pair.label, Pair.isRequest, Pair.isResponse,
    decide_eq_true_eq, PatternSafe]
  constructor
  · intro h hbase node hnode
    rw [← Option.ne_none_iff_isSome]
    intro hnone
    cases hbase with
    | inl hbase =>
      obtain ⟨arbId, hb, hn⟩ := exists_arbId hbase hnode
      exact h arbId ⟨hn ▸ hnone, Or.inl hb⟩
    | inr hbase =>
      obtain ⟨arbId, hb, hn⟩ := exists_arbId hbase hnode
      exact h arbId ⟨hn ▸ hnone, Or.inr hb⟩
  · intro h arbId ⟨hnone, hbase⟩
    have hisbase : IsBase pp.requestBase ∨ IsBase pp.responseBase :=
      hbase.imp (fun hb => by rw [← hb]; exact isBase_baseOf arbId)
        (fun hb => by rw [← hb]; exact isBase_baseOf arbId)
    have hsome := h hisbase _ (nodeOf_lt arbId)
    rw [hnone] at hsome
    cases hsome

/-- Whether a frame makes `ingest` raise depends on the pairs alone. -/
theorem neverRaises_iff_reactions (m : LatencyMonitor) :
    NeverRaises format m ↔ ∀ p ∈ m.pairs, ∀ arbId, p.reaction format arbId ≠ .raises := by
  have hingest (m : LatencyMonitor) (frame : EnrichedFrame) :
      (m.ingest format frame).2 = false ↔
        ∀ p ∈ m.pairs, p.reaction format frame.arbId ≠ .raises := by
    rw [← Bool.not_eq_true, ingest_raises_iff, not_exists]
    simp only [not_and, ne_eq]
  simp only [NeverRaises, hingest, run_pairs]
  constructor
  · intro h p hp arbId
    exact h [] ⟨arbId, 0, [], false, none, 0, 0⟩ p hp
  · intro h frames frame p hp
    exact h p hp frame.arbId

theorem neverRaises_iff (m : LatencyMonitor) :
    NeverRaises format m ↔
      (∀ ep ∈ m.explicit, ExplicitSafe ep) ∧ ∀ pp ∈ m.patterns, PatternSafe format pp := by
  rw [neverRaises_iff_reactions, pairs, List.forall_mem_append, List.forall_mem_map,
    List.forall_mem_map]
  simp only [explicit_safe_iff, pattern_safe_iff]

/-- A body that is accepted keeps ingestion alive exactly when its labels can be keys and its
templates can be formatted, as far as a frame gets to them. -/
theorem accepted_pairs_never_raise_iff {c c' : PairConfig} {body : List Json}
    (haccept : c.setLatencyPairs body = (c', false)) :
    ∃ explicit patterns, loadPairs (some (savePairs body)) = some (explicit, patterns) ∧
      (NeverRaises format c'.latency ↔
        (∀ ep ∈ explicit, ExplicitSafe ep) ∧ ∀ pp ∈ patterns, PatternSafe format pp) := by
  rw [setLatencyPairs] at haccept
  split at haccept
  · rename_i explicit patterns hload
    cases haccept
    exact ⟨explicit, patterns, hload, neverRaises_iff _⟩
  · cases haccept

theorem accepted_pairs_never_raise_label :
    ∃ explicit patterns, loadPairs (some (savePairs
      [.obj [("request_id", .int 0x601), ("response_id", .int 0x581), ("label", .str "SDO")]])) =
        some (explicit, patterns) ∧
      (NeverRaises (fun template _ => some template)
          (LatencyMonitor.setPairs ⟨[], [], fun _ => none, fun _ => .empty⟩
            [⟨0x601, 0x581, .str "SDO"⟩] []) ↔
        (∀ ep ∈ explicit, ExplicitSafe ep) ∧
          ∀ pp ∈ patterns, PatternSafe (fun template _ => some template) pp) :=
  @accepted_pairs_never_raise_iff _ ⟨none, ⟨[], [], fun _ => none, fun _ => .empty⟩⟩
    ⟨some (savePairs [.obj [("request_id", .int 0x601), ("response_id", .int 0x581),
        ("label", .str "SDO")]]),
      LatencyMonitor.setPairs ⟨[], [], fun _ => none, fun _ => .empty⟩
        [⟨0x601, 0x581, .str "SDO"⟩] []⟩ _ rfl

/-- A list is accepted as a label, and the first request of its pair ends ingestion. -/
theorem list_label_raises : ¬ ∀ (format : String → Nat → Option String) (c c' : PairConfig)
    (body : List Json), c.setLatencyPairs body = (c', false) → NeverRaises format c'.latency := by
  intro h
  have hnever := h (fun template _ => some template)
    ⟨none, ⟨[], [], fun _ => none, fun _ => .empty⟩⟩ _
    [.obj [("request_id", .int 0x601), ("response_id", .int 0x581), ("label", .arr [])]] rfl
  have hsafe := ((neverRaises_iff _).mp hnever).1 ⟨0x601, 0x581, .arr []⟩ List.mem_cons_self
  simp [ExplicitSafe, Json.dictKey] at hsafe

end CanSniffer.IngestSafety
