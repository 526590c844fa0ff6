import CanSniffer.Confluence

namespace CanSniffer.CorrelationReference

open Library Library.Trace Library.WindowMatch Models Correlator CorrelatorRuns Confluence

/-- Consecutive SOFs are more than a window apart. -/
def Spaced (maxDeltaNs : Int) (prus : List PruEvent) : Prop :=
  prus.IsChain fun pru next => pru.tFallNs + maxDeltaNs < next.tFallNs

instance (maxDeltaNs : Int) (prus : List PruEvent) : Decidable (Spaced maxDeltaNs prus) :=
  inferInstanceAs (Decidable (prus.IsChain _))

/-- Frame `i` is the first one in the window of a SOF of the time `p`. -/
def FirstInWindow (maxDeltaNs : Int) (prus : List PruEvent) (msgs : List RawCanMessage) (i : Nat)
    (p : Int) : Prop :=
  ∃ pru ∈ prus, pru.tFallNs = p ∧ ∃ msg, msgs[i]? = some msg ∧ InWindow maxDeltaNs pru msg ∧
    ∀ j < i, ∀ earlier, msgs[j]? = some earlier → ¬ InWindow maxDeltaNs pru earlier

/-- What the correlation of the two streams should emit for frame `i`. -/
def Reference (maxDeltaNs : Int) (prus : List PruEvent) (msgs : List RawCanMessage)
    (emitted : List EnrichedFrame) : Prop :=
  emitted.length = msgs.length ∧ ∀ i msg, msgs[i]? = some msg →
    ∃ pruTsNs, emitted[i]? = some (enrich msg pruTsNs) ∧
      ∀ p, pruTsNs = some p ↔ FirstInWindow maxDeltaNs prus msgs i p

/-- The streams are ingested in some order without overflow, and then drained once, when every
frame is stale. -/
structure DrainedOnce (maxDeltaNs : Int) (ops : List Op) : Prop where
  fits : AllSteps Session.step Fits (.init maxDeltaNs) ops
  once : ∃ pre nowNs, ops = pre ++ [.drainMatched nowNs] ∧ (∀ n, .drainMatched n ∉ pre) ∧
    ∀ msg ∈ frames ops, msg.timestampNs + maxDeltaNs < nowNs

variable {maxDeltaNs : Int} {prus : List PruEvent} {msgs : List RawCanMessage}

theorem firstInWindow_iff {i : Nat} {p : Int} :
    FirstInWindow maxDeltaNs prus msgs i p ↔ ∃ pru ∈ prus, pru.tFallNs = p ∧
      msgs.findIdx? (InWindow maxDeltaNs pru ·) = some i := by
  rw [FirstInWindow]
  apply exists_congr
  intro pru
  apply and_congr_right
  intro _
  apply and_congr_right
  intro _
  rw [List.findIdx?_eq_some_iff_getElem]
  constructor
  · rintro ⟨msg, hmsg, hwin, hbefore⟩
    obtain ⟨hlt, rfl⟩ := List.getElem?_eq_some_iff.mp hmsg
    exact ⟨hlt, by simpa using hwin, fun j hj => by
      simpa using hbefore j hj _ (List.getElem?_eq_getElem (hj.trans hlt))⟩
  · rintro ⟨hlt, hwin, hbefore⟩
    refine ⟨_, List.getElem?_eq_getElem hlt, by simpa using hwin, ?_⟩
    intro j hj earlier hget
    obtain ⟨hjlt, rfl⟩ := List.getElem?_eq_some_iff.mp hget
    simpa using hbefore j hj

theorem correlate_reference (hspaced : Spaced maxDeltaNs prus) (hsorted : Sorted msgs) :
    Reference maxDeltaNs prus msgs (correlate maxDeltaNs prus msgs) := by
  have hmono : msgs.Pairwise fun m n => m.timestampNs ≤ n.timestampNs :=
    hsorted.imp fun h => timestampNs_mono h
  have hlen : (correlate maxDeltaNs prus msgs).length = msgs.length := by
    rw [correlate, List.length_map, ← List.length_map Prod.fst, merge_fst]
  refine ⟨hlen, fun i msg hmsg => ?_⟩
  obtain ⟨pru?, hget, hiff⟩ := merge_spaced prus msgs hspaced hmono hmsg
  refine ⟨pru?.map (·.tFallNs), by simp [correlate, hget], fun p => ?_⟩
  rw [firstInWindow_iff, Option.map_eq_some_iff]
  apply exists_congr
  intro pru
  rw [hiff pru, and_assoc]
  apply and_congr_right
  intro _
  exact and_comm

theorem DrainedOnce.schedule {ops : List Op} (h : DrainedOnce maxDeltaNs ops) :
    Schedule maxDeltaNs (sofs ops) (frames ops) ops := by
  obtain ⟨pre, nowNs, hops, hno, hstale⟩ := h.once
  have hin : ∀ pre : List Op, (∀ n, .drainMatched n ∉ pre) →
      InTime maxDeltaNs (frames ops) (pre ++ [.drainMatched nowNs]) := by
    intro pre
    induction pre with
    | nil => exact fun _ => ⟨by simp, trivial⟩
    | cons op pre ih =>
      intro hno
      have hrest := ih fun n hn => hno n (List.mem_cons_of_mem op hn)
      cases op with
      | ingestPru event => exact hrest
      | ingestFrame msg => exact hrest
      | drainMatched n => exact absurd List.mem_cons_self (hno n)
  exact ⟨⟨rfl, rfl, h.fits, hops ▸ hin pre hno⟩, pre, nowNs, hops, hstale⟩

/-- Whatever the order of ingestion, each frame is emitted with the SOF that it is the first in
the window of, and the other frames without any. -/
theorem correlation_meets_reference (maxDeltaNs : Int) (ops : List Op)
    (hspaced : Spaced maxDeltaNs (sofs ops)) (hsorted : Sorted (frames ops))
    (hdrained : DrainedOnce maxDeltaNs ops) :
    Reference maxDeltaNs (sofs ops) (frames ops) (Session.run maxDeltaNs ops).emitted := by
  rw [schedule_emits hdrained.schedule hsorted]
  exact correlate_reference hspaced hsorted

def sharedWindow : List Op :=
  [.ingestFrame (exampleFrame 1), .ingestPru (exampleSof 999000000),
    .ingestFrame (exampleFrame 1), .ingestPru (exampleSof 1999000000),
    .ingestFrame (exampleFrame 2), .drainMatched 3000000000]

theorem correlation_meets_reference_shared :
    Reference defaultMaxDeltaNs (sofs sharedWindow) (frames sharedWindow)
      (Session.run defaultMaxDeltaNs sharedWindow).emitted := by
  have hdrained : DrainedOnce defaultMaxDeltaNs sharedWindow := by
    refine ⟨by decide +kernel, sharedWindow.dropLast, 3000000000, rfl, ?_, by decide +kernel⟩
    simp [sharedWindow]
  exact correlation_meets_reference defaultMaxDeltaNs sharedWindow (by decide +kernel)
    (by decide +kernel) hdrained

end CanSniffer.CorrelationReference
