import CanSniffer.CorrelatorRuns
import Mathlib.Data.List.NodupEquivFin

namespace CanSniffer.MatchSoundness

open Models Correlator CorrelatorRuns

def matchedFrames (emitted : List EnrichedFrame) : List EnrichedFrame :=
  emitted.filter (·.pruTsNs.isSome)

theorem matchedFrames_append (fs gs : List EnrichedFrame) :
    matchedFrames (fs ++ gs) = matchedFrames fs ++ matchedFrames gs :=
  List.filter_append _ _

def pair? : Exit → Option (PruEvent × RawCanMessage)
  | .paired pru msg => some (pru, msg)
  | _ => none

theorem matched_output (history : List Exit) :
    matchedFrames (history.filterMap Exit.output?) =
      (history.filterMap pair?).map fun p => enrich p.2 (some p.1.tFallNs) := by
  induction history with
  | nil => rfl
  | cons e history ih =>
    cases e <;> simpa [matchedFrames, List.filterMap_cons, Exit.output?, pair?, enrich] using ih

theorem pairs_sofs (history : List Exit) :
    ((history.filterMap pair?).map Prod.fst).Sublist (history.filterMap Exit.sof?) := by
  induction history with
  | nil => exact List.Sublist.slnil
  | cons e history ih =>
    cases e with
    | paired pru msg => simpa [pair?, Exit.sof?] using ih
    | unpaired msg => simpa [pair?, List.filterMap_cons, Exit.sof?] using ih
    | discarded pru => simpa [pair?, List.filterMap_cons, Exit.sof?] using ih.cons pru
    | pruDropped pru => simpa [pair?, List.filterMap_cons, Exit.sof?] using ih.cons pru
    | canDropped msg => simpa [pair?, List.filterMap_cons, Exit.sof?] using ih

theorem pairs_frames (history : List Exit) :
    ((history.filterMap pair?).map Prod.snd).Sublist (history.filterMap Exit.frame?) := by
  induction history with
  | nil => exact List.Sublist.slnil
  | cons e history ih =>
    cases e with
    | paired pru msg => simpa [pair?, Exit.frame?] using ih
    | unpaired msg => simpa [pair?, List.filterMap_cons, Exit.frame?] using ih.cons msg
    | discarded pru => simpa [pair?, List.filterMap_cons, Exit.frame?] using ih
    | pruDropped pru => simpa [pair?, List.filterMap_cons, Exit.frame?] using ih
    | canDropped msg => simpa [pair?, List.filterMap_cons, Exit.frame?] using ih.cons msg

theorem matched_pairs (maxDeltaNs : Int) (ops : List Op) :
    ∃ pairs : List (PruEvent × RawCanMessage),
      matchedFrames (Session.run maxDeltaNs ops).emitted =
        pairs.map (fun p => enrich p.2 (some p.1.tFallNs)) ∧
      (pairs.map Prod.fst).Sublist (sofs ops) ∧ (pairs.map Prod.snd).Sublist (frames ops) ∧
      ∀ p ∈ pairs, InWindow maxDeltaNs p.1 p.2 := by
  have h := run_accounts ops maxDeltaNs
  generalize Session.run maxDeltaNs ops = s at h ⊢
  have hall := matched_output s.correlator.history
  rw [h.output, matchedFrames_append] at hall
  have hpre : matchedFrames s.emitted <+: (s.correlator.history.filterMap pair?).map
      fun p => enrich p.2 (some p.1.tFallNs) := ⟨_, hall⟩
  refine ⟨(s.correlator.history.filterMap pair?).take (matchedFrames s.emitted).length,
    ?_, ?_, ?_, ?_⟩
  · rw [List.map_take]
    exact List.prefix_iff_eq_take.mp hpre
  · rw [← h.sofs]
    exact ((List.take_sublist _ _).map _).trans
      ((pairs_sofs _).trans (List.sublist_append_left _ _))
  · rw [← h.frames]
    exact ((List.take_sublist _ _).map _).trans
      ((pairs_frames _).trans (List.sublist_append_left _ _))
  · intro p hp
    obtain ⟨e, he, hpair⟩ := List.mem_filterMap.mp (List.mem_of_mem_take hp)
    cases e with
    | paired pru msg =>
      cases hpair
      exact h.paired pru msg he
    | _ => cases hpair

theorem exists_positions {α β : Type} {f : β → α} {l : List β} {n : Nat} {l' : List α}
    (hn : n = l.length) (h : (l.map f).Sublist l') :
    ∃ pos : Fin n ↪o Fin l'.length, ∀ i, l'.get (pos i) = f (l.get (i.cast hn)) := by
  subst hn
  obtain ⟨pos, hpos⟩ := List.sublist_iff_exists_fin_orderEmbedding_get_eq.mp h
  refine ⟨(Fin.castOrderIso (List.length_map f).symm).toOrderEmbedding.trans pos, fun i => ?_⟩
  have hi := hpos (Fin.castOrderIso (List.length_map f).symm i)
  simpa using hi.symm

/-- Each emitted frame with a PRU time is a received frame and has the time of a SOF at
most `maxDeltaNs` before it. SOFs and frames are used in their order of arrival, so none
of them twice. -/
theorem matches_sound (maxDeltaNs : Int) (ops : List Op) :
    ∃ (sofOf : Fin (matchedFrames (Session.run maxDeltaNs ops).emitted).length ↪o
        Fin (events ops).length)
      (frameOf : Fin (matchedFrames (Session.run maxDeltaNs ops).emitted).length ↪o
        Fin (frames ops).length),
      ∀ i, ((events ops).get (sofOf i)).type = .sof ∧
        (matchedFrames (Session.run maxDeltaNs ops).emitted).get i =
          enrich ((frames ops).get (frameOf i)) (some ((events ops).get (sofOf i)).tFallNs) ∧
        InWindow maxDeltaNs ((events ops).get (sofOf i)) ((frames ops).get (frameOf i)) := by
  obtain ⟨pairs, hmatched, hsofs, hframes, hwindow⟩ := matched_pairs maxDeltaNs ops
  have hlen : (matchedFrames (Session.run maxDeltaNs ops).emitted).length = pairs.length := by
    rw [hmatched, List.length_map]
  obtain ⟨sofOf, hsofOf⟩ := exists_positions hlen (hsofs.trans List.filter_sublist)
  obtain ⟨frameOf, hframeOf⟩ := exists_positions hlen hframes
  refine ⟨sofOf, frameOf, fun i => ?_⟩
  have hmem : pairs.get (i.cast hlen) ∈ pairs := List.get_mem _ _
  have hsof : (pairs.get (i.cast hlen)).1 ∈ sofs ops :=
    hsofs.subset (List.mem_map_of_mem hmem)
  rw [hsofOf, hframeOf]
  refine ⟨by simpa using (List.mem_filter.mp hsof).2, ?_, hwindow _ hmem⟩
  simp [hmatched]

end CanSniffer.MatchSoundness
