import CanSniffer.LatencySoundness

namespace CanSniffer

open Library Library.PyJson Library.Exchange Models LatencyMonitor LatencySoundness

variable {format : String → Nat → Option String} {pairs : List Pair}

def Pair.labels (format : String → Nat → Option String) : Pair → List (Option DictKey)
  | .explicit ep => [ep.label.dictKey]
  | .pattern pp => (List.range 256).map (pp.labelFor format)

/-- The labels of all pairs, as keys of the dictionaries, are pairwise distinct. -/
structure LabelsDistinct (format : String → Nat → Option String) (pairs : List Pair) : Prop where
  keys : ∀ l ∈ pairs.flatMap (Pair.labels format), l.isSome
  nodup : (pairs.flatMap (Pair.labels format)).Nodup

def Pair.alone : Pair → LatencyMonitor
  | .explicit ep => { explicit := [ep], patterns := [] }
  | .pattern pp => { explicit := [], patterns := [pp] }

theorem Pair.pairs_alone (p : Pair) : p.alone.pairs = [p] := by
  cases p <;> rfl

theorem Pair.pending_alone (p : Pair) (key : DictKey) : p.alone.pending key = none := by
  cases p <;> rfl

theorem Pair.meas_alone (p : Pair) (key : DictKey) : p.alone.meas key = Deque.empty := by
  cases p <;> rfl

theorem Pair.label_mem_labels (p : Pair) (arbId : Nat) : p.label format arbId ∈ p.labels format := by
  cases p with
  | explicit ep => exact List.mem_singleton_self _
  | pattern pp =>
    exact List.mem_map.mpr ⟨nodeOf arbId, List.mem_range.mpr (nodeOf_lt arbId), rfl⟩

namespace LabelsDistinct

theorem alone (h : LabelsDistinct format pairs) {p : Pair} (hp : p ∈ pairs) :
    LabelsDistinct format [p] where
  keys l hl := by
    rw [List.flatMap_singleton] at hl
    exact h.keys l (List.mem_flatMap.mpr ⟨p, hp, hl⟩)
  nodup := by
    rw [List.flatMap_singleton]
    exact (List.nodup_flatMap.mp h.nodup).1 p hp

theorem reaction_ne_raises (h : LabelsDistinct format pairs) {p : Pair} (hp : p ∈ pairs)
    (arbId : Nat) : p.reaction format arbId ≠ .raises := by
  intro hraises
  have hsome := h.keys _ (List.mem_flatMap.mpr ⟨p, hp, p.label_mem_labels arbId⟩)
  rw [(Pair.reaction_raises_iff.mp hraises).1] at hsome
  cases hsome

theorem reached_eq (h : LabelsDistinct format pairs) (arbId : Nat) :
    reached format pairs arbId = pairs :=
  List.takeWhile_eq_self_iff.mpr fun p hp => by simpa using h.reaction_ne_raises hp arbId

theorem not_raises (h : LabelsDistinct format pairs) (arbId : Nat) :
    (pairs.any fun p => p.reaction format arbId = .raises) = false := by
  rw [List.any_eq_false]
  exact fun p hp => by simpa using h.reaction_ne_raises hp arbId

theorem owner_unique (h : LabelsDistinct format pairs) {p q : Pair} (hp : p ∈ pairs)
    (hq : q ∈ pairs) {l : Option DictKey} (hlp : l ∈ p.labels format) (hlq : l ∈ q.labels format) :
    q = p := by
  by_contra hne
  have : Std.Symm fun a b : Pair => (a.labels format).Disjoint (b.labels format) :=
    ⟨fun a b hab => hab.symm⟩
  exact (List.nodup_flatMap.mp h.nodup).2.forall hq hp hne hlq hlp

theorem node_unique (h : LabelsDistinct format pairs) {p : Pair} (hp : p ∈ pairs) {a b : Nat}
    (hlabel : p.label format a = p.label format b) : p.SameNode a b := by
  cases p with
  | explicit ep => trivial
  | pattern pp =>
    have hnodup := (List.nodup_flatMap.mp h.nodup).1 _ hp
    exact List.inj_on_of_nodup_map hnodup (List.mem_range.mpr (nodeOf_lt a))
      (List.mem_range.mpr (nodeOf_lt b)) hlabel

theorem requested_iff (h : LabelsDistinct format pairs) {p : Pair} (hp : p ∈ pairs)
    {key : DictKey} (hkey : some key ∈ p.labels format) (a : Nat) :
    Requested format pairs key a ↔ p.reaction format a = .request key := by
  rw [Requested, h.reached_eq]
  constructor
  · rintro ⟨q, hq, hreq⟩
    have hlabel := (Pair.reaction_request_iff.mp hreq).2
    rwa [← h.owner_unique hp hq hkey (hlabel ▸ q.label_mem_labels a)]
  · intro hreq
    exact ⟨p, hp, hreq⟩

theorem responder_iff (h : LabelsDistinct format pairs) {p q : Pair} (hp : p ∈ pairs)
    {key : DictKey} (hkey : some key ∈ p.labels format) (b : Nat) :
    responder format pairs key b = some q ↔ q = p ∧ p.reaction format b = .response key := by
  have howner {q : Pair} (hq : responder format pairs key b = some q) : q = p := by
    have hlabel := (Pair.reaction_response_iff.mp (responder_reaction hq)).2.2
    exact h.owner_unique hp (responder_mem hq) hkey (hlabel ▸ q.label_mem_labels b)
  constructor
  · intro hq
    obtain rfl := howner hq
    exact ⟨rfl, responder_reaction hq⟩
  · rintro ⟨rfl, hresp⟩
    have hsome : (responder format pairs key b).isSome := by
      rw [responder, h.reached_eq, List.find?_isSome]
      exact ⟨q, hp, by simpa using hresp⟩
    obtain ⟨q', hq'⟩ := Option.isSome_iff_exists.mp hsome
    rw [hq', howner hq']

theorem noCrossTalk (h : LabelsDistinct format pairs) : NoCrossTalk format pairs := by
  intro key a b p hreq hresp
  have hp := responder_mem hresp
  have hlabel := (Pair.reaction_response_iff.mp (responder_reaction hresp)).2.2
  have hreq' := Pair.reaction_request_iff.mp
    ((h.requested_iff hp (hlabel ▸ p.label_mem_labels b) a).mp hreq)
  exact ⟨hreq'.1, h.node_unique hp (hreq'.2.trans hlabel.symm)⟩

end LabelsDistinct

namespace PairIndependence

variable {p : Pair} {key : DictKey}

theorem responder_alone (h : LabelsDistinct format pairs) (hp : p ∈ pairs)
    (hkey : some key ∈ p.labels format) (b : Nat) :
    responder format pairs key b = responder format [p] key b := by
  ext q
  rw [h.responder_iff hp hkey, (h.alone hp).responder_iff List.mem_cons_self hkey]

theorem kindOf_alone (h : LabelsDistinct format pairs) (hp : p ∈ pairs)
    (hkey : some key ∈ p.labels format) : kindOf format pairs key = kindOf format [p] key := by
  funext frame
  rw [kindOf, kindOf, responder_alone h hp hkey]
  simp only [h.requested_iff hp hkey, (h.alone hp).requested_iff List.mem_cons_self hkey]

theorem keeps_alone (h : LabelsDistinct format pairs) (hp : p ∈ pairs) :
    keeps format pairs = keeps format [p] := by
  funext sent frame
  rw [keeps, keeps, h.not_raises, (h.alone hp).not_raises]

theorem sampleOf_alone (h : LabelsDistinct format pairs) (hp : p ∈ pairs)
    (hkey : some key ∈ p.labels format) : sampleOf format pairs key = sampleOf format [p] key := by
  funext x
  rw [sampleOf, sampleOf, responder_alone h hp hkey]

theorem samplesOf_alone {m : LatencyMonitor} (h : LabelsDistinct format m.pairs) (hp : p ∈ m.pairs)
    (hkey : some key ∈ p.labels format) (hpending : m.pending key = none)
    (frames : List EnrichedFrame) :
    (LatencyRecord.run format m frames).samplesOf key =
      (LatencyRecord.run format p.alone frames).samplesOf key := by
  have halone : LabelsDistinct format p.alone.pairs := by
    rw [p.pairs_alone]
    exact h.alone hp
  have hfull := LatencyRecord.run_refines (h.noCrossTalk.separate key) hpending frames
  have hone := LatencyRecord.run_refines (halone.noCrossTalk.separate key)
    (p.pending_alone key) frames
  rw [p.pairs_alone] at hone
  rw [hfull.samples, hone.samples, kindOf_alone h hp hkey, keeps_alone h hp,
    sampleOf_alone h hp hkey]

/-- Under the labels of a pair, a monitor measures what it would measure with that pair alone. -/
theorem pairs_do_not_interfere (explicit : List ExplicitPair) (patterns : List PatternPair)
    (h : LabelsDistinct format (LatencyMonitor.mk explicit patterns (fun _ => none)
      fun _ => .empty).pairs) :
    let m : LatencyMonitor := { explicit, patterns }
    ∀ p ∈ m.pairs, ∀ key, some key ∈ p.labels format → ∀ frames,
      (LatencyRecord.run format m frames).samplesOf key =
          (LatencyRecord.run format p.alone frames).samplesOf key ∧
        (m.run format frames).meas key = (p.alone.run format frames).meas key := by
  intro m p hp key hkey frames
  have hsamples := samplesOf_alone h hp hkey rfl frames
  refine ⟨hsamples, Deque.ext ?_⟩
  rw [LatencyRecord.meas_run, LatencyRecord.meas_run, hsamples, p.meas_alone]

theorem formatDefault_injective {n k : Nat}
    (h : LatencyPairs.formatDefault LatencyPairs.defaultTemplate n =
      LatencyPairs.formatDefault LatencyPairs.defaultTemplate k) : n = k := by
  have hread := congrArg (fun s : Option String => s.bind PyText.intBase16) h
  simpa [LatencyPairs.formatDefault, PyText.intBase16_hexUpper] using hread

theorem labelsDistinct_default :
    LabelsDistinct LatencyPairs.formatDefault [.explicit ⟨0x601, 0x581, .str "SDO"⟩,
      .pattern ⟨0x100, 0, .str LatencyPairs.defaultTemplate⟩] where
  keys := by
    simp [Pair.labels, Json.dictKey, PatternPair.labelFor, LatencyPairs.formatDefault]
  nodup := by
    rw [List.flatMap_cons, List.flatMap_singleton]
    refine List.nodup_cons.mpr ⟨fun hmem => ?_, List.Nodup.map_on ?_ List.nodup_range⟩
    · obtain ⟨n, -, hn⟩ := List.mem_map.mp hmem
      have hread : PyText.intBase16 "SDO" = PyText.intBase16 ("0x" ++ PyText.hexUpper 2 n) := by
        simp_all [PatternPair.labelFor, LatencyPairs.formatDefault, Json.dictKey]
      rw [PyText.intBase16_hexUpper] at hread
      cases hread
    · intro n _ k _ h
      exact formatDefault_injective (Option.map_injective (fun _ _ => DictKey.str.inj) h)

theorem pairs_do_not_interfere_default :
    let m : LatencyMonitor := ⟨[⟨0x601, 0x581, .str "SDO"⟩],
      [⟨0x100, 0, .str LatencyPairs.defaultTemplate⟩], fun _ => none, fun _ => .empty⟩
    ∀ p ∈ m.pairs, ∀ key, some key ∈ p.labels LatencyPairs.formatDefault → ∀ frames,
      (LatencyRecord.run LatencyPairs.formatDefault m frames).samplesOf key =
          (LatencyRecord.run LatencyPairs.formatDefault p.alone frames).samplesOf key ∧
        (m.run LatencyPairs.formatDefault frames).meas key =
          (p.alone.run LatencyPairs.formatDefault frames).meas key :=
  pairs_do_not_interfere _ _ labelsDistinct_default

end PairIndependence
end CanSniffer
