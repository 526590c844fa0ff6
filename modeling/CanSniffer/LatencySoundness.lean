import CanSniffer.LatencyExchange

namespace CanSniffer

open Library Library.PyJson Library.Exchange Models LatencyMonitor LatencyRecord

variable {format : String → Nat → Option String} {pairs : List Pair}

def Pair.SameNode : Pair → Nat → Nat → Prop
  | .explicit _, _, _ => True
  | .pattern _, a, b => nodeOf a = nodeOf b

/-- A frame of id `a` is a request of the pair, for a pattern pair of the node of `b`. -/
def Pair.RequestFor (p : Pair) (a b : Nat) : Prop := p.isRequest a ∧ p.SameNode a b

namespace LatencySoundness

/-- The sample is the latency of a response and of the latest request of the same pair and node
in front of it. -/
structure Sound (pairs : List Pair) (frames : List EnrichedFrame) (x : Sample) : Prop where
  configured : x.pair ∈ pairs
  before : x.request < x.response
  matching : ∃ r s, frames[x.request]? = some r ∧ frames[x.response]? = some s ∧
    x.latency = latencyUs s.kernelTs r.kernelTs ∧ x.pair.isResponse s.arbId ∧
    x.pair.RequestFor r.arbId s.arbId ∧
    ∀ t f, x.request < t → t < x.response → frames[t]? = some f →
      ¬ x.pair.RequestFor f.arbId s.arbId

/-- All samples of a run are sound, and no pair takes two from one request. -/
structure SoundSamples (format : String → Nat → Option String) (m : LatencyMonitor)
    (frames : List EnrichedFrame) : Prop where
  sound : ∀ x ∈ (LatencyRecord.run format m frames).samples, Sound m.pairs frames x
  once : (LatencyRecord.run format m frames).samples.Pairwise
    fun x y => x.pair = y.pair → x.request ≠ y.request

/-- Under each label, the pair that takes a response has every id that is taken as a request
for its own request of that node. -/
def NoCrossTalk (format : String → Nat → Option String) (pairs : List Pair) : Prop :=
  ∀ key a b p, Requested format pairs key a → responder format pairs key b = some p →
    p.RequestFor a b

theorem requestFor_unique {p : Pair} {a a' b : Nat} (h : p.RequestFor a b)
    (h' : p.RequestFor a' b) : a = a' := by
  cases p with
  | explicit ep =>
    have ha : (a : Int) = ep.requestId := by simpa [Pair.isRequest] using h.1
    have ha' : (a' : Int) = ep.requestId := by simpa [Pair.isRequest] using h'.1
    omega
  | pattern pp =>
    have ha : baseOf a = pp.requestBase := by simpa [Pair.isRequest] using h.1
    have ha' : baseOf a' = pp.requestBase := by simpa [Pair.isRequest] using h'.1
    exact arbId_ext (ha.trans ha'.symm) (h.2.trans h'.2.symm)

theorem label_of_sameNode {p : Pair} {a b : Nat} (h : p.SameNode a b) :
    p.label format a = p.label format b := by
  cases p with
  | explicit ep => rfl
  | pattern pp => exact congrArg (pp.labelFor format) h

theorem responder_reaction {key : DictKey} {b : Nat} {p : Pair}
    (h : responder format pairs key b = some p) : p.reaction format b = .response key := by
  simpa using List.find?_some h

theorem responder_mem {key : DictKey} {b : Nat} {p : Pair}
    (h : responder format pairs key b = some p) : p ∈ pairs :=
  List.takeWhile_subset _ (List.mem_of_find?_eq_some h)

theorem NoCrossTalk.separate (h : NoCrossTalk format pairs) (key : DictKey) :
    Separate format pairs key := by
  intro a hreq
  by_contra hne
  obtain ⟨p, hp⟩ := Option.ne_none_iff_exists'.mp hne
  have hrequest := (h key a a p hreq hp).1
  have hresponse := Pair.reaction_response_iff.mp (responder_reaction hp)
  rw [hresponse.1] at hrequest
  cases hrequest

theorem requested_of_kind {key : DictKey} {frame : EnrichedFrame}
    (h : kindOf format pairs key frame = .request) : Requested format pairs key frame.arbId := by
  by_contra hnot
  rw [kindOf, if_neg hnot] at h
  split at h <;> cases h

theorem answers_of_sample {m : LatencyMonitor} (h : NoCrossTalk format m.pairs)
    (hpending : ∀ key, m.pending key = none) {frames : List EnrichedFrame} {x : Sample}
    (hx : x ∈ (LatencyRecord.run format m frames).samples) : ∃ r s,
      Answers (kindOf format m.pairs x.key) (keeps format m.pairs) frames x.request r x.response s ∧
      responder format m.pairs x.key s.arbId = some x.pair ∧
      x.pair.RequestFor r.arbId s.arbId ∧ x.latency = latencyUs s.kernelTs r.kernelTs := by
  have hkey : x ∈ (LatencyRecord.run format m frames).samplesOf x.key :=
    List.mem_filter.mpr ⟨hx, by simp⟩
  rw [(run_refines (h.separate x.key) (hpending x.key) frames).samples] at hkey
  obtain ⟨⟨⟨i, r⟩, ⟨j, s⟩⟩, hmem, hsample⟩ := List.mem_filterMap.mp hkey
  obtain ⟨p, hp, hmk⟩ := Option.map_eq_some_iff.mp hsample
  cases x with
  | mk pair key request response latency =>
    cases hmk
    have hanswers := (mem_matched_iff frames i j r s).mp hmem
    have hreq := requested_of_kind hanswers.is_request
    exact ⟨r, s, hanswers, hp, h key r.arbId s.arbId p hreq hp, rfl⟩

theorem sample_sound {m : LatencyMonitor} (h : NoCrossTalk format m.pairs)
    (hpending : ∀ key, m.pending key = none) {frames : List EnrichedFrame} {x : Sample}
    (hx : x ∈ (LatencyRecord.run format m frames).samples) : Sound m.pairs frames x := by
  obtain ⟨r, s, hanswers, hresp, hfor, hlatency⟩ := answers_of_sample h hpending hx
  have hresponse := (Pair.reaction_response_iff.mp (responder_reaction hresp)).2.1
  refine ⟨responder_mem hresp, hanswers.before, r, s, hanswers.request_at, hanswers.reply_at,
    hlatency, hresponse, hfor, fun t f hit htj hf hfor' => ?_⟩
  -- such a frame would have the id of the request, and so would be one under the key too
  have hother := hanswers.quiet t f hit htj hf
  rw [kindOf, requestFor_unique hfor' hfor, ← kindOf, hanswers.is_request] at hother
  cases hother

theorem key_of_sample {m : LatencyMonitor} (h : NoCrossTalk format m.pairs)
    (hpending : ∀ key, m.pending key = none) {frames : List EnrichedFrame} {x : Sample}
    (hx : x ∈ (LatencyRecord.run format m frames).samples) :
    ∃ r, frames[x.request]? = some r ∧ x.pair.label format r.arbId = some x.key := by
  obtain ⟨r, s, hanswers, hresp, hfor, -⟩ := answers_of_sample h hpending hx
  refine ⟨r, hanswers.request_at, ?_⟩
  rw [label_of_sameNode hfor.2]
  exact (Pair.reaction_response_iff.mp (responder_reaction hresp)).2.2

theorem pairwise_of_filter {α κ : Type} [DecidableEq κ] (key : α → κ) {R : α → α → Prop}
    {xs : List α} (h : ∀ k, (xs.filter fun x => key x = k).Pairwise R) :
    xs.Pairwise fun x y => key x = key y → R x y := by
  induction xs with
  | nil => exact .nil
  | cons x xs ih =>
    refine List.pairwise_cons.mpr ⟨fun y hy hxy => ?_, ih fun k => ?_⟩
    · have hx := h (key x)
      rw [List.filter_cons_of_pos (by simp)] at hx
      exact (List.pairwise_cons.mp hx).1 y (List.mem_filter.mpr ⟨hy, by simp [hxy]⟩)
    · exact (h k).sublist ((List.sublist_cons_self x xs).filter _)

theorem samplesOf_pairwise {m : LatencyMonitor} {key : DictKey}
    (hsep : Separate format m.pairs key) (hpending : m.pending key = none)
    (frames : List EnrichedFrame) :
    ((LatencyRecord.run format m frames).samplesOf key).Pairwise
      fun x y => x.request < y.request := by
  rw [(run_refines hsep hpending frames).samples, List.pairwise_filterMap]
  refine List.Pairwise.imp_of_mem (fun {x y} hx hy hxy a ha b hb => ?_) (matched_pairwise frames)
  obtain ⟨p, -, rfl⟩ := Option.map_eq_some_iff.mp ha
  obtain ⟨q, -, rfl⟩ := Option.map_eq_some_iff.mp hb
  exact ((mem_matched_iff frames x.1.1 x.2.1 x.1.2 x.2.2).mp hx).before.trans hxy

theorem soundSamples_of_noCrossTalk {m : LatencyMonitor} (h : NoCrossTalk format m.pairs)
    (hpending : ∀ key, m.pending key = none) (frames : List EnrichedFrame) :
    SoundSamples format m frames := by
  refine ⟨fun x hx => sample_sound h hpending hx, ?_⟩
  have hpairwise := pairwise_of_filter Sample.key
    fun key => samplesOf_pairwise (h.separate key) (hpending key) frames
  refine List.Pairwise.imp_of_mem (fun {x y} hx hy hxy hpair hreq => ?_) hpairwise
  obtain ⟨r, hr, hkey⟩ := key_of_sample h hpending hx
  obtain ⟨r', hr', hkey'⟩ := key_of_sample h hpending hy
  rw [← hreq, hr] at hr'
  cases hr'
  rw [← hpair, hkey] at hkey'
  exact (hxy (Option.some.inj hkey')).ne hreq

theorem note_samples (format : String → Nat → Option String) (frame : EnrichedFrame)
    (c : LatencyRecord) (p : Pair) :
    c.samples <+: (c.note format frame p).samples := by
  cases hr : p.reaction format frame.arbId <;> simp [note, hr]

theorem noteAll_samples (format : String → Nat → Option String) (frame : EnrichedFrame)
    (c : LatencyRecord) (ps : List Pair) :
    c.samples <+: (c.noteAll format frame ps).samples := by
  induction ps generalizing c with
  | nil => exact List.prefix_rfl
  | cons p ps ih => exact (note_samples format frame c p).trans (ih _)

theorem response_of_new_sample {frame : EnrichedFrame} {c : LatencyRecord} {ps : List Pair}
    {x : Sample} (hx : x ∈ (c.noteAll format frame ps).samples) :
    x ∈ c.samples ∨ x.response = c.seen := by
  induction ps generalizing c with
  | nil => exact Or.inl hx
  | cons p ps ih =>
    obtain hx | hx := ih hx
    · cases hr : p.reaction format frame.arbId with
      | response key =>
        cases hp : c.monitor.pending key with
        | none => exact Or.inl (by simpa [note, hr, hp] using hx)
        | some sent =>
          have hx : x ∈ c.samples ∨
              x = ⟨p, key, c.origin key, c.seen, latencyUs frame.kernelTs sent⟩ := by
            simpa [note, hr, hp] using hx
          exact hx.imp_right fun h => by rw [h]
      | _ => exact Or.inl (by simpa [note, hr] using hx)
    · exact Or.inr hx

theorem pending_or_sample (format : String → Nat → Option String) {frame : EnrichedFrame}
    {c : LatencyRecord} {key : DictKey}
    (h : c.monitor.pending key = some frame.kernelTs) (ps : List Pair) :
    (c.noteAll format frame ps).monitor.pending key = some frame.kernelTs ∨
      c.samples.length < (c.noteAll format frame ps).samples.length := by
  induction ps generalizing c with
  | nil => exact Or.inl h
  | cons p ps ih =>
    have hmono := (note_samples format frame c p).length_le
    by_cases hresp : p.reaction format frame.arbId = .response key
    · have hlen := (noteAll_samples format frame (c.note format frame p) ps).length_le
      refine Or.inr (lt_of_lt_of_le ?_ hlen)
      simp [note, hresp, h]
    · have hpend : (c.note format frame p).monitor.pending key = some frame.kernelTs := by
        by_cases hreq : p.reaction format frame.arbId = .request key
        · exact (note_request hreq).1
        · exact (note_other hreq hresp).1.trans h
      exact (ih hpend).imp_right hmono.trans_lt

theorem pending_or_sample_of_request {frame : EnrichedFrame} {c : LatencyRecord} {key : DictKey}
    {ps : List Pair} (h : ∃ p ∈ ps, p.reaction format frame.arbId = .request key) :
    (c.noteAll format frame ps).monitor.pending key = some frame.kernelTs ∨
      c.samples.length < (c.noteAll format frame ps).samples.length := by
  obtain ⟨p, hp, hreq⟩ := h
  obtain ⟨front, rest, rfl⟩ := List.append_of_mem hp
  have hmono := (noteAll_samples format frame c (front ++ [p])).length_le
  have hset : (c.noteAll format frame (front ++ [p])).monitor.pending key =
      some frame.kernelTs := by
    rw [noteAll, List.foldl_append]
    exact (note_request hreq).1
  have hrest := pending_or_sample format hset rest
  rw [noteAll, noteAll, ← List.foldl_append, List.append_assoc, ← noteAll] at hrest
  exact hrest.imp_right hmono.trans_lt

theorem pending_ingest_of_request {frame : EnrichedFrame} {c : LatencyRecord} {key : DictKey}
    (hreq : Requested format c.monitor.pairs key frame.arbId)
    (hts : Binary64.sub frame.kernelTs 1 ≤ frame.kernelTs) :
    (c.ingest format frame).monitor.pending key = some frame.kernelTs ∨
      c.samples.length < (c.ingest format frame).samples.length := by
  have hlast := pending_or_sample_of_request (c := c) hreq
  apply hlast.imp_left
  intro hpend
  rw [pending_ingest, hpend, Option.filter_some_pos]
  simp [hts]

theorem sample_of_responder {c : LatencyRecord} {frame : EnrichedFrame} {key : DictKey} {p : Pair}
    (hresp : responder format c.monitor.pairs key frame.arbId = some p)
    (hpend : (c.monitor.pending key).isSome) :
    ∃ x ∈ (c.ingest format frame).samples, x.pair = p ∧ x.response = c.seen := by
  obtain ⟨-, front, rest, hsplit, hfront⟩ := List.find?_eq_some_iff_append.mp hresp
  have hfront' : ∀ q ∈ front, q.reaction format frame.arbId ≠ .response key := fun q hq => by
    simpa using hfront q hq
  have hpend' : ((c.noteAll format frame front).monitor.pending key).isSome := by
    rw [(noteAll_request front hfront').1]
    split
    · rfl
    · exact hpend
  obtain ⟨sent, hsent⟩ := Option.isSome_iff_exists.mp hpend'
  have hnote : ((c.noteAll format frame front).note format frame p).samples =
      (c.noteAll format frame front).samples ++
        [⟨p, key, (c.noteAll format frame front).origin key, c.seen,
          latencyUs frame.kernelTs sent⟩] := by
    simp [note, responder_reaction hresp, hsent, seen_noteAll]
  refine ⟨⟨p, key, (c.noteAll format frame front).origin key, c.seen,
    latencyUs frame.kernelTs sent⟩, ?_, rfl, rfl⟩
  rw [LatencyRecord.ingest, hsplit, noteAll, List.foldl_append, List.foldl_cons]
  exact (noteAll_samples format frame _ rest).subset (by rw [← noteAll, hnote]; simp)

def probe (arbId : Nat) : EnrichedFrame := ⟨arbId, 0, [], false, none, 0, 0⟩

theorem probe_keeps (arbId : Nat) :
    Binary64.sub (probe arbId).kernelTs 1 ≤ (probe arbId).kernelTs := by
  have h := Binary64.round_mono (x := 0 - 1) (y := 0) (by norm_num)
  simpa [probe, Binary64.sub, Binary64.round] using h

theorem noCrossTalk_of_sound {m : LatencyMonitor}
    (h : ∀ frames, SoundSamples format m frames) : NoCrossTalk format m.pairs := by
  intro key a b p hreq hresp
  -- a sample from the first frame alone would have request and response in one
  have hnone : (LatencyRecord.run format m [probe a]).samples = [] := by
    rw [List.eq_nil_iff_forall_not_mem]
    intro x hx
    obtain hold | hnew := response_of_new_sample hx
    · cases hold
    · have hlt := ((h [probe a]).sound x hx).before
      rw [hnew] at hlt
      exact Nat.not_lt_zero _ hlt
  have hpend : ((LatencyRecord.run format m [probe a]).monitor.pending key).isSome := by
    obtain hpend | hsample :=
      @pending_ingest_of_request format (probe a) ⟨m, 0, fun _ => 0, []⟩ key hreq (probe_keeps a)
    · exact Option.isSome_of_mem hpend
    · exact absurd (hsample.trans_eq (congrArg List.length hnone)) (Nat.not_lt_zero _)
  obtain ⟨x, hx, rfl, hresponse⟩ := @sample_of_responder format
    (LatencyRecord.run format m [probe a]) (probe b) key p (by rwa [pairs_run]) hpend
  obtain ⟨-, hlt, r, s, hr, hs, -, -, hfor, -⟩ := (h [probe a, probe b]).sound x hx
  rw [LatencyRecord.seen_run, List.length_singleton] at hresponse
  rw [hresponse] at hs hlt
  obtain rfl : s = probe b := by simpa using hs.symm
  obtain hzero : x.request = 0 := by simpa using hlt
  rw [hzero] at hr
  obtain rfl : r = probe a := by simpa using hr.symm
  exact hfor

/-- The values appended to `_meas` are sound for all traffic exactly when no label lets one pair
or node answer for another. -/
theorem samples_sound_iff (m : LatencyMonitor) (explicit : List ExplicitPair)
    (patterns : List PatternPair) :
    let m' := m.setPairs explicit patterns
    (∀ frames key, ((m'.run format frames).meas key).items = ((m.meas key).items ++
      ((LatencyRecord.run format m' frames).samplesOf key).map Sample.latency).rtake 100) ∧
    ((∀ frames, SoundSamples format m' frames) ↔ NoCrossTalk format m'.pairs) :=
  ⟨meas_run _, noCrossTalk_of_sound, fun h => soundSamples_of_noCrossTalk h fun _ => rfl⟩

/-- Two pattern pairs with the default template: a request of the first is taken for the response
of the second. -/
theorem shared_template_mixes : ¬ ∀ (format : String → Nat → Option String)
    (explicit : List ExplicitPair) (patterns : List PatternPair) (frames : List EnrichedFrame),
    SoundSamples format ⟨explicit, patterns, fun _ => none, fun _ => .empty⟩ frames := by
  intro h
  have hcross := noCrossTalk_of_sound (h LatencyPairs.formatDefault []
    [⟨0x100, 0, .str LatencyPairs.defaultTemplate⟩, ⟨0x200, 0x300, .str LatencyPairs.defaultTemplate⟩])
  have hfor := hcross (.str "0x01") 0x101 0x301
    (.pattern ⟨0x200, 0x300, .str LatencyPairs.defaultTemplate⟩) (by decide) rfl
  exact absurd hfor.1 (by decide)

end LatencySoundness
end CanSniffer
