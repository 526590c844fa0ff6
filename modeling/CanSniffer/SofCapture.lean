import CanSniffer.IepTime
import CanSniffer.Library.Trace

namespace CanSniffer

open Library Library.RingSlots Firmware IepTime

/-- The waits in the main loop of `main`: for the interrupt of an edge, and for the end of the blind
period after a capture. -/
inductive Wait
  | interrupt
  | blind (iepSnap : UInt32)

/-- The firmware in its main loop. An edge raises `line`, the interrupt of GPIO2, until the loop
clears it. The true times of the captures, of the last check of a wait and of the last step are
kept beside, in ns since the counter was reset. -/
structure MainLoop where
  pru : Pru
  wait : Wait := .interrupt
  line : Bool := false
  captured : List Nat := []
  checked : Nat := 0
  now : Nat := 0

namespace MainLoop

inductive Act
  | edge (t : Nat)
  | check (t : Nat)

def Act.time : Act → Nat
  | edge t | check t => t

def check (s : MainLoop) (t : Nat) : MainLoop :=
  match s.wait with
  | .interrupt =>
    if s.line then
      { s with
        pru := s.pru.capture (iepCount t)
        wait := .blind (iepCount t)
        line := false
        captured := s.captured ++ [t] }
    else s
  | .blind iepSnap =>
    if iepCount t - iepSnap < blindCounts then s else { s with wait := .interrupt, line := false }

def step (s : MainLoop) : Act → MainLoop
  | .edge t => { s with line := true, now := t }
  | .check t => { s.check t with checked := t, now := t }

def start (shm : PruShmT) : MainLoop := ⟨Firmware.start shm, .interrupt, false, [], 0, 0⟩

def run (shm : PruShmT) (acts : List Act) : MainLoop := acts.foldl step (start shm)

/-- Time does not go back, and the last check is never more than `d` ns ago. -/
def InTime (d : Nat) (s : MainLoop) (a : Act) : Prop := s.now ≤ a.time ∧ a.time ≤ s.checked + d

instance (d : Nat) (s : MainLoop) (a : Act) : Decidable (InTime d s a) :=
  inferInstanceAs (Decidable (_ ∧ _))

def edges (acts : List Act) : List Nat :=
  acts.filterMap fun
    | .edge t => some t
    | .check _ => none

/-- A capture stands for an edge: it follows within `d` ns, or the edge comes in its blind period,
which ends at most `d` ns late. -/
def Seen (d : Nat) (captured : List Nat) (e : Nat) : Prop :=
  ∃ t ∈ captured, (e ≤ t ∧ t ≤ e + d) ∨ (t ≤ e ∧ e ≤ t + blindCounts.toNat + d)

structure Watches (shm : PruShmT) (d : Nat) (edges : List Nat) (s : MainLoop) : Prop where
  pru : s.pru = (s.captured.map iepCount).foldl Pru.capture (Firmware.start shm)
  checked : s.checked ≤ s.now
  apart : s.captured.Pairwise fun t u => t + blindCounts.toNat ≤ u
  waiting : s.wait = .interrupt → ∀ t ∈ s.captured, t + blindCounts.toNat ≤ s.checked
  blind : ∀ iepSnap, s.wait = .blind iepSnap → ∃ before t, s.captured = before ++ [t] ∧
    iepSnap = iepCount t ∧ t ≤ s.checked ∧ s.checked < t + blindCounts.toNat
  past : ∀ e ∈ edges, e ≤ s.now
  caused : ∀ t ∈ s.captured, ∃ e ∈ edges, e ≤ t ∧ t ≤ e + d
  raised : s.wait = .interrupt → s.line = true → ∃ e ∈ edges, s.checked ≤ e
  seen : ∀ e ∈ edges, Seen d s.captured e ∨ (s.line = true ∧ s.checked ≤ e)

variable {shm : PruShmT} {d : Nat} {es : List Nat} {s : MainLoop}

theorem seen_concat {captured : List Nat} {e : Nat} (h : Seen d captured e) (t : Nat) :
    Seen d (captured ++ [t]) e := by
  obtain ⟨u, hu, hnear⟩ := h
  exact ⟨u, List.mem_append_left _ hu, hnear⟩

theorem elapsed_lt_iff {t u : Nat} (htu : t ≤ u) (hround : u < t + 2 ^ 32) :
    iepCount u - iepCount t < blindCounts ↔ u < t + blindCounts.toNat := by
  have hb : blindCounts.toNat = 10000000 := by decide
  rw [UInt32.lt_iff_toNat_lt, UInt32.toNat_sub, toNat_iepCount, toNat_iepCount, hb]
  omega

theorem elapsed_ge {t u : Nat} (htu : t ≤ u) (h : ¬ iepCount u - iepCount t < blindCounts) :
    t + blindCounts.toNat ≤ u := by
  have hb : blindCounts.toNat = 10000000 := by decide
  rw [UInt32.lt_iff_toNat_lt, UInt32.toNat_sub, toNat_iepCount, toNat_iepCount, hb] at h
  omega

theorem watches_edge (h : Watches shm d es s) {t : Nat} (hnow : s.now ≤ t) :
    Watches shm d (es ++ [t]) (s.step (.edge t)) where
  pru := h.pru
  checked := h.checked.trans hnow
  apart := h.apart
  waiting := h.waiting
  blind := h.blind
  past e he := by
    obtain hold | hnew := List.mem_append.mp he
    · exact (h.past e hold).trans hnow
    · rw [List.mem_singleton.mp hnew]
      exact le_rfl
  caused u hu := by
    obtain ⟨e, he, hnear⟩ := h.caused u hu
    exact ⟨e, List.mem_append_left _ he, hnear⟩
  raised _ _ := ⟨t, List.mem_append_right _ List.mem_cons_self, h.checked.trans hnow⟩
  seen e he := by
    obtain hold | hnew := List.mem_append.mp he
    · exact (h.seen e hold).imp_right fun hlast => ⟨rfl, hlast.2⟩
    · rw [List.mem_singleton.mp hnew]
      exact .inr ⟨rfl, h.checked.trans hnow⟩

theorem watches_wait (h : Watches shm d es s) {t : Nat} (hin : InTime d s (.check t))
    (hsame : s.check t = s)
    (hblind : ∀ iepSnap, s.wait = .blind iepSnap → ∀ before u, s.captured = before ++ [u] →
      iepSnap = iepCount u → t < u + blindCounts.toNat)
    (hline : s.wait = .interrupt → s.line = false) :
    Watches shm d es (s.step (.check t)) := by
  have hlater : s.checked ≤ t := h.checked.trans hin.1
  rw [step, hsame]
  refine ⟨h.pru, le_rfl, h.apart, fun hw u hu => (h.waiting hw u hu).trans hlater, ?_, ?_, h.caused,
    ?_, ?_⟩
  · intro iepSnap hw
    obtain ⟨before, u, hcap, hsnap, hle, -⟩ := h.blind iepSnap hw
    exact ⟨before, u, hcap, hsnap, hle.trans hlater, hblind iepSnap hw before u hcap hsnap⟩
  · exact fun e he => (h.past e he).trans hin.1
  · intro hw hon
    rw [show s.line = true from hon] at hline
    cases hline hw
  · intro e he
    obtain hseen | ⟨hon, hsince⟩ := h.seen e he
    · exact .inl hseen
    · cases hw : s.wait with
      | interrupt =>
        rw [hline hw] at hon
        cases hon
      | blind iepSnap =>
        obtain ⟨before, u, hcap, hsnap, hle, -⟩ := h.blind iepSnap hw
        have hend := hblind iepSnap hw before u hcap hsnap
        have hnow := h.past e he
        have hin' := hin.1
        refine .inl ⟨u, by rw [hcap]; simp, .inr ⟨hle.trans hsince, ?_⟩⟩
        change s.now ≤ t at hin'
        omega

theorem watches_capture (h : Watches shm d es s) {t : Nat} (hin : InTime d s (.check t))
    (hw : s.wait = .interrupt) (hon : s.line = true) :
    Watches shm d es (s.step (.check t)) := by
  have hnow : s.now ≤ t := hin.1
  have hsoon : t ≤ s.checked + d := hin.2
  have hb : blindCounts.toNat = 10000000 := by decide
  have hlater := h.checked.trans hnow
  have hcheck : s.check t = { s with
      pru := s.pru.capture (iepCount t)
      wait := .blind (iepCount t)
      line := false
      captured := s.captured ++ [t] } := by
    rw [check, hw]
    simp [hon]
  rw [step, hcheck]
  constructor
  · change s.pru.capture (iepCount t) = _
    rw [List.map_append, List.foldl_append, ← h.pru]
    rfl
  · exact le_rfl
  · refine List.pairwise_append.mpr ⟨h.apart, List.pairwise_singleton _ _, ?_⟩
    intro u hu v hv
    rw [List.mem_singleton.mp hv]
    exact (h.waiting hw u hu).trans hlater
  · exact nofun
  · rintro iepSnap heq
    cases heq
    exact ⟨s.captured, t, rfl, rfl, le_rfl, by dsimp only; omega⟩
  · exact fun e he => (h.past e he).trans hnow
  · intro u hu
    obtain hold | hnew := List.mem_append.mp hu
    · exact h.caused u hold
    · obtain ⟨e, he, hsince⟩ := h.raised hw hon
      have hpast := h.past e he
      rw [List.mem_singleton.mp hnew]
      exact ⟨e, he, hpast.trans hnow, by omega⟩
  · exact nofun
  · intro e he
    obtain hseen | ⟨-, hsince⟩ := h.seen e he
    · exact .inl (seen_concat hseen t)
    · have hpast := h.past e he
      exact .inl ⟨t, List.mem_append_right _ List.mem_cons_self,
        .inl ⟨hpast.trans hnow, by omega⟩⟩

theorem watches_rearm (h : Watches shm d es s) {t : Nat} (hin : InTime d s (.check t))
    {iepSnap : UInt32} (hw : s.wait = .blind iepSnap)
    (hover : ¬ iepCount t - iepSnap < blindCounts) :
    Watches shm d es (s.step (.check t)) := by
  have hnow : s.now ≤ t := hin.1
  have hsoon : t ≤ s.checked + d := hin.2
  obtain ⟨before, u, hcap, hsnap, hle, hlt⟩ := h.blind iepSnap hw
  have hend : u + blindCounts.toNat ≤ t := by
    rw [hsnap] at hover
    exact elapsed_ge (hle.trans (h.checked.trans hnow)) hover
  have hcheck : s.check t = { s with wait := .interrupt, line := false } := by
    rw [check, hw]
    simp [hover]
  rw [step, hcheck]
  refine ⟨h.pru, le_rfl, h.apart, fun _ v hv => ?_, nofun, fun e he => (h.past e he).trans hnow,
    h.caused, nofun, fun e he => .inl ?_⟩
  · change v ∈ s.captured at hv
    have hlast := h.apart
    rw [hcap] at hv hlast
    obtain hold | hnew := List.mem_append.mp hv
    · have hvu := (List.pairwise_append.mp hlast).2.2 v hold u List.mem_cons_self
      dsimp only
      omega
    · rw [List.mem_singleton.mp hnew]
      exact hend
  · obtain hseen | ⟨-, hsince⟩ := h.seen e he
    · exact hseen
    · have hpast := h.past e he
      exact ⟨u, by simp [hcap], .inr ⟨hle.trans hsince, by omega⟩⟩

theorem watches_step (h : Watches shm d es s) (hd : blindCounts.toNat + d ≤ 2 ^ 32) {a : Act}
    (hin : InTime d s a) : Watches shm d (es ++ edges [a]) (s.step a) := by
  cases a with
  | edge t => exact watches_edge h hin.1
  | check t =>
    rw [show edges [.check t] = [] from rfl, List.append_nil]
    cases hw : s.wait with
    | interrupt =>
      cases hon : s.line with
      | true => exact watches_capture h hin hw hon
      | false =>
        refine watches_wait h hin ?_ (fun iepSnap hb => by rw [hw] at hb; cases hb) fun _ => hon
        rw [check, hw]
        simp [hon]
    | blind iepSnap =>
      by_cases hover : iepCount t - iepSnap < blindCounts
      · refine watches_wait h hin ?_ ?_ fun hi => by rw [hw] at hi; cases hi
        · rw [check, hw]
          simp [hover]
        · intro snap hb before u hcap hsnap
          obtain ⟨before', u', hcap', -, hle, hlt⟩ := h.blind snap hb
          rw [hcap] at hcap'
          obtain ⟨-, heq⟩ := List.append_inj' hcap' rfl
          rw [List.cons.injEq] at heq
          rw [hw, Wait.blind.injEq] at hb
          have hsoon : t ≤ s.checked + d := hin.2
          have hnow : s.now ≤ t := hin.1
          have hchecked := h.checked
          rw [hb, hsnap, elapsed_lt_iff (by omega) (by omega)] at hover
          exact hover
      · exact watches_rearm h hin hw hover

theorem edges_append (acts more : List Act) : edges (acts ++ more) = edges acts ++ edges more :=
  List.filterMap_append

theorem watches_run (shm : PruShmT) (hd : blindCounts.toNat + d ≤ 2 ^ 32) {acts : List Act}
    (htime : Trace.AllSteps step (InTime d) (start shm) acts) :
    Watches shm d (edges acts) (run shm acts) := by
  induction acts using List.reverseRecOn with
  | nil => exact ⟨rfl, le_rfl, .nil, nofun, nofun, nofun, nofun, nofun, nofun⟩
  | append_singleton acts a ih =>
    rw [Trace.allSteps_snoc] at htime
    rw [edges_append, run, List.foldl_append]
    exact watches_step (ih htime.1) hd htime.2

def ringOff : PruShmT := ⟨0, 0, 0, 0, 0, fun _ => ⟨0, 0, 0, 0, 0⟩⟩

def twoFrames : List Act :=
  [.edge 4000000, .check 5000000, .edge 6000000, .check 10000000, .check 16000000, .edge 20000000,
    .check 21000000]

/-- No `idle` ns go by without an edge. -/
def Busy (idle : Nat) (es : List Nat) (now : Nat) : Prop :=
  ∀ x, x + idle ≤ now → ∃ e ∈ es, x ≤ e ∧ e ≤ x + idle

theorem captured_checked (h : Watches shm d es s) : ∀ t ∈ s.captured, t ≤ s.checked := by
  intro t ht
  cases hw : s.wait with
  | interrupt => exact (Nat.le_add_right t _).trans (h.waiting hw t ht)
  | blind iepSnap =>
    obtain ⟨before, u, hcap, -, hle, -⟩ := h.blind iepSnap hw
    have hlast := h.apart
    rw [hcap] at ht hlast
    obtain hold | hnew := List.mem_append.mp ht
    · have htu := (List.pairwise_append.mp hlast).2.2 t hold u List.mem_cons_self
      omega
    · rw [List.mem_singleton.mp hnew]
      exact hle

theorem captured_sorted (h : Watches shm d es s) : s.captured.IsChain (· < ·) := by
  have hb : 0 < blindCounts.toNat := by decide
  exact List.isChain_iff_pairwise.mpr (h.apart.imp fun htu => by omega)

theorem sampled_of_busy {idle : Nat} (h : Watches shm d es s)
    (hidle : blindCounts.toNat + idle + 2 * d + 1 < 2 ^ 32) (hbusy : Busy idle es s.checked) :
    SampledEachPeriod s.captured := by
  have hle := List.isChain_iff_pairwise.mp (isChain_zero_le (captured_sorted h))
  rw [SampledEachPeriod, List.isChain_iff_forall_rel_of_append_cons_cons]
  intro t u before after hsplit
  by_contra hlong
  rw [hsplit] at hle
  have hu : u ∈ s.captured := by
    have hmem : u ∈ (0 :: s.captured).tail := by
      rw [hsplit]
      cases before <;> simp
    exact hmem
  have hchecked := captured_checked h u hu
  obtain ⟨e, he, hxe, hex⟩ := hbusy (t + blindCounts.toNat + d + 1) (by omega)
  obtain ⟨v, hv, hnear⟩ | hlast := h.seen e he
  · have hin : v ∈ before ++ t :: u :: after := by
      rw [← hsplit]
      exact List.mem_cons_of_mem 0 hv
    obtain ⟨-, hrest, hbefore⟩ := List.pairwise_append.mp hle
    obtain ⟨-, hrest⟩ := List.pairwise_cons.mp hrest
    obtain hv | hv := List.mem_append.mp hin
    · have hvt := hbefore v hv t List.mem_cons_self
      omega
    · obtain rfl | hv := List.mem_cons.mp hv
      · omega
      · obtain rfl | hv := List.mem_cons.mp hv
        · omega
        · have huv := (List.pairwise_cons.mp hrest).1 v hv
          omega
  · have hlater := hlast.2
    omega

/-- On a bus that is never idle for so long that the counter may go round between two captures, the
ring shows each capture at its true time. -/
theorem ring_shows_times (shm : PruShmT) (d idle : Nat)
    (hidle : blindCounts.toNat + idle + 2 * d + 1 < 2 ^ 32) (acts : List Act)
    (htime : Trace.AllSteps step (InTime d) (start shm) acts)
    (hbusy : Busy idle (edges acts) (run shm acts).checked)
    (hbound : (run shm acts).checked < 2 ^ 63) :
    let s := run shm acts
    Holds s.pru.shm.ring 0 (sofEvents 0 (s.captured.map UInt64.ofNat)) := by
  intro s
  have h : Watches shm d (edges acts) s := watches_run shm (by omega) htime
  have hexact := captures_exact shm s.captured (captured_sorted h)
    (fun t ht => (captured_checked h t ht).trans_lt hbound) (sampled_of_busy h hidle hbusy)
  rwa [← h.pru] at hexact

theorem ring_shows_times_twoFrames :
    let s := run ringOff twoFrames
    Holds s.pru.shm.ring 0 (sofEvents 0 (s.captured.map UInt64.ofNat)) :=
  ring_shows_times ringOff 10000000 16000000 (by decide) twoFrames (by decide +kernel)
    (by
      have hchecked : (run ringOff twoFrames).checked = 21000000 := by decide +kernel
      intro x hx
      rw [hchecked] at hx
      obtain hfirst | hlater := Nat.lt_or_ge 4000000 x
      · exact ⟨6000000, by decide, by omega, by omega⟩
      · exact ⟨4000000, by decide, hlater, by omega⟩)
    (by decide +kernel)

end MainLoop

end CanSniffer
