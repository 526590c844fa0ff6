import CanSniffer.Library.WindowMatch

namespace CanSniffer.Library.OneToOne

open WindowMatch

variable {P M : Type} (pt : P → Int) (mt : M → Int) (width : Int)

/-- A one-to-one assignment between two streams, as pairs of positions: no position of either
stream is used twice, and the items of each pair are in reach. -/
structure Assignment (ps : List P) (ms : List M) (a : Finset (ℕ × ℕ)) : Prop where
  left : Set.InjOn Prod.fst (a : Set (ℕ × ℕ))
  right : Set.InjOn Prod.snd (a : Set (ℕ × ℕ))
  reach : ∀ e ∈ a, ∃ p ∈ ps[e.1]?, ∃ m ∈ ms[e.2]?, Reaches pt mt width p m

/-- The pairs that the merge of the two streams makes. -/
def pairCount (ps : List P) (ms : List M) : Nat :=
  (merge pt mt width ps ms).countP fun r => r.2.isSome

variable {pt mt width} {ps : List P} {ms : List M} {a : Finset (ℕ × ℕ)} {p : P} {m : M}

theorem le_of_sorted {α : Type} {t : α → Int} {x : α} {xs : List α}
    (h : (x :: xs).Pairwise fun x y => t x ≤ t y) : ∀ y ∈ x :: xs, t x ≤ t y := by
  intro y hy
  obtain rfl | hy := List.mem_cons.mp hy
  · exact le_rfl
  · exact (List.pairwise_cons.mp h).1 y hy

theorem assignment_empty : Assignment pt mt width ps ms ∅ := by
  constructor <;> simp

namespace Assignment

theorem move (h : Assignment pt mt width ps ms a) (qs : List P) (ns : List M) (f g : ℕ → ℕ)
    (hf : ∀ d ∈ a, ∀ e ∈ a, f d.1 = f e.1 → d.1 = e.1)
    (hg : ∀ d ∈ a, ∀ e ∈ a, g d.2 = g e.2 → d.2 = e.2)
    (hreach : ∀ e ∈ a, ∃ p ∈ qs[f e.1]?, ∃ m ∈ ns[g e.2]?, Reaches pt mt width p m) :
    Assignment pt mt width qs ns (a.image (Prod.map f g)) ∧
      (a.image (Prod.map f g)).card = a.card := by
  refine ⟨⟨?_, ?_, ?_⟩, ?_⟩
  · rw [Finset.coe_image]
    rintro _ ⟨d, hd, rfl⟩ _ ⟨e, he, rfl⟩ hde
    rw [h.left hd he (hf d hd e he hde)]
  · rw [Finset.coe_image]
    rintro _ ⟨d, hd, rfl⟩ _ ⟨e, he, rfl⟩ hde
    rw [h.right hd he (hg d hd e he hde)]
  · intro e he
    obtain ⟨d, hd, rfl⟩ := Finset.mem_image.mp he
    exact hreach d hd
  · apply Finset.card_image_of_injOn
    intro d hd e he hde
    exact h.left hd he (hf d hd e he (congrArg Prod.fst hde))

theorem mono (h : Assignment pt mt width ps ms a) {b : Finset (ℕ × ℕ)} (hsub : b ⊆ a) :
    Assignment pt mt width ps ms b where
  left := h.left.mono (by simpa using hsub)
  right := h.right.mono (by simpa using hsub)
  reach := fun e he => h.reach e (hsub he)

theorem drop (h : Assignment pt mt width ps ms a) (k l : ℕ) (hfree : ∀ e ∈ a, k ≤ e.1 ∧ l ≤ e.2) :
    ∃ b, Assignment pt mt width (ps.drop k) (ms.drop l) b ∧ b.card = a.card := by
  refine ⟨_, h.move _ _ (· - k) (· - l) ?_ ?_ ?_⟩
  · intro d hd e he hde
    have := hfree d hd
    have := hfree e he
    omega
  · intro d hd e he hde
    have := hfree d hd
    have := hfree e he
    omega
  · intro e he
    obtain ⟨hk, hl⟩ := hfree e he
    simpa [List.getElem?_drop, hk, hl] using h.reach e he

theorem undrop (ps : List P) (ms : List M) (k l : ℕ)
    (h : Assignment pt mt width (ps.drop k) (ms.drop l) a) :
    ∃ b, Assignment pt mt width ps ms b ∧ b.card = a.card ∧ ∀ e ∈ b, k ≤ e.1 ∧ l ≤ e.2 := by
  obtain ⟨hb, hcard⟩ := h.move ps ms (k + ·) (l + ·)
    (fun _ _ _ _ => Nat.add_left_cancel) (fun _ _ _ _ => Nat.add_left_cancel)
    (by simpa [List.getElem?_drop] using h.reach)
  refine ⟨_, hb, hcard, fun e he => ?_⟩
  obtain ⟨d, -, rfl⟩ := Finset.mem_image.mp he
  exact ⟨Nat.le_add_right _ _, Nat.le_add_right _ _⟩

theorem insert_heads (h : Assignment pt mt width (p :: ps) (m :: ms) a)
    (hleft : ∀ e ∈ a, e.1 ≠ 0) (hright : ∀ e ∈ a, e.2 ≠ 0) (hreach : Reaches pt mt width p m) :
    Assignment pt mt width (p :: ps) (m :: ms) (insert (0, 0) a) ∧
      (insert (0, 0) a).card = a.card + 1 := by
  have hnew : (0, 0) ∉ a := fun h0 => hleft _ h0 rfl
  refine ⟨⟨?_, ?_, ?_⟩, Finset.card_insert_of_notMem hnew⟩
  · rw [Finset.coe_insert, Set.injOn_insert hnew]
    refine ⟨h.left, ?_⟩
    rintro ⟨e, he, he0⟩
    exact hleft e he he0
  · rw [Finset.coe_insert, Set.injOn_insert hnew]
    refine ⟨h.right, ?_⟩
    rintro ⟨e, he, he0⟩
    exact hright e he he0
  · intro e he
    obtain rfl | he := Finset.mem_insert.mp he
    · exact ⟨p, rfl, m, rfl, hreach⟩
    · exact h.reach e he

theorem cons_pair (h : Assignment pt mt width ps ms a) (hreach : Reaches pt mt width p m) :
    ∃ b, Assignment pt mt width (p :: ps) (m :: ms) b ∧ b.card = a.card + 1 := by
  obtain ⟨b, hb, hcard, hfree⟩ := undrop (p :: ps) (m :: ms) 1 1 h
  obtain ⟨hins, hmore⟩ := hb.insert_heads (fun e he => Nat.ne_of_gt (hfree e he).1)
    (fun e he => Nat.ne_of_gt (hfree e he).2) hreach
  exact ⟨_, hins, by rw [hmore, hcard]⟩

/-- The exchange: when the heads of two sorted streams are in reach of each other, any
assignment can be changed into one that pairs them, without losing a pair. -/
theorem exchange (h : Assignment pt mt width (p :: ps) (m :: ms) a)
    (hps : ∀ q ∈ p :: ps, pt p ≤ pt q) (hms : ∀ n ∈ m :: ms, mt m ≤ mt n)
    (hreach : Reaches pt mt width p m) :
    ∃ b, Assignment pt mt width (p :: ps) (m :: ms) b ∧ a.card ≤ b.card ∧ (0, 0) ∈ b := by
  by_cases hrow : ∃ j, (0, j) ∈ a
  · -- the partner of the first head and the other head change places
    obtain ⟨j, hj⟩ := hrow
    obtain ⟨q, hq, n, hn, hpn⟩ := h.reach _ hj
    cases hq
    obtain ⟨hb, hcard⟩ := h.move (p :: ps) (m :: ms) id (Equiv.swap 0 j)
      (fun _ _ _ _ => id) (fun _ _ _ _ => (Equiv.swap 0 j).injective.eq_iff.mp) (by
        intro e he
        obtain ⟨q, hq, k, hk, hqk⟩ := h.reach e he
        refine ⟨q, hq, ?_⟩
        by_cases he0 : e.2 = 0
        · rw [he0] at hk ⊢
          cases hk
          have hpq := hps q (List.mem_of_getElem? hq)
          have hmn := hms n (List.mem_of_getElem? hn)
          rw [Equiv.swap_apply_left]
          exact ⟨n, hn, by have := hqk.1; omega, by have := hpn.2; omega⟩
        · by_cases hej : e.2 = j
          · have hrow : e = (0, j) := h.right he hj hej
            subst hrow
            cases hq
            rw [Equiv.swap_apply_right]
            exact ⟨m, rfl, hreach⟩
          · rw [Equiv.swap_apply_of_ne_of_ne he0 hej]
            exact ⟨k, hk, hqk⟩)
    exact ⟨_, hb, hcard.ge, Finset.mem_image.mpr ⟨_, hj, by simp⟩⟩
  · by_cases hcol : ∃ i, (i, 0) ∈ a
    · -- the first head is free and takes the place of the item paired with the other head
      obtain ⟨i, hi⟩ := hcol
      obtain ⟨hb, hcard⟩ := h.move (p :: ps) (m :: ms) (Equiv.swap 0 i) id
        (fun _ _ _ _ => (Equiv.swap 0 i).injective.eq_iff.mp) (fun _ _ _ _ => id) (by
          intro e he
          have he0 : e.1 ≠ 0 := fun h0 => hrow ⟨e.2, by rwa [← h0]⟩
          by_cases hei : e.1 = i
          · have hcol : e = (i, 0) := h.left he hi hei
            subst hcol
            rw [Equiv.swap_apply_right]
            exact ⟨p, rfl, m, rfl, hreach⟩
          · rw [Equiv.swap_apply_of_ne_of_ne he0 hei]
            exact h.reach e he)
      exact ⟨_, hb, hcard.ge, Finset.mem_image.mpr ⟨_, hi, by simp⟩⟩
    · obtain ⟨hins, hmore⟩ := h.insert_heads (fun e he h0 => hrow ⟨e.2, by rwa [← h0]⟩)
        (fun e he h0 => hcol ⟨e.1, by rwa [← h0]⟩) hreach
      exact ⟨_, hins, by omega, Finset.mem_insert_self _ _⟩

end Assignment

theorem pairCount_early {p : P} {m : M} (h : mt m - pt p < 0) :
    pairCount pt mt width (p :: ps) (m :: ms) = pairCount pt mt width (p :: ps) ms := by
  simp [pairCount, merge_early h]

theorem pairCount_late {p : P} {m : M} (h0 : ¬ mt m - pt p < 0) (h : mt m - pt p > width) :
    pairCount pt mt width (p :: ps) (m :: ms) = pairCount pt mt width ps (m :: ms) := by
  simp [pairCount, merge_late h0 h]

theorem pairCount_pair {p : P} {m : M} (h0 : ¬ mt m - pt p < 0) (h : ¬ mt m - pt p > width) :
    pairCount pt mt width (p :: ps) (m :: ms) = pairCount pt mt width ps ms + 1 := by
  simp [pairCount, merge_pair h0 h]

theorem pairCount_attained (ps : List P) (ms : List M) :
    ∃ a, Assignment pt mt width ps ms a ∧ a.card = pairCount pt mt width ps ms := by
  induction ps, ms using merge.induct pt mt width with
  | case1 ms => exact ⟨∅, assignment_empty, by simp [pairCount, Function.comp_def]⟩
  | case2 p ps => exact ⟨∅, assignment_empty, by simp [pairCount]⟩
  | case3 p ps m ms h ih =>
    obtain ⟨a, ha, hcard⟩ := ih
    obtain ⟨b, hb, hbcard, -⟩ := Assignment.undrop (p :: ps) (m :: ms) 0 1 ha
    exact ⟨b, hb, by rw [hbcard, hcard, pairCount_early h]⟩
  | case4 p ps m ms h0 h ih =>
    obtain ⟨a, ha, hcard⟩ := ih
    obtain ⟨b, hb, hbcard, -⟩ := Assignment.undrop (p :: ps) (m :: ms) 1 0 ha
    exact ⟨b, hb, by rw [hbcard, hcard, pairCount_late h0 h]⟩
  | case5 p ps m ms h0 h ih =>
    obtain ⟨a, ha, hcard⟩ := ih
    obtain ⟨b, hb, hbcard⟩ := ha.cons_pair (p := p) (m := m) ⟨by omega, by omega⟩
    exact ⟨b, hb, by rw [hbcard, hcard, pairCount_pair h0 h]⟩

/-- No assignment has more pairs than the merge of the sorted streams. -/
theorem card_le_pairCount (hps : ps.Pairwise fun p q => pt p ≤ pt q)
    (hms : ms.Pairwise fun m n => mt m ≤ mt n) (h : Assignment pt mt width ps ms a) :
    a.card ≤ pairCount pt mt width ps ms := by
  induction ps, ms using merge.induct pt mt width generalizing a with
  | case1 ms =>
    have hnone : a = ∅ := Finset.eq_empty_of_forall_notMem fun e he => by simpa using h.reach e he
    simp [hnone]
  | case2 p ps =>
    have hnone : a = ∅ := Finset.eq_empty_of_forall_notMem fun e he => by simpa using h.reach e he
    simp [hnone]
  | case3 p ps m ms hearly ih =>
    -- the item lies before the whole other stream, so no pair uses it
    have hfree : ∀ e ∈ a, 0 ≤ e.1 ∧ 1 ≤ e.2 := by
      intro e he
      refine ⟨Nat.zero_le _, Nat.pos_of_ne_zero fun h0 => ?_⟩
      obtain ⟨q, hq, n, hn, hreach⟩ := h.reach e he
      rw [h0] at hn
      cases hn
      have hpq := le_of_sorted hps q (List.mem_of_getElem? hq)
      have := hreach.1
      omega
    obtain ⟨b, hb, hcard⟩ := h.drop 0 1 hfree
    rw [pairCount_early hearly, ← hcard]
    exact ih hps hms.tail hb
  | case4 p ps m ms h0 hlate ih =>
    -- the item lies too far before the whole other stream
    have hfree : ∀ e ∈ a, 1 ≤ e.1 ∧ 0 ≤ e.2 := by
      intro e he
      refine ⟨Nat.pos_of_ne_zero fun h0 => ?_, Nat.zero_le _⟩
      obtain ⟨q, hq, n, hn, hreach⟩ := h.reach e he
      rw [h0] at hq
      cases hq
      have hmn := le_of_sorted hms n (List.mem_of_getElem? hn)
      have := hreach.2
      omega
    obtain ⟨b, hb, hcard⟩ := h.drop 1 0 hfree
    rw [pairCount_late h0 hlate, ← hcard]
    exact ih hps.tail hms hb
  | case5 p ps m ms h0 hin ih =>
    obtain ⟨b, hb, hle, hheads⟩ :=
      h.exchange (le_of_sorted hps) (le_of_sorted hms) ⟨by omega, by omega⟩
    have hfree : ∀ e ∈ b.erase (0, 0), 1 ≤ e.1 ∧ 1 ≤ e.2 := by
      intro e he
      obtain ⟨hne, he⟩ := Finset.mem_erase.mp he
      refine ⟨Nat.pos_of_ne_zero fun h0 => hne ?_, Nat.pos_of_ne_zero fun h0 => hne ?_⟩
      · exact hb.left he hheads h0
      · exact hb.right he hheads h0
    obtain ⟨c, hc, hcard⟩ := (hb.mono (Finset.erase_subset _ _)).drop 1 1 hfree
    have hrest := ih hps.tail hms.tail hc
    have herase := Finset.card_erase_of_mem hheads
    rw [pairCount_pair h0 hin]
    omega

theorem pairCount_isGreatest (hps : ps.Pairwise fun p q => pt p ≤ pt q)
    (hms : ms.Pairwise fun m n => mt m ≤ mt n) :
    IsGreatest {n | ∃ a, Assignment pt mt width ps ms a ∧ a.card = n}
      (pairCount pt mt width ps ms) := by
  refine ⟨pairCount_attained ps ms, ?_⟩
  rintro n ⟨a, ha, rfl⟩
  exact card_le_pairCount hps hms ha

end CanSniffer.Library.OneToOne
