import CanSniffer.DashboardPage
import CanSniffer.Library.JsNumber

namespace CanSniffer.Annotations

open Library JsNumber Models

def numberCell : Option Int → String
  | some n => String.ofList (intText (DashboardPage.parseNumber n).num)
  | none => "—"

/-- The cells of the row that `renderTable` makes for a frame. -/
def renderRow (f : PageFrame) : List String :=
  [numberCell f.dict.pruTsNs, String.ofList (toFixed 6 f.dict.kernelTs), f.dict.arbId,
    numberCell (some f.dict.dlc), f.dict.data, numberCell f.deltaUs]

structure AnnotateBody where
  kernelTs : JsonNumber
  arbId : Option JsonNumber
  note : String
  deriving DecidableEq, Repr

def clock (nowMs : Nat) : ℚ := Binary64.div nowMs 1000

def dblclick (cells : List String) (nowMs : Nat) (note : Option String) : Option AnnotateBody :=
  match cells, note with
  | _, none | _, some "" => none
  | cell0 :: cell1 :: _, some note =>
    let tsRaw := trim cell0.toList
    let idRaw := trim cell1.toList
    let arbId := parseIntHex (dropPrefix idRaw)
    let kernelTs :=
      match parseFloat tsRaw with
      | some ts => if ts = 0 then clock nowMs else ts
      | none => clock nowMs
    some ⟨stringify kernelTs, arbId.map stringify, note⟩
  | _, _ => none

/-- What the endpoint logs; `none` is an exception. -/
def annotateFrame (body : AnnotateBody) : Option (ℚ × Int × String) := do
  let kernelTs ← body.kernelTs.toFloat
  let arbId ← body.arbId.map JsonNumber.toInt
  pure (kernelTs, arbId, String.ofList (body.note.toList.take 500))

/-- Whatever the note, it is logged for the identifier of the frame and for a time that is displayed
as that of the frame. -/
def Attached (f : EnrichedFrame) (cells : List String) (nowMs : Nat) : Prop :=
  ∀ note ≠ "", ∃ kernelTs logged,
    (dblclick cells nowMs (some note)).bind annotateFrame =
        some (kernelTs, (f.arbId : Int), logged) ∧
      toFixed 6 kernelTs = toFixed 6 f.kernelTs

/-- The time in the first cell, or the clock if there is none or it is 0. -/
def pruTime (pruTsNs : Option Int) (nowMs : Nat) : ℚ :=
  match pruTsNs with
  | some n => if n = 0 then clock nowMs else Binary64.round n
  | none => clock nowMs

variable {f : EnrichedFrame} {nowMs : Nat}

theorem round_pruTime (pruTsNs : Option Int) (nowMs : Nat) :
    Binary64.round (pruTime pruTsNs nowMs) = pruTime pruTsNs nowMs := by
  cases pruTsNs with
  | none => exact Binary64.round_round _
  | some n =>
    rw [pruTime]
    split_ifs
    · exact Binary64.round_round _
    · exact Binary64.round_round _

theorem parseFloat_numberCell (n : Int) :
    parseFloat (trim (numberCell (some n)).toList) = some (Binary64.round n) := by
  obtain ⟨m, hm⟩ := Binary64.round_intCast n
  have hdouble : Binary64.round (m : ℚ) = m := by rw [← hm, Binary64.round_round]
  rw [numberCell, DashboardPage.parseNumber, hm, Rat.num_intCast, String.toList_ofList,
    trim_numeric (isNumeric_intText m), parseFloat_intText hdouble]

theorem dblclick_renderRow (f : EnrichedFrame) (deltaUs hue : Option Int) (nowMs : Nat)
    {note : String} (hnote : note ≠ "") :
    dblclick (renderRow ⟨f.toDict, deltaUs, hue⟩) nowMs (some note) =
      some ⟨stringify (pruTime f.pruTsNs nowMs),
        some (stringify (Binary64.round (hexRead 6 f.kernelTs))), note⟩ := by
  have hid : parseIntHex (dropPrefix (trim (String.ofList (toFixed 6 f.kernelTs)).toList)) =
      some (Binary64.round (hexRead 6 f.kernelTs)) := by
    have hnumeric := isNumeric_toFixed 6 f.kernelTs
    rw [String.toList_ofList, trim_numeric hnumeric, dropPrefix_numeric hnumeric,
      parseIntHex_toFixed]
  have hts : (match parseFloat (trim (numberCell f.pruTsNs).toList) with
      | some ts => if ts = 0 then clock nowMs else ts
      | none => clock nowMs) = pruTime f.pruTsNs nowMs := by
    cases f.pruTsNs with
    | none => rfl
    | some n =>
      have hzero : Binary64.round (n : ℚ) = 0 ↔ n = 0 :=
        Binary64.round_intCast_eq_iff (n := 0) (by decide)
      rw [parseFloat_numberCell]
      simp only [hzero, pruTime]
  rw [renderRow, dblclick]
  · dsimp only [EnrichedFrame.toDict]
    rw [hid, hts]
    rfl
  · exact hnote

theorem annotateFrame_posted (x : ℚ) (nowMs : Nat) (note : String) (pruTsNs : Option Int) :
    annotateFrame ⟨stringify (pruTime pruTsNs nowMs), some (stringify x), note⟩ =
      some (pruTime pruTsNs nowMs, (stringify x).toInt, String.ofList (note.toList.take 500)) := by
  rw [annotateFrame, toFloat_stringify (round_pruTime pruTsNs nowMs)]
  rfl

/-- The identifier that is logged is read from the time of the kernel, and the time from that of
the PRU. -/
theorem attached_iff_read (hid : f.arbId < 2 ^ 29) (deltaUs hue : Option Int) (nowMs : Nat) :
    Attached f (renderRow ⟨f.toDict, deltaUs, hue⟩) nowMs ↔
      hexRead 6 f.kernelTs = f.arbId ∧
        toFixed 6 (pruTime f.pruTsNs nowMs) = toFixed 6 f.kernelTs := by
  have hsmall : f.arbId < 2 ^ 53 := hid.trans (by decide)
  have hread : (stringify (Binary64.round (hexRead 6 f.kernelTs))).toInt = f.arbId ↔
      hexRead 6 f.kernelTs = f.arbId := by
    obtain ⟨m, hm⟩ := Binary64.round_intCast (hexRead 6 f.kernelTs)
    have hdouble : Binary64.round (m : ℚ) = m := by rw [← hm, Binary64.round_round]
    have hcast := Binary64.round_intCast_eq_iff (k := hexRead 6 f.kernelTs) hsmall
    rw [← hcast, hm, toInt_stringify hdouble hsmall]
    exact_mod_cast Iff.rfl
  rw [← hread, Attached]
  constructor
  · intro h
    obtain ⟨kernelTs, logged, hlogged, hts⟩ := h "a" (by decide)
    rw [dblclick_renderRow f deltaUs hue nowMs (by decide), Option.bind_some,
      annotateFrame_posted] at hlogged
    rw [Option.some.injEq, Prod.mk.injEq, Prod.mk.injEq] at hlogged
    obtain ⟨htime, harb, -⟩ := hlogged
    exact ⟨harb, htime ▸ hts⟩
  · rintro ⟨harb, hts⟩ note hnote
    refine ⟨pruTime f.pruTsNs nowMs, String.ofList (note.toList.take 500), ?_, hts⟩
    rw [dblclick_renderRow f deltaUs hue nowMs hnote, Option.bind_some, annotateFrame_posted, harb]

theorem hexRead_eq_iff (digits : Nat) (x : ℚ) (k : Nat) :
    hexRead digits x = k ↔ hexShown digits |x| = k ∧ (0 ≤ x ∨ k = 0) := by
  rw [hexRead]
  split_ifs with hneg
  · rw [neg_one_mul, or_iff_right (not_le.mpr hneg)]
    omega
  · rw [one_mul, Nat.cast_inj, and_iff_left (.inl (not_lt.mp hneg))]

theorem lt_hexShown {x : ℚ} (hlo : 10 ^ 8 ≤ x) (hhi : x < 10 ^ 21) : 2 ^ 29 < hexShown 6 x := by
  have hfloor : (10 ^ 8 * 10 ^ 6 : ℤ) ≤ ⌊x * 10 ^ 6 + 1 / 2⌋ := by
    apply Int.le_floor.mpr
    push_cast
    linarith
  have hnear : 10 ^ 8 ≤ nearest 6 x / 10 ^ 6 := by
    rw [Nat.le_div_iff_mul_le (by decide), nearest]
    omega
  rw [hexShown, if_pos hhi]
  exact lt_of_lt_of_le (by norm_num) (pow_le_hexOfDecimal hnear)

/-- An annotation is attached to its frame exactly if the digits of the seconds, read in base 16,
are the identifier and the time in the first cell is displayed as that of the kernel. -/
theorem attached_iff (hid : f.arbId < 2 ^ 29) (deltaUs hue : Option Int) (nowMs : Nat) :
    Attached f (renderRow ⟨f.toDict, deltaUs, hue⟩) nowMs ↔
      hexShown 6 |f.kernelTs| = f.arbId ∧ (0 ≤ f.kernelTs ∨ f.arbId = 0) ∧
        toFixed 6 (pruTime f.pruTsNs nowMs) = toFixed 6 f.kernelTs := by
  rw [attached_iff_read hid, hexRead_eq_iff, and_assoc]

def sampleFrame : EnrichedFrame where
  arbId := 0x123
  dlc := 1
  data := [0]
  isExtended := false
  pruTsNs := some 1700000000500000000
  kernelTs := 1700000000 + 1 / 2

example : dblclick (renderRow ⟨sampleFrame.toDict, none, none⟩) 0 (some "glitch") =
    some ⟨.int 1700000000500000000, some (.int 0x1700000000), "glitch"⟩ := by decide +kernel

theorem attached_iff_sampleFrame :
    Attached sampleFrame (renderRow ⟨sampleFrame.toDict, none, none⟩) 0 ↔
      hexShown 6 |sampleFrame.kernelTs| = sampleFrame.arbId ∧
        (0 ≤ sampleFrame.kernelTs ∨ sampleFrame.arbId = 0) ∧
        toFixed 6 (pruTime sampleFrame.pruTsNs 0) = toFixed 6 sampleFrame.kernelTs :=
  attached_iff (by decide) none none 0

/-- No frame of today is found again: nine digits of seconds were reached in 1973. -/
theorem not_attached_of_epoch (hid : f.arbId < 2 ^ 29) (hlo : 10 ^ 8 ≤ f.kernelTs)
    (hhi : f.kernelTs < 10 ^ 21) (deltaUs hue : Option Int) (nowMs : Nat) :
    ¬ Attached f (renderRow ⟨f.toDict, deltaUs, hue⟩) nowMs := by
  rw [attached_iff_read hid, hexRead_eq_iff]
  rintro ⟨⟨harb, -⟩, -⟩
  have habs : |f.kernelTs| = f.kernelTs := abs_of_nonneg (le_trans (by norm_num) hlo)
  have hlt := lt_hexShown hlo hhi
  rw [habs] at harb
  omega

theorem sampleFrame_not_attached :
    ¬ Attached sampleFrame (renderRow ⟨sampleFrame.toDict, none, none⟩) 0 :=
  not_attached_of_epoch (by decide) (by norm_num [sampleFrame]) (by norm_num [sampleFrame]) _ _ _

end CanSniffer.Annotations
