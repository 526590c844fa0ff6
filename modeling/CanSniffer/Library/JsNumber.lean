import CanSniffer.Library.Binary64
import CanSniffer.Library.PyText
import Mathlib.Data.List.DropRight

namespace CanSniffer.Library.JsNumber

open PyText

-- Texts are lists of characters here. Numbers are finite.

/-- The nearest multiple of `10 ^ e` that is read as `v`, of the two next to it. -/
def readBack (v e : Nat) : Option Nat :=
  let below := v / 10 ^ e * 10 ^ e
  let above := below + 10 ^ e
  let belowFirst := v - below < above - v ∨ v - below = above - v ∧ v / 10 ^ e % 2 = 0
  (if belowFirst then [below, above] else [above, below]).find? fun m => Binary64.round m = v

/-- The integer that is written for a double: as few digits as possible before its zeros. -/
def decimal (v : Nat) : Nat :=
  ((List.range ((Nat.toDigits 10 v).length + 1)).reverse.findSome? (readBack v)).getD v

def signedDecimal (n : Int) : Int := (if n < 0 then -1 else 1) * decimal n.natAbs

def significant (m : Nat) : List Char := (Nat.toDigits 10 m).rdropWhile fun c => c = '0'

/-- From 22 digits on a number is written with an exponent. -/
def natText (v : Nat) : List Char :=
  let m := decimal v
  if m < 10 ^ 21 then Nat.toDigits 10 m
  else
    let tail := (significant m).tail
    (significant m).take 1 ++ (if tail = [] then [] else '.' :: tail) ++
      'e' :: '+' :: Nat.toDigits 10 ((Nat.toDigits 10 m).length - 1)

/-- `String(n)` of a double that is an integer. -/
def intText (n : Int) : List Char := (if n < 0 then ['-'] else []) ++ natText n.natAbs

/-- The multiple of `10 ^ -digits` nearest to `x`, and the larger one of two. -/
def nearest (digits : Nat) (x : ℚ) : Nat := ⌊x * 10 ^ digits + 1 / 2⌋.toNat

def fixedText (digits : Nat) (x : ℚ) : List Char :=
  if x < 10 ^ 21 then
    let n := nearest digits x
    Nat.toDigits 10 (n / 10 ^ digits) ++
      if digits = 0 then [] else '.' :: (Nat.toDigits 10 (n % 10 ^ digits)).leftpad digits '0'
  else natText ⌊x⌋.toNat

def toFixed (digits : Nat) (x : ℚ) : List Char :=
  (if x < 0 then ['-'] else []) ++ fixedText digits |x|

def readFraction : List Char → List Char × List Char
  | '.' :: cs => cs.span Char.isDigit
  | cs => ([], cs)

/-- An exponent without digits is none. -/
def readExponent : List Char → Int
  | 'e' :: cs | 'E' :: cs =>
    let (sign, cs) := readSign cs
    sign * Nat.ofDigitChars 10 (cs.takeWhile Char.isDigit) 0
  | _ => 0

def parseFloat (cs : List Char) : Option ℚ :=
  let (sign, cs) := readSign (cs.dropWhile isSpace)
  let (whole, cs) := cs.span Char.isDigit
  let (frac, cs) := readFraction cs
  if whole ++ frac = [] then none
  else
    let scale : ℚ := 10 ^ (readExponent cs - frac.length)
    some (Binary64.round (sign * (Nat.ofDigitChars 10 (whole ++ frac) 0 * scale)))

/-- Hexadecimal digits up to the first character that is none. -/
def readHexDigits : Nat → List Char → Nat
  | n, [] => n
  | n, c :: cs =>
    match hexValue c with
    | some d => readHexDigits (16 * n + d) cs
    | none => n

def dropPrefix : List Char → List Char
  | '0' :: 'x' :: cs | '0' :: 'X' :: cs => cs
  | cs => cs

def trim (cs : List Char) : List Char := (cs.dropWhile isSpace).rdropWhile isSpace

/-- `parseInt(text, 16)`; `none` is NaN. -/
def parseIntHex (cs : List Char) : Option ℚ :=
  let (sign, cs) := readSign (cs.dropWhile isSpace)
  let cs := dropPrefix cs
  if cs.head?.bind hexValue = none then none
  else some (Binary64.round (sign * readHexDigits 0 cs))

/-- A number of a JSON document as `json.loads` returns it: with a fraction or an exponent it is a
float. -/
inductive JsonNumber
  | int (n : Int)
  | float (x : ℚ)
  deriving DecidableEq, Repr

/-- What `JSON.stringify` writes for a double, as it is loaded again. -/
def stringify (x : ℚ) : JsonNumber :=
  if x.den = 1 ∧ |signedDecimal x.num| < 10 ^ 21 then .int (signedDecimal x.num) else .float x

namespace JsonNumber

def toFloat : JsonNumber → Option ℚ
  | int n => Binary64.ofInt? n
  | float x => some x

def toInt : JsonNumber → Int
  | int n => n
  | float x => Binary64.trunc x

end JsonNumber

theorem round_of_readBack {v e m : Nat} (h : readBack v e = some m) : Binary64.round m = v := by
  rw [readBack] at h
  simpa using List.find?_some h

theorem round_decimal {v : Nat} (hv : Binary64.round v = v) : Binary64.round (decimal v) = v := by
  rw [decimal]
  cases hfind : (List.range ((Nat.toDigits 10 v).length + 1)).reverse.findSome? (readBack v) with
  | none => exact hv
  | some m =>
    obtain ⟨e, -, hm⟩ := List.exists_of_findSome?_eq_some hfind
    exact round_of_readBack hm

theorem isDigit_of_mem {n : Nat} {c : Char} (h : c ∈ Nat.toDigits 10 n) : c.isDigit = true :=
  Nat.isDigit_of_mem_toDigits (by decide) (by decide) h

theorem span_digits {ds cs : List Char} (hds : ∀ c ∈ ds, c.isDigit = true)
    (hcs : ∀ c ∈ cs.head?, c.isDigit = false) : (ds ++ cs).span Char.isDigit = (ds, cs) := by
  have hstop : cs.takeWhile Char.isDigit = [] ∧ cs.dropWhile Char.isDigit = cs := by
    cases cs with
    | nil => exact ⟨rfl, rfl⟩
    | cons c cs => simp [hcs c rfl]
  rw [List.span_eq_takeWhile_dropWhile, List.takeWhile_append_of_pos hds,
    List.dropWhile_append_of_pos hds, hstop.1, hstop.2, List.append_nil]

theorem not_isSpace_of_isDigit {c : Char} (h : c.isDigit = true) : isSpace c = false := by
  obtain ⟨hlo, -⟩ := Char.isDigit_iff_toNat.mp h
  have hzero : '0'.toNat = 48 := rfl
  have hblank : c ≠ ' ' := by
    rintro rfl
    exact absurd h (by decide)
  simp only [isSpace, hblank, false_or, decide_eq_false_iff_not]
  omega

theorem readSign_digit {c : Char} (h : c.isDigit = true) (cs : List Char) :
    readSign (c :: cs) = (1, c :: cs) := by
  have hminus : c ≠ '-' := by
    rintro rfl
    exact absurd h (by decide)
  have hplus : c ≠ '+' := by
    rintro rfl
    exact absurd h (by decide)
  rw [readSign]
  · exact fun _ heq => hminus (List.cons.inj heq).1
  · exact fun _ heq => hplus (List.cons.inj heq).1

theorem readSign_text (neg : Bool) {c : Char} (h : c.isDigit = true) (cs : List Char) :
    readSign (((if neg then ['-'] else []) ++ c :: cs).dropWhile isSpace) =
      (if neg then -1 else 1, c :: cs) := by
  cases neg with
  | true => rfl
  | false =>
    have hdrop : (c :: cs).dropWhile isSpace = c :: cs := by
      rw [List.dropWhile_cons, not_isSpace_of_isDigit h, if_neg Bool.false_ne_true]
    rw [if_neg Bool.false_ne_true, if_neg Bool.false_ne_true, List.nil_append, hdrop]
    exact readSign_digit h cs

/-- A numeral: digits, perhaps a point with digits, and what follows. -/
structure Numeral (cs : List Char) (value : ℚ) : Prop where
  parts : ∃ whole rest, cs = whole ++ rest ∧ whole ≠ [] ∧ (∀ c ∈ whole, c.isDigit = true) ∧
    (∀ c ∈ rest.head?, c.isDigit = false) ∧
    value = Nat.ofDigitChars 10 (whole ++ (readFraction rest).1) 0 *
      10 ^ (readExponent (readFraction rest).2 - (readFraction rest).1.length)

theorem Numeral.parseFloat {cs : List Char} {value : ℚ} (h : Numeral cs value) (neg : Bool) :
    parseFloat ((if neg then ['-'] else []) ++ cs) =
      some (Binary64.round ((if neg then -1 else 1) * value)) := by
  obtain ⟨whole, rest, rfl, hne, hwhole, hrest, hvalue⟩ := h.parts
  obtain ⟨c, ds, rfl⟩ := List.exists_cons_of_ne_nil hne
  have hsign := readSign_text neg (hwhole c List.mem_cons_self) (ds ++ rest)
  rw [JsNumber.parseFloat, List.cons_append, hsign]
  dsimp only
  rw [← List.cons_append, span_digits hwhole hrest]
  dsimp only
  rw [if_neg (by simp), hvalue]
  cases neg <;> simp

theorem toDigits_eq_significant (m : Nat) :
    ∃ k, Nat.toDigits 10 m = significant m ++ List.replicate k '0' := by
  have hzeros : (Nat.toDigits 10 m).rtakeWhile (fun c => c = '0') =
      List.replicate ((Nat.toDigits 10 m).rtakeWhile fun c => c = '0').length '0' := by
    rw [List.eq_replicate_iff]
    exact ⟨rfl, fun c hc => by simpa using List.mem_rtakeWhile_imp hc⟩
  refine ⟨((Nat.toDigits 10 m).rtakeWhile fun c => c = '0').length, ?_⟩
  rw [significant, ← hzeros]
  exact (List.rdropWhile_append_rtakeWhile ..).symm

theorem significant_ne_nil {m : Nat} (hm : m ≠ 0) : significant m ≠ [] := by
  intro hnil
  obtain ⟨k, hk⟩ := toDigits_eq_significant m
  apply hm
  rw [← Nat.ofDigitChars_ten_toDigits (n := m), hk, hnil, List.nil_append,
    Nat.ofDigitChars_replicate_zero, Nat.mul_zero]

theorem readFraction_exponent {tail : List Char} (htail : ∀ c ∈ tail, c.isDigit = true)
    (cs : List Char) :
    readFraction ((if tail = [] then [] else '.' :: tail) ++ 'e' :: cs) = (tail, 'e' :: cs) := by
  by_cases hnil : tail = []
  · rw [if_pos hnil, hnil]
    rfl
  · rw [if_neg hnil]
    exact span_digits htail (by simp)

theorem numeral_natText (v : Nat) : Numeral (natText v) (decimal v) where
  parts := by
    rw [natText]
    dsimp only
    by_cases hm : decimal v < 10 ^ 21
    · rw [if_pos hm]
      refine ⟨Nat.toDigits 10 (decimal v), [], (List.append_nil _).symm, Nat.toDigits_ne_nil,
        fun c => isDigit_of_mem, by simp, ?_⟩
      simp [readFraction, readExponent]
    · rw [if_neg hm]
      obtain ⟨k, hk⟩ := toDigits_eq_significant (decimal v)
      obtain ⟨c, tail, hs⟩ := List.exists_cons_of_ne_nil
        (significant_ne_nil (m := decimal v) (by omega))
      have hdigits : ∀ d ∈ c :: tail, d.isDigit = true := by
        intro d hd
        apply isDigit_of_mem (n := decimal v)
        rw [hk, hs]
        exact List.mem_append_left _ hd
      have hlen : (Nat.toDigits 10 (decimal v)).length = tail.length + 1 + k := by
        rw [hk, hs, List.length_append, List.length_cons, List.length_replicate]
      have hvalue : decimal v = 10 ^ k * Nat.ofDigitChars 10 (c :: tail) 0 := by
        conv_lhs => rw [← Nat.ofDigitChars_ten_toDigits (n := decimal v), hk, hs]
        rw [Nat.ofDigitChars_append, Nat.ofDigitChars_replicate_zero]
      rw [hs, hlen]
      refine ⟨[c], _, List.append_assoc .., by simp, by simpa using hdigits c List.mem_cons_self,
        ?_, ?_⟩
      · split_ifs
        · simp
        · simp
      · have htail : ∀ d ∈ tail, d.isDigit = true := fun d hd =>
          hdigits d (List.mem_cons_of_mem c hd)
        have hexp : readExponent ('e' :: '+' :: Nat.toDigits 10 (tail.length + 1 + k - 1)) =
            tail.length + k := by
          have hsign : readSign ('+' :: Nat.toDigits 10 (tail.length + 1 + k - 1)) =
              (1, Nat.toDigits 10 (tail.length + 1 + k - 1)) := rfl
          rw [readExponent, hsign]
          dsimp only
          rw [List.takeWhile_eq_self_iff.mpr fun c => isDigit_of_mem,
            Nat.ofDigitChars_ten_toDigits]
          omega
        rw [List.tail_cons, readFraction_exponent htail, hexp, hvalue, add_sub_cancel_left,
          zpow_natCast]
        push_cast
        exact mul_comm _ _

theorem round_signedDecimal {n : Int} (hn : Binary64.round n = n) :
    Binary64.round (signedDecimal n) = n := by
  have habs : Binary64.round (n.natAbs : ℚ) = n.natAbs := by
    rw [Nat.cast_natAbs, Int.cast_abs]
    rw [Binary64.round_abs, hn]
  have hread := round_decimal habs
  rw [Nat.cast_natAbs] at hread
  rw [signedDecimal]
  split_ifs with hneg
  · push_cast
    rw [neg_one_mul, Binary64.round_neg, hread, abs_of_neg hneg]
    push_cast
    exact neg_neg _
  · push_cast
    rw [one_mul, hread, abs_of_nonneg (not_lt.mp hneg)]

theorem parseFloat_intText {n : Int} (hn : Binary64.round n = n) :
    parseFloat (intText n) = some (n : ℚ) := by
  have hparse := (numeral_natText n.natAbs).parseFloat (decide (n < 0))
  have hread := round_signedDecimal hn
  rw [signedDecimal] at hread
  push_cast at hread
  simp only [decide_eq_true_eq] at hparse
  rw [hread] at hparse
  exact hparse

example : intText (-2 ^ 68) = "-295147905179352830000".toList := by decide +kernel
example : intText (2 ^ 80) = "1.2089258196146292e+24".toList := by decide +kernel

theorem toFloat_stringify {x : ℚ} (hx : Binary64.round x = x) :
    (stringify x).toFloat = some x := by
  rw [stringify]
  by_cases hint : x.den = 1 ∧ |signedDecimal x.num| < 10 ^ 21
  · obtain ⟨hden, hshort⟩ := hint
    have hnum : ((x.num : ℤ) : ℚ) = x := Rat.coe_int_num_of_den_eq_one hden
    have hdouble : Binary64.round x.num = x.num := by rw [hnum, hx]
    have hsmall : |x| < 2 ^ 1024 := by
      have hle : |(signedDecimal x.num : ℚ)| ≤ 2 ^ (70 : ℤ) := by
        have hcast : ((|signedDecimal x.num| : ℤ) : ℚ) ≤ ((2 ^ 70 : ℤ) : ℚ) :=
          Int.cast_le.mpr (by omega)
        exact_mod_cast hcast
      calc |x| = Binary64.round |(signedDecimal x.num : ℚ)| := by
            rw [Binary64.round_abs, round_signedDecimal hdouble, hnum]
        _ ≤ Binary64.round (2 ^ (70 : ℤ)) := Binary64.round_mono hle
        _ = 2 ^ (70 : ℤ) := Binary64.round_zpow (by norm_num)
        _ < 2 ^ (1024 : ℤ) := zpow_lt_zpow_right₀ (by norm_num) (by norm_num)
        _ = 2 ^ 1024 := zpow_natCast 2 1024
    rw [if_pos ⟨hden, hshort⟩, JsonNumber.toFloat, Binary64.ofInt?,
      round_signedDecimal hdouble, hnum, if_pos hsmall]
  · rw [if_neg hint]
    rfl

theorem toInt_stringify {n : Int} (hn : Binary64.round n = n) {k : Nat} (hk : k < 2 ^ 53) :
    (stringify n).toInt = k ↔ n = k := by
  rw [stringify, Rat.num_intCast]
  split_ifs with hint
  · rw [JsonNumber.toInt, ← Binary64.round_intCast_eq_iff hk, ← Binary64.round_intCast_eq_iff hk,
      round_signedDecimal hn, hn]
  · rw [JsonNumber.toInt]
    simp [Binary64.trunc]

/-- The decimal digits of a number, read in base 16. -/
def hexOfDecimal (n : Nat) : Nat := Nat.ofDigits 16 (Nat.digits 10 n)

theorem ofDigitChars_toDigits (n : Nat) :
    Nat.ofDigitChars 16 (Nat.toDigits 10 n) 0 = hexOfDecimal n := by
  induction n using Nat.strong_induction_on with
  | _ n ih =>
    by_cases hn : n < 10
    · rw [Nat.toDigits_of_lt_base hn, Nat.ofDigitChars_cons_digitChar_of_lt_ten hn, hexOfDecimal]
      obtain rfl | hpos := Nat.eq_zero_or_pos n
      · rfl
      · rw [Nat.digits_of_lt 10 n hpos.ne' hn, Nat.ofDigits_singleton]
        simp
    · have hdiv : n / 10 < n := Nat.div_lt_self (by omega) (by decide)
      rw [Nat.toDigits_of_base_le (by decide) (by omega), Nat.ofDigitChars_append, ih _ hdiv,
        Nat.ofDigitChars_cons_digitChar_of_lt_ten (Nat.mod_lt n (by decide)),
        Nat.ofDigitChars_nil, hexOfDecimal, hexOfDecimal,
        Nat.digits_def' (by decide) (Nat.pos_of_ne_zero (by omega)) (n := n), Nat.ofDigits_cons]
      ring

theorem pow_le_hexOfDecimal {n k : Nat} (h : 10 ^ k ≤ n) : 16 ^ k ≤ hexOfDecimal n := by
  have hn : n ≠ 0 := by
    rintro rfl
    exact absurd h (not_le.mpr (by positivity))
  have hne : Nat.digits 10 n ≠ [] := Nat.digits_ne_nil_iff_ne_zero.mpr hn
  have hlen : k < (Nat.digits 10 n).length :=
    (Nat.pow_lt_pow_iff_right (by decide)).mp
      (h.trans_lt (Nat.lt_base_pow_length_digits (by decide)))
  have hle : 16 ^ (Nat.digits 10 n).length ≤ 16 * hexOfDecimal n :=
    Nat.pow_length_le_mul_ofDigits hne (Nat.getLast_digit_ne_zero 10 hn)
  have hpow : 16 ^ (k + 1) ≤ 16 ^ (Nat.digits 10 n).length := Nat.pow_le_pow_right (by decide) hlen
  rw [Nat.pow_succ] at hpow
  omega

theorem hexValue_of_isDigit {c : Char} (h : c.isDigit = true) :
    hexValue c = some (c.toNat - '0'.toNat) := by
  rw [hexValue, if_pos]
  exact Char.isDigit_iff_toNat.mp h

theorem readHexDigits_append {ds : List Char} (hds : ∀ c ∈ ds, c.isDigit = true) (n : Nat)
    (cs : List Char) :
    readHexDigits n (ds ++ cs) = readHexDigits (Nat.ofDigitChars 16 ds n) cs := by
  induction ds generalizing n with
  | nil => rfl
  | cons c ds ih =>
    rw [List.cons_append, readHexDigits, hexValue_of_isDigit (hds c List.mem_cons_self),
      Nat.ofDigitChars_cons]
    exact ih (fun d hd => hds d (List.mem_cons_of_mem c hd)) _

theorem readHexDigits_toDigits (n : Nat) (cs : List Char) (hcs : cs.head?.bind hexValue = none) :
    readHexDigits 0 (Nat.toDigits 10 n ++ cs) = hexOfDecimal n := by
  rw [readHexDigits_append fun c => isDigit_of_mem, ofDigitChars_toDigits]
  cases cs with
  | nil => rfl
  | cons c cs =>
    have hc : hexValue c = none := hcs
    rw [readHexDigits, hc]

/-- The front of the text of an integer, read in base 16: up to a point, or with the `e` of the
exponent. -/
def hexFront (v : Nat) : Nat :=
  if decimal v < 10 ^ 21 then hexOfDecimal (decimal v)
  else
    match significant (decimal v) with
    | [c] => 16 * (c.toNat - '0'.toNat) + 14
    | c :: _ => c.toNat - '0'.toNat
    | [] => 0

theorem readHexDigits_natText (v : Nat) : readHexDigits 0 (natText v) = hexFront v := by
  rw [natText, hexFront]
  dsimp only
  by_cases hm : decimal v < 10 ^ 21
  · rw [if_pos hm, if_pos hm]
    have hread := readHexDigits_toDigits (decimal v) [] rfl
    rwa [List.append_nil] at hread
  · rw [if_neg hm, if_neg hm]
    obtain ⟨c, tail, hs⟩ := List.exists_cons_of_ne_nil
      (significant_ne_nil (m := decimal v) (by omega))
    have hc : c.isDigit = true := by
      obtain ⟨k, hk⟩ := toDigits_eq_significant (decimal v)
      apply isDigit_of_mem (n := decimal v)
      rw [hk, hs]
      exact List.mem_append_left _ List.mem_cons_self
    have hfirst : ∀ cs : List Char, readHexDigits 0 (c :: cs) =
        readHexDigits (c.toNat - '0'.toNat) cs := by
      intro cs
      rw [readHexDigits, hexValue_of_isDigit hc]
      dsimp only
      rw [Nat.mul_zero, Nat.zero_add]
    rw [hs]
    cases tail with
    | nil => exact hfirst _
    | cons d tail => exact hfirst _

/-- What the front of a number from `toFixed` is in base 16. -/
def hexShown (digits : Nat) (x : ℚ) : Nat :=
  if x < 10 ^ 21 then hexOfDecimal (nearest digits x / 10 ^ digits) else hexFront ⌊x⌋.toNat

theorem readHexDigits_fixedText (digits : Nat) (x : ℚ) :
    readHexDigits 0 (fixedText digits x) = hexShown digits x := by
  rw [fixedText, hexShown]
  by_cases hx : x < 10 ^ 21
  · rw [if_pos hx, if_pos hx]
    apply readHexDigits_toDigits
    split_ifs
    · rfl
    · rfl
  · rw [if_neg hx, if_neg hx]
    exact readHexDigits_natText _

theorem fixedText_eq_cons (digits : Nat) (x : ℚ) :
    ∃ c cs, fixedText digits x = c :: cs ∧ c.isDigit = true := by
  have hfront : ∃ whole rest, fixedText digits x = whole ++ rest ∧ whole ≠ [] ∧
      ∀ c ∈ whole, c.isDigit = true := by
    rw [fixedText]
    split_ifs
    · exact ⟨_, _, rfl, Nat.toDigits_ne_nil, fun c => isDigit_of_mem⟩
    · exact ⟨_, _, rfl, Nat.toDigits_ne_nil, fun c => isDigit_of_mem⟩
    · obtain ⟨whole, rest, htext, hne, hwhole, -, -⟩ := (numeral_natText ⌊x⌋.toNat).parts
      exact ⟨whole, rest, htext, hne, hwhole⟩
  obtain ⟨whole, rest, htext, hne, hwhole⟩ := hfront
  obtain ⟨c, ds, rfl⟩ := List.exists_cons_of_ne_nil hne
  exact ⟨c, ds ++ rest, htext, hwhole c List.mem_cons_self⟩

def IsNumeric (c : Char) : Prop := c.isDigit = true ∨ c ∈ ['-', '.', 'e', '+']

theorem isNumeric_natText (v : Nat) : ∀ c ∈ natText v, IsNumeric c := by
  have hdigits : ∀ {n : Nat}, ∀ c ∈ Nat.toDigits 10 n, IsNumeric c := fun c hc =>
    .inl (isDigit_of_mem hc)
  have hsig : ∀ c ∈ significant (decimal v), IsNumeric c := fun c hc =>
    hdigits c ((List.rdropWhile_prefix _ _).mem hc)
  intro c hc
  rw [natText] at hc
  dsimp only at hc
  split_ifs at hc
  · exact hdigits c hc
  · simp only [List.append_nil, List.mem_append, List.mem_cons] at hc
    obtain hc | rfl | rfl | hc := hc
    · exact hsig c (List.mem_of_mem_take hc)
    · exact .inr (by decide)
    · exact .inr (by decide)
    · exact hdigits c hc
  · simp only [List.mem_append, List.mem_cons] at hc
    obtain (hc | rfl | hc) | rfl | rfl | hc := hc
    · exact hsig c (List.mem_of_mem_take hc)
    · exact .inr (by decide)
    · exact hsig c (List.mem_of_mem_tail hc)
    · exact .inr (by decide)
    · exact .inr (by decide)
    · exact hdigits c hc

theorem isNumeric_intText (n : Int) : ∀ c ∈ intText n, IsNumeric c := by
  intro c hc
  obtain hc | hc := List.mem_append.mp hc
  · split_ifs at hc
    · rw [List.mem_singleton.mp hc]
      exact .inr (by decide)
    · cases hc
  · exact isNumeric_natText _ c hc

theorem isNumeric_toFixed (digits : Nat) (x : ℚ) : ∀ c ∈ toFixed digits x, IsNumeric c := by
  have hdigits : ∀ {n : Nat}, ∀ c ∈ Nat.toDigits 10 n, IsNumeric c := fun c hc =>
    .inl (isDigit_of_mem hc)
  intro c hc
  obtain hc | hc := List.mem_append.mp hc
  · split_ifs at hc
    · rw [List.mem_singleton.mp hc]
      exact .inr (by decide)
    · cases hc
  · rw [fixedText] at hc
    split_ifs at hc
    · rw [List.append_nil] at hc
      exact hdigits c hc
    · rw [List.mem_append, List.mem_cons, List.leftpad, List.mem_append] at hc
      obtain hc | rfl | hc | hc := hc
      · exact hdigits c hc
      · exact .inr (by decide)
      · rw [(List.mem_replicate.mp hc).2]
        exact .inl (by decide)
      · exact hdigits c hc
    · exact isNumeric_natText _ c hc

theorem IsNumeric.not_isSpace {c : Char} (h : IsNumeric c) : isSpace c = false := by
  obtain h | h := h
  · exact not_isSpace_of_isDigit h
  · simp only [List.mem_cons, List.not_mem_nil, or_false] at h
    obtain rfl | rfl | rfl | rfl := h
    · decide
    · decide
    · decide
    · decide

theorem trim_numeric {cs : List Char} (h : ∀ c ∈ cs, IsNumeric c) : trim cs = cs := by
  have hspace : ∀ ds : List Char, (∀ c ∈ ds, IsNumeric c) → ds.dropWhile isSpace = ds := by
    intro ds hds
    cases ds with
    | nil => rfl
    | cons c ds =>
      rw [List.dropWhile_cons, (hds c List.mem_cons_self).not_isSpace,
        if_neg Bool.false_ne_true]
  have hback := hspace cs.reverse fun c hc => h c (List.mem_reverse.mp hc)
  rw [trim, hspace cs h, List.rdropWhile, hback, List.reverse_reverse]

theorem dropPrefix_numeric {cs : List Char} (h : ∀ c ∈ cs, IsNumeric c) : dropPrefix cs = cs := by
  have hx : ∀ c ∈ cs, c ≠ 'x' ∧ c ≠ 'X' := by
    intro c hc
    constructor
    · rintro rfl
      exact absurd (h _ hc) (by simp [IsNumeric])
    · rintro rfl
      exact absurd (h _ hc) (by simp [IsNumeric])
  rw [dropPrefix]
  · rintro ds rfl
    exact (hx 'x' (by simp)).1 rfl
  · rintro ds rfl
    exact (hx 'X' (by simp)).2 rfl

def hexRead (digits : Nat) (x : ℚ) : Int := (if x < 0 then -1 else 1) * hexShown digits |x|

theorem parseIntHex_toFixed (digits : Nat) (x : ℚ) :
    parseIntHex (toFixed digits x) = some (Binary64.round (hexRead digits x)) := by
  obtain ⟨c, cs, htext, hc⟩ := fixedText_eq_cons digits |x|
  have hsign := readSign_text (decide (x < 0)) hc cs
  have hnumeric : ∀ d ∈ c :: cs, IsNumeric d := fun d hd =>
    isNumeric_toFixed digits x d (List.mem_append_right _ (htext ▸ hd))
  have hhead : (c :: cs).head?.bind hexValue ≠ none := by
    rw [List.head?_cons, Option.bind_some, hexValue_of_isDigit hc]
    exact Option.some_ne_none _
  simp only [decide_eq_true_eq] at hsign
  rw [parseIntHex, toFixed, htext, hsign]
  dsimp only
  rw [dropPrefix_numeric hnumeric, if_neg hhead, ← htext, readHexDigits_fixedText, hexRead]
  split_ifs
  · push_cast
    rfl
  · push_cast
    rfl

example : toFixed 6 (-3 / 2) = "-1.500000".toList := by decide +kernel

end CanSniffer.Library.JsNumber
