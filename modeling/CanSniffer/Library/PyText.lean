import CanSniffer.Library.Binary64

namespace CanSniffer.Library.PyText

/-- `str` of a value that may be None. -/
def strOption {α : Type} (str : α → String) : Option α → String
  | none => "None"
  | some a => str a

/-- The format `0{width}X` of a natural number. -/
def hexUpper (width n : Nat) : String :=
  String.ofList (((Nat.toDigits 16 n).map Char.toUpper).leftpad width '0')

/-- The format `X` of an integer. -/
def hexInt (n : Int) : String := (if n < 0 then "-" else "") ++ hexUpper 0 n.natAbs

/-- The format `.{digits}f` of a double. -/
def fixed (digits : Nat) (x : ℚ) : String :=
  let scaled := (Binary64.roundEven (|x| * 10 ^ digits)).toNat
  let whole := (scaled / 10 ^ digits).repr
  let frac := String.ofList ((Nat.toDigits 10 (scaled % 10 ^ digits)).leftpad digits '0')
  (if x < 0 then "-" else "") ++ whole ++ if digits = 0 then "" else "." ++ frac

/-- An int, or a float with its `repr`. -/
inductive PyNumber
  | int (n : ℤ)
  | float (value : ℚ) (repr : String)
  deriving DecidableEq, Repr

namespace PyNumber

/-- Numbers of either kind are compared by their exact values. -/
def value : PyNumber → ℚ
  | int n => n
  | float value _ => value

def text : PyNumber → String
  | int n => toString n
  | float _ repr => repr

/-- The double that arithmetic with a float makes of it; `none` is the OverflowError. -/
def toFloat? : PyNumber → Option ℚ
  | int n => Binary64.ofInt? n
  | float value _ => some value

end PyNumber

/-- Code points of the zeros of the decimal digits of Unicode 14, each followed by its other
nine digits. -/
def decimalZeros : List Nat :=
  [0x30, 0x660, 0x6f0, 0x7c0, 0x966, 0x9e6, 0xa66, 0xae6, 0xb66, 0xbe6, 0xc66, 0xce6, 0xd66,
    0xde6, 0xe50, 0xed0, 0xf20, 0x1040, 0x1090, 0x17e0, 0x1810, 0x1946, 0x19d0, 0x1a80, 0x1a90,
    0x1b50, 0x1bb0, 0x1c40, 0x1c50, 0xa620, 0xa8d0, 0xa900, 0xa9d0, 0xa9f0, 0xaa50, 0xabf0,
    0xff10, 0x104a0, 0x10d30, 0x11066, 0x110f0, 0x11136, 0x111d0, 0x112f0, 0x11450, 0x114d0,
    0x11650, 0x116c0, 0x11730, 0x118e0, 0x11950, 0x11c50, 0x11d50, 0x11da0, 0x16a60, 0x16ac0,
    0x16b50, 0x1d7ce, 0x1d7d8, 0x1d7e2, 0x1d7ec, 0x1d7f6, 0x1e140, 0x1e2f0, 0x1e950, 0x1fbf0]

def wideSpaces : List Nat :=
  [0x85, 0xa0, 0x1680, 0x2000, 0x2001, 0x2002, 0x2003, 0x2004, 0x2005, 0x2006, 0x2007, 0x2008,
    0x2009, 0x200a, 0x2028, 0x2029, 0x202f, 0x205f, 0x3000]

/-- Digits and spaces of other scripts, put into ASCII before a number is read. -/
def toAscii (c : Char) : Char :=
  if c.toNat < 127 then c
  else if c.toNat ∈ wideSpaces then ' '
  else
    match decimalZeros.find? fun z => z ≤ c.toNat ∧ c.toNat < z + 10 with
    | some z => Nat.digitChar (c.toNat - z)
    | none => '?'

def isSpace (c : Char) : Bool := c = ' ' ∨ (9 ≤ c.toNat ∧ c.toNat ≤ 13)

def hexValue (c : Char) : Option Nat :=
  if '0' ≤ c ∧ c ≤ '9' then some (c.toNat - '0'.toNat)
  else if 'a' ≤ c ∧ c ≤ 'f' then some (c.toNat - 'a'.toNat + 10)
  else if 'A' ≤ c ∧ c ≤ 'F' then some (c.toNat - 'A'.toNat + 10)
  else none

/-- Read hexadecimal digits, with single underscores between them, and give back the rest.
The flag says whether a digit was read just before. -/
def readHex : Nat → Bool → List Char → Option (Nat × List Char)
  | acc, digit, [] => if digit then some (acc, []) else none
  | acc, digit, c :: cs =>
    match hexValue c with
    | some d => readHex (16 * acc + d) true cs
    | none =>
      if digit then
        if c = '_' then readHex acc false cs else some (acc, c :: cs)
      else none

def dropHexPrefix : List Char → List Char
  | '0' :: 'x' :: '_' :: cs | '0' :: 'X' :: '_' :: cs => cs
  | '0' :: 'x' :: cs | '0' :: 'X' :: cs => cs
  | cs => cs

def readSign : List Char → Int × List Char
  | '-' :: cs => (-1, cs)
  | '+' :: cs => (1, cs)
  | cs => (1, cs)

/-- `int(s, 16)`; `none` is its ValueError. -/
def intBase16 (s : String) : Option Int :=
  let (sign, cs) := readSign ((s.toList.map toAscii).dropWhile isSpace)
  match readHex 0 false (dropHexPrefix cs) with
  | some (n, rest) => if rest.all isSpace then some (sign * n) else none
  | none => none

theorem append_sep_inj {α : Type} {sep : α} {xs ys zs ws : List α} (hxs : sep ∉ xs)
    (hys : sep ∉ ys) (h : xs ++ sep :: zs = ys ++ sep :: ws) : xs = ys ∧ zs = ws := by
  induction xs generalizing ys with
  | nil =>
    cases ys with
    | nil => exact ⟨rfl, (List.cons.inj h).2⟩
    | cons y ys => exact absurd (List.cons.inj h).1 (List.ne_of_not_mem_cons hys)
  | cons x xs ih =>
    cases ys with
    | nil => exact absurd (List.cons.inj h).1.symm (List.ne_of_not_mem_cons hxs)
    | cons y ys =>
      obtain ⟨rfl, htail⟩ := List.cons.inj h
      obtain ⟨rfl, hrest⟩ := ih (List.not_mem_of_not_mem_cons hxs)
        (List.not_mem_of_not_mem_cons hys) htail
      exact ⟨rfl, hrest⟩

theorem toDigits_ten_injective : Function.Injective (Nat.toDigits 10) := by
  intro m n h
  have hof := congrArg (fun ds => Nat.ofDigitChars 10 ds 0) h
  simpa using hof

theorem isDigit_of_mem_repr {n : Nat} {c : Char} (h : c ∈ n.repr.toList) : c.isDigit = true := by
  rw [Nat.toList_repr] at h
  exact Nat.isDigit_of_mem_toDigits (by decide) (by decide) h

theorem natRepr_injective : Function.Injective Nat.repr := by
  intro m n h
  have hl := congrArg String.toList h
  rw [Nat.toList_repr, Nat.toList_repr] at hl
  exact toDigits_ten_injective hl

theorem toList_intText (n : Int) :
    (toString n).toList = if n < 0 then '-' :: n.natAbs.repr.toList else n.natAbs.repr.toList := by
  cases n with
  | ofNat m => rfl
  | negSucc m =>
    rw [if_pos (Int.negSucc_lt_zero m)]
    simp [Int.toString_eq_repr, Int.repr]

theorem mem_intText {n : Int} {c : Char} (h : c ∈ (toString n).toList) :
    c = '-' ∨ c.isDigit = true := by
  rw [toList_intText] at h
  split_ifs at h
  · obtain rfl | h := List.mem_cons.mp h
    · exact Or.inl rfl
    · exact Or.inr (isDigit_of_mem_repr h)
  · exact Or.inr (isDigit_of_mem_repr h)

theorem minus_notMem_repr (n : Nat) : '-' ∉ n.repr.toList := by
  intro h
  exact absurd (isDigit_of_mem_repr h) (by decide)

theorem intText_injective : Function.Injective (toString : Int → String) := by
  intro m n h
  have hl := congrArg String.toList h
  rw [toList_intText, toList_intText] at hl
  have habs : ∀ {a b : Nat}, a.repr.toList = b.repr.toList → a = b := fun hab =>
    natRepr_injective (String.toList_inj.mp hab)
  split_ifs at hl with hm hn hn
  · have := habs (List.cons_inj_right _ |>.mp hl)
    omega
  · exact absurd (hl ▸ List.mem_cons_self) (minus_notMem_repr _)
  · exact absurd (hl ▸ List.mem_cons_self) (minus_notMem_repr _)
  · have := habs hl
    omega

theorem intText_ne_none (n : Option Int) : n.map toString ≠ some "None" := by
  intro h
  obtain ⟨k, -, hk⟩ := Option.map_eq_some_iff.mp h
  have hN : 'N' ∈ (toString k).toList := by rw [hk]; decide
  obtain h | h := mem_intText hN
  · exact absurd h (by decide)
  · exact absurd h (by decide)

theorem strOption_injective {α : Type} {str : α → String} (hstr : Function.Injective str)
    {a b : Option α} (ha : a.map str ≠ some "None") (hb : b.map str ≠ some "None")
    (h : strOption str a = strOption str b) : a = b := by
  cases a with
  | none =>
    cases b with
    | none => rfl
    | some b => exact absurd (congrArg some h.symm) hb
  | some a =>
    cases b with
    | none => exact absurd (congrArg some h) ha
    | some b => rw [hstr h]

theorem hexValue_digit {d : Nat} (hd : d < 16) :
    hexValue (Nat.digitChar d).toUpper = some d := by
  interval_cases d <;> decide

theorem readHex_toDigits (n : Nat) (digit : Bool) (cs : List Char) :
    readHex 0 digit ((Nat.toDigits 16 n).map Char.toUpper ++ cs) = readHex n true cs := by
  induction n using Nat.strong_induction_on generalizing digit cs with
  | _ n ih =>
    by_cases hn : n < 16
    · rw [Nat.toDigits_of_lt_base hn, List.map_singleton, List.singleton_append, readHex,
        hexValue_digit hn]
      simp
    · have hdiv : n / 16 < n := Nat.div_lt_self (by omega) (by decide)
      rw [Nat.toDigits_of_base_le (by decide) (by omega), List.map_append, List.append_assoc,
        ih _ hdiv, List.map_singleton, List.singleton_append, readHex,
        hexValue_digit (Nat.mod_lt n (by decide))]
      dsimp only
      rw [Nat.div_add_mod]

theorem readHex_zeros (k : Nat) (digit : Bool) (cs : List Char) :
    ∃ digit', readHex 0 digit (List.replicate k '0' ++ cs) = readHex 0 digit' cs := by
  induction k generalizing digit with
  | zero => exact ⟨digit, rfl⟩
  | succ k ih =>
    obtain ⟨digit', h⟩ := ih true
    exact ⟨digit', h⟩

theorem toList_hexUpper (width n : Nat) :
    (hexUpper width n).toList =
      List.replicate (width - (Nat.toDigits 16 n).length) '0' ++
        (Nat.toDigits 16 n).map Char.toUpper := by
  simp [hexUpper, List.leftpad]

theorem readHex_hexUpper (width n : Nat) :
    readHex 0 false (hexUpper width n).toList = some (n, []) := by
  rw [toList_hexUpper]
  obtain ⟨digit, h⟩ := readHex_zeros (width - (Nat.toDigits 16 n).length) false
    ((Nat.toDigits 16 n).map Char.toUpper)
  have hread := readHex_toDigits n digit []
  rw [List.append_nil] at hread
  rw [h, hread]
  rfl

theorem mem_toDigits {n : Nat} {c : Char} (h : c ∈ Nat.toDigits 16 n) :
    ∃ d < 16, c = Nat.digitChar d := by
  induction n using Nat.strong_induction_on with
  | _ n ih =>
    by_cases hn : n < 16
    · rw [Nat.toDigits_of_lt_base hn] at h
      exact ⟨n, hn, List.mem_singleton.mp h⟩
    · rw [Nat.toDigits_of_base_le (by decide) (by omega)] at h
      obtain h | h := List.mem_append.mp h
      · exact ih _ (Nat.div_lt_self (by omega) (by decide)) h
      · exact ⟨n % 16, Nat.mod_lt n (by decide), List.mem_singleton.mp h⟩

theorem mem_hexUpper {width n : Nat} {c : Char} (h : c ∈ (hexUpper width n).toList) :
    toAscii c = c ∧ c ≠ '_' := by
  rw [toList_hexUpper] at h
  obtain h | h := List.mem_append.mp h
  · rw [(List.mem_replicate.mp h).2]
    decide
  · obtain ⟨c, hc, rfl⟩ := List.mem_map.mp h
    obtain ⟨d, hd, rfl⟩ := mem_toDigits hc
    interval_cases d <;> decide

theorem mem_hexInt {n : Int} {c : Char} (h : c ∈ (hexInt n).toList) :
    c ∈ "-0123456789ABCDEF".toList := by
  rw [hexInt, String.toList_append, toList_hexUpper] at h
  obtain h | h := List.mem_append.mp h
  · split_ifs at h
    · rw [List.mem_singleton.mp h]
      decide
    · cases h
  · obtain h | h := List.mem_append.mp h
    · rw [(List.mem_replicate.mp h).2]
      decide
    · obtain ⟨c, hc, rfl⟩ := List.mem_map.mp h
      obtain ⟨d, hd, rfl⟩ := mem_toDigits hc
      interval_cases d <;> decide

theorem mem_fixed {digits : Nat} {x : ℚ} {c : Char} (h : c ∈ (fixed digits x).toList) :
    c = '-' ∨ c = '.' ∨ c.isDigit = true := by
  have hdigit {n : Nat} (hmem : c ∈ Nat.toDigits 10 n) : c.isDigit = true :=
    Nat.isDigit_of_mem_toDigits (by decide) (by decide) hmem
  simp only [fixed, String.toList_append, List.mem_append] at h
  obtain (h | h) | h := h
  · split_ifs at h
    · exact .inl (List.mem_singleton.mp h)
    · cases h
  · rw [Nat.toList_repr] at h
    exact .inr (.inr (hdigit h))
  · split_ifs at h
    · cases h
    · rw [String.toList_append, List.mem_append] at h
      obtain h | h := h
      · exact .inr (.inl (List.mem_singleton.mp h))
      · rw [String.toList_ofList, List.leftpad, List.mem_append] at h
        obtain h | h := h
        · rw [(List.mem_replicate.mp h).2]
          decide
        · exact .inr (.inr (hdigit h))

theorem dropHexPrefix_of_notMem {cs : List Char} (h : '_' ∉ cs) :
    dropHexPrefix ('0' :: 'x' :: cs) = cs := by
  cases cs with
  | nil => rfl
  | cons c cs =>
    have hne : c ≠ '_' := fun he => h (he ▸ List.mem_cons_self)
    simp [dropHexPrefix, hne]

theorem intBase16_hexUpper (width n : Nat) :
    intBase16 ("0x" ++ hexUpper width n) = some (n : Int) := by
  have hascii : (hexUpper width n).toList.map toAscii = (hexUpper width n).toList := by
    conv_rhs => rw [← List.map_id (hexUpper width n).toList]
    exact List.map_congr_left fun c hc => (mem_hexUpper hc).1
  have hlist : (("0x" ++ hexUpper width n).toList.map toAscii).dropWhile isSpace =
      '0' :: 'x' :: (hexUpper width n).toList := by
    rw [String.toList_append, List.map_append, hascii]
    rfl
  have hdrop : dropHexPrefix ('0' :: 'x' :: (hexUpper width n).toList) =
      (hexUpper width n).toList := dropHexPrefix_of_notMem fun h => (mem_hexUpper h).2 rfl
  have hsign : readSign ('0' :: 'x' :: (hexUpper width n).toList) =
      (1, '0' :: 'x' :: (hexUpper width n).toList) := rfl
  rw [intBase16, hlist]
  simp only [hsign, hdrop, readHex_hexUpper]
  simp

example : intBase16 " -0x1_f\n" = some (-31) := by decide

end CanSniffer.Library.PyText
