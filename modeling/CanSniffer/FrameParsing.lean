import CanSniffer.SocketCanReader
import Mathlib.Data.Nat.Bitwise

namespace CanSniffer.FrameParsing

open Library Library.PyStruct Models SocketCanReader

inductive FrameKind
  | standard | extended | error
  deriving DecidableEq, Repr

def FrameKind.flag : FrameKind → Nat
  | .standard => 0
  | .extended => canEffFlag
  | .error => canErrFlag

def FrameKind.bound : FrameKind → Nat
  | .standard => 2 ^ 11
  | .extended | .error => 2 ^ 29

/-- The `struct can_frame` of the kernel. -/
def encode (order : ByteOrder) (kind : FrameKind) (id : Nat) (payload pad unused : List UInt8) :
    List UInt8 :=
  packUnsigned order 4 (id ||| kind.flag) ++
    (UInt8.ofNat payload.length :: (pad ++ (payload ++ unused)))

/-- The `struct timeval` with members of so many bytes. -/
def encodeTimeval (order : ByteOrder) (width : Nat) (sec usec : Int) : List UInt8 :=
  packSigned order width sec ++ packSigned order width usec

def Fits (width : Nat) (n : Int) : Prop := -(256 ^ width : Int) ≤ 2 * n ∧ 2 * n < (256 ^ width : Int)

variable {order : ByteOrder} {kind : FrameKind} {id : Nat} {payload pad unused data : List UInt8}
  {ancdata : List ControlMessage} {now : ℚ} {sec usec : Int} {width : Nat}

theorem flag_bit (x k : Nat) : x &&& 2 ^ k ≠ 0 ↔ x.testBit k = true := by
  rw [Nat.and_two_pow]
  cases x.testBit k <;> simp

theorem bound_le (kind : FrameKind) : kind.bound ≤ 2 ^ 29 := by
  cases kind <;> decide

theorem flag_lt (kind : FrameKind) : kind.flag < 2 ^ 32 := by
  cases kind <;> decide

theorem testBit_or_flag (hid : id < kind.bound) {k : Nat} (hk : 29 ≤ k) :
    (id ||| kind.flag).testBit k = kind.flag.testBit k := by
  have hlt : id < 2 ^ k :=
    (hid.trans_le (bound_le kind)).trans_le (Nat.pow_le_pow_right (by norm_num) hk)
  rw [Nat.testBit_or, Nat.testBit_lt_two_pow hlt, Bool.false_or]

theorem isErr_iff (hid : id < kind.bound) :
    (id ||| kind.flag) &&& canErrFlag ≠ 0 ↔ kind = .error := by
  refine (flag_bit _ 29).trans ?_
  rw [testBit_or_flag hid le_rfl]
  cases kind <;> decide

theorem isExt_iff (hid : id < kind.bound) :
    (id ||| kind.flag) &&& canEffFlag ≠ 0 ↔ kind = .extended := by
  refine (flag_bit _ 31).trans ?_
  rw [testBit_or_flag hid (by norm_num)]
  cases kind <;> decide

theorem and_effMask (x : Nat) : x &&& canEffMask = x % 2 ^ 29 := Nat.and_two_pow_sub_one_eq_mod x 29

theorem and_sffMask (x : Nat) : x &&& canSffMask = x % 2 ^ 11 := Nat.and_two_pow_sub_one_eq_mod x 11

theorem or_flag_mod (hid : id < 2 ^ 29) (kind : FrameKind) :
    (id ||| kind.flag) % 2 ^ 29 = id := by
  have hflag : kind.flag % 2 ^ 29 = 0 := by cases kind <;> decide
  rw [Nat.or_mod_two_pow, hflag, Nat.or_zero, Nat.mod_eq_of_lt hid]

theorem unpack_encode (hid : id < kind.bound) (hlen : payload.length ≤ 8) (hpad : pad.length = 3)
    (hunused : payload.length + unused.length = 8) :
    unpackCanFrame order (encode order kind id payload pad unused) =
      some (id ||| kind.flag, payload.length, payload ++ unused) := by
  have hword : id ||| kind.flag < 256 ^ 4 :=
    Nat.or_lt_two_pow ((hid.trans_le (bound_le kind)).trans (by norm_num)) (flag_lt kind)
  have hbyte : (UInt8.ofNat payload.length).toNat = payload.length := by
    rw [UInt8.toNat_ofNat', Nat.mod_eq_of_lt (by omega)]
  have htotal : (encode order kind id payload pad unused).length = canFrameSize := by
    simp only [encode, List.length_append, length_packUnsigned, List.length_cons, canFrameSize]
    omega
  have htake : (encode order kind id payload pad unused).take 4 =
      packUnsigned order 4 (id ||| kind.flag) := List.take_left' (length_packUnsigned order 4 _)
  have hget : (encode order kind id payload pad unused).getD 4 0 = UInt8.ofNat payload.length := by
    rw [encode, List.getD_eq_getElem?_getD, List.getElem?_append_right (by simp)]
    simp
  have hdrop : (encode order kind id payload pad unused).drop 8 = payload ++ unused := by
    rw [encode, ← List.cons_append, ← List.append_assoc]
    exact List.drop_left' (by simp [hpad])
  rw [unpackCanFrame, if_pos htotal, htake, hget, hdrop, hbyte, unsigned_packUnsigned hword]

theorem timeval_isSome (order : ByteOrder) {cdata : List UInt8} (h : 8 ≤ cdata.length) :
    (timeval order cdata).isSome := by
  rw [timeval]
  split_ifs with hlong
  · rw [unpackPair, if_pos (by simpa using hlong)]
    rfl
  · rw [unpackPair, if_pos (by simpa using h)]
    rfl

theorem timestamp_isSome (order : ByteOrder)
    (h : ∀ c ∈ ancdata, isTimestamp c → 8 ≤ c.data.length) :
    ∃ ts, timestamp order ancdata = some ts := by
  rw [timestamp]
  cases hfind : ancdata.find? isTimestamp with
  | none => exact ⟨0, rfl⟩
  | some c =>
    have hlen := h c (List.mem_of_find?_eq_some hfind) (List.find?_some hfind)
    obtain ⟨tv, htv⟩ := Option.isSome_iff_exists.mp (timeval_isSome order hlen)
    exact ⟨seconds tv.1 tv.2, by simp [htv]⟩

theorem timeval_encode (hwidth : width = 4 ∨ width = 8) (hsec : Fits width sec)
    (husec : Fits width usec) :
    timeval order (encodeTimeval order width sec usec) = some (sec, usec) := by
  have hlen : (encodeTimeval order width sec usec).length = 2 * width := by
    simp [encodeTimeval, two_mul]
  have hpair : unpackPair order width (encodeTimeval order width sec usec) = some (sec, usec) := by
    rw [unpackPair, if_pos hlen, encodeTimeval, List.take_left' (by simp),
      List.drop_left' (by simp), signed_packSigned hsec.1 hsec.2, signed_packSigned husec.1 husec.2]
  have htake : (encodeTimeval order width sec usec).take (2 * width) =
      encodeTimeval order width sec usec := List.take_of_length_le hlen.le
  obtain rfl | rfl := hwidth
  · rw [timeval, if_neg (by omega)]
    exact (congrArg (unpackPair order 4) htake).trans hpair
  · rw [timeval, if_pos (by omega)]
    exact (congrArg (unpackPair order 8) htake).trans hpair

theorem find?_append_cons {p : ControlMessage → Bool} {before after : List ControlMessage}
    {c : ControlMessage} (hbefore : ∀ b ∈ before, ¬ p b) (hc : p c) :
    (before ++ c :: after).find? p = some c := by
  rw [List.find?_append, List.find?_eq_none.mpr hbefore, Option.none_or,
    List.find?_cons_of_pos hc]

theorem round_small : Binary64.round (2 ^ (-20 : ℤ)) = 2 ^ (-20 : ℤ) :=
  Binary64.round_zpow (by norm_num)

theorem fraction_bounds (hlo : 0 ≤ usec) (hhi : usec < 1000000) :
    0 ≤ Binary64.round ((usec : ℚ) / 1000000) ∧
      Binary64.round ((usec : ℚ) / 1000000) ≤ 1 - 2 ^ (-20 : ℤ) := by
  have hcast : (0 : ℚ) ≤ usec := by exact_mod_cast hlo
  have hcast' : (usec : ℚ) ≤ 999999 := by exact_mod_cast (by omega : usec ≤ 999999)
  constructor
  · exact Binary64.round_zero.symm.trans_le (Binary64.round_mono (by positivity))
  · have hle : (usec : ℚ) / 1000000 ≤ 1 - 2 ^ (-20 : ℤ) := by
      norm_num
      linarith
    refine (Binary64.round_mono hle).trans_eq ?_
    exact Binary64.round_of_grid (k := 2 ^ 20 - 1) (e := -20) (by norm_num) (by norm_num)
      (by norm_num) (by norm_num)

theorem seconds_ne_zero (hlo : 0 ≤ usec) (hhi : usec < 1000000) (hne : ¬ (sec = 0 ∧ usec = 0)) :
    seconds sec usec ≠ 0 := by
  obtain ⟨hr0, hr1⟩ := fraction_bounds hlo hhi
  have hunit : (0 : ℚ) < 2 ^ (-20 : ℤ) := by positivity
  rw [seconds, Binary64.add, Binary64.div]
  obtain hneg | hsec := lt_or_ge sec 0
  · have hsec : Binary64.round (sec : ℚ) ≤ -1 := by
      have hcast : (sec : ℚ) ≤ -1 := by exact_mod_cast (by omega : sec ≤ -1)
      refine (Binary64.round_mono hcast).trans_eq ?_
      rw [Binary64.round_neg, Binary64.round_one]
    have hsum := Binary64.round_mono (show Binary64.round (sec : ℚ) +
      Binary64.round ((usec : ℚ) / 1000000) ≤ -2 ^ (-20 : ℤ) by linarith)
    rw [Binary64.round_neg, round_small] at hsum
    linarith
  · have hsum : 2 ^ (-20 : ℤ) ≤
        Binary64.round (sec : ℚ) + Binary64.round ((usec : ℚ) / 1000000) := by
      obtain rfl | hpos := hsec.eq_or_lt
      · have husec : (1 : ℚ) ≤ usec := by exact_mod_cast (by omega : 1 ≤ usec)
        have hle : 2 ^ (-20 : ℤ) ≤ (usec : ℚ) / 1000000 := by
          norm_num
          linarith
        simpa using round_small.symm.trans_le (Binary64.round_mono hle)
      · have hle : (1 : ℚ) ≤ Binary64.round (sec : ℚ) :=
          Binary64.round_one.symm.trans_le (Binary64.round_mono (by exact_mod_cast hpos))
        have hsmall : (2 : ℚ) ^ (-20 : ℤ) ≤ 1 := by norm_num
        linarith
    have hround := round_small.symm.trans_le (Binary64.round_mono hsum)
    linarith

/-- For four billion seconds the microsecond nearest to the timestamp is the one that was sent. -/
theorem seconds_error (hsec : 0 ≤ sec) (hsmall : sec < 2 ^ 32) (hlo : 0 ≤ usec)
    (hhi : usec < 1000000) : |seconds sec usec - (sec + usec / 1000000)| < 1 / 2000000 := by
  obtain ⟨hr0, hr1⟩ := fraction_bounds hlo hhi
  have hcast : (0 : ℚ) ≤ sec := by exact_mod_cast hsec
  have hcast' : (sec : ℚ) ≤ 2 ^ 32 - 1 := by exact_mod_cast (by omega : sec ≤ 2 ^ 32 - 1)
  have hround : Binary64.round (sec : ℚ) = sec := by
    obtain ⟨n, rfl⟩ := Int.eq_ofNat_of_zero_le hsec
    exact Binary64.round_natCast (by omega)
  have hfrac := Binary64.round_error (k := 0) (x := (usec : ℚ) / 1000000)
    (by have : (0 : ℚ) ≤ usec := by exact_mod_cast hlo
        positivity)
    (by rw [zpow_zero, div_lt_one (by norm_num)]
        exact_mod_cast hhi) (by norm_num)
  have hunit : (0 : ℚ) < 2 ^ (-20 : ℤ) := by positivity
  have hsum := Binary64.round_error (k := 32) (x := sec + Binary64.round ((usec : ℚ) / 1000000))
    (by linarith) (by norm_num at hr1 ⊢; linarith) (by norm_num)
  rw [seconds, Binary64.add, Binary64.div, hround]
  rw [abs_le] at hfrac hsum
  rw [abs_lt]
  norm_num at hfrac hsum ⊢
  constructor <;> linarith

theorem parse_eq {canId dlc : Nat} {body : List UInt8} {ts : ℚ}
    (hunpack : unpackCanFrame order data = some (canId, dlc, body))
    (hts : timestamp order ancdata = some ts) :
    parse order data ancdata now = some {
      timestamp := if ts = 0 then now else ts
      arbitrationId :=
        if canId &&& canErrFlag ≠ 0 ∨ canId &&& canEffFlag ≠ 0 then canId % 2 ^ 29
        else canId % 2 ^ 11
      dlc := min dlc 8
      data := body.take (min dlc 8)
      isExtendedId := canId &&& canEffFlag ≠ 0
      isErrorFrame := canId &&& canErrFlag ≠ 0 } := by
  have hmin : (if dlc ≤ 8 then dlc else 8) = min dlc 8 := by
    rw [Nat.min_def]
  have harb : (if canId &&& canErrFlag ≠ 0 then canId &&& canErrMask
      else if canId &&& canEffFlag ≠ 0 then canId &&& canEffMask else canId &&& canSffMask) =
      if canId &&& canErrFlag ≠ 0 ∨ canId &&& canEffFlag ≠ 0 then canId % 2 ^ 29
      else canId % 2 ^ 11 := by
    rw [← and_effMask, ← and_sffMask]
    by_cases herr : canId &&& canErrFlag ≠ 0
    · rw [if_pos herr, if_pos (Or.inl herr)]
      rfl
    · simp only [herr, false_or, if_false]
  rw [parse, hunpack, hts]
  simp only [Option.bind_eq_bind, Option.bind_some]
  rw [harb, hmin]

theorem parse_encode {ts : ℚ} (hid : id < kind.bound) (hlen : payload.length ≤ 8)
    (hpad : pad.length = 3) (hunused : payload.length + unused.length = 8)
    (hts : timestamp order ancdata = some ts) :
    parse order (encode order kind id payload pad unused) ancdata now = some {
      timestamp := if ts = 0 then now else ts
      arbitrationId := id
      dlc := payload.length
      data := payload
      isExtendedId := kind = .extended
      isErrorFrame := kind = .error } := by
  have harb : (if (id ||| kind.flag) &&& canErrFlag ≠ 0 ∨ (id ||| kind.flag) &&& canEffFlag ≠ 0
      then (id ||| kind.flag) % 2 ^ 29 else (id ||| kind.flag) % 2 ^ 11) = id := by
    simp only [isErr_iff hid, isExt_iff hid, or_flag_mod (hid.trans_le (bound_le kind))]
    cases kind with
    | standard =>
      rw [if_neg (by simp), FrameKind.flag, Nat.or_zero]
      exact Nat.mod_eq_of_lt hid
    | extended => rfl
    | error => rfl
  rw [parse_eq (unpack_encode hid hlen hpad hunused) hts, harb, Nat.min_eq_left hlen,
    List.take_left]
  simp only [isErr_iff hid, isExt_iff hid]

/-- Whatever the bytes are, the message keeps within the bounds of a frame. -/
theorem parse_bounds (now : ℚ) {ts : ℚ} (hdata : data.length = 16)
    (hts : timestamp order ancdata = some ts) :
    ∃ msg, parse order data ancdata now = some msg ∧ msg.timestamp = (if ts = 0 then now else ts) ∧
      msg.dlc ≤ 8 ∧ msg.data.length = msg.dlc ∧ msg.arbitrationId < 2 ^ 29 ∧
      (msg.isExtendedId = false → msg.isErrorFrame = false → msg.arbitrationId < 2 ^ 11) := by
  have hunpack : unpackCanFrame order data = some (unsigned order (data.take 4),
      (data.getD 4 0).toNat, data.drop 8) := if_pos hdata
  refine ⟨_, parse_eq hunpack hts, rfl, min_le_right _ _, ?_, ?_, ?_⟩
  · dsimp only
    rw [List.length_take, List.length_drop, hdata]
    omega
  · dsimp only
    split_ifs <;> omega
  · intro hext herr
    dsimp only at hext herr ⊢
    rw [if_neg (not_or.mpr ⟨of_decide_eq_false herr, of_decide_eq_false hext⟩)]
    exact Nat.mod_lt _ (by norm_num)

theorem timestamp_encode {before after : List ControlMessage} {c : ControlMessage}
    (hbefore : ∀ b ∈ before, ¬ isTimestamp b) (hc : isTimestamp c)
    (hwidth : width = 4 ∨ width = 8) (hsec : Fits width sec) (husec : Fits width usec)
    (hdata : c.data = encodeTimeval order width sec usec) :
    timestamp order (before ++ c :: after) = some (seconds sec usec) := by
  rw [timestamp, find?_append_cons hbefore hc]
  dsimp only
  rw [hdata, timeval_encode hwidth hsec husec, Option.map_some]

/-- Frames come back as they were encoded, any bytes give a message within the bounds, and a
timestamp is found among other control messages, unless its sum is taken for a missing one. -/
theorem parse_inverts (order : ByteOrder) (ancdata : List ControlMessage) (now : ℚ) :
    ((∀ c ∈ ancdata, isTimestamp c → 8 ≤ c.data.length) →
      (∀ kind id payload pad unused, id < FrameKind.bound kind → payload.length ≤ 8 →
        pad.length = 3 → payload.length + unused.length = 8 →
          ∃ ts, parse order (encode order kind id payload pad unused) ancdata now =
            some ⟨ts, id, payload.length, payload, kind = .extended, kind = .error⟩) ∧
      (∀ data : List UInt8, data.length = 16 →
        ∃ msg, parse order data ancdata now = some msg ∧ msg.dlc ≤ 8 ∧
          msg.data.length = msg.dlc ∧ msg.arbitrationId < 2 ^ 29 ∧
          (msg.isExtendedId = false → msg.isErrorFrame = false →
            msg.arbitrationId < 2 ^ 11))) ∧
    (∀ before c after width sec usec, ancdata = before ++ c :: after →
      (∀ b ∈ before, ¬ isTimestamp b) → isTimestamp c → (width = 4 ∨ width = 8) →
      Fits width sec → Fits width usec → c.data = encodeTimeval order width sec usec →
        ∀ data : List UInt8, data.length = 16 →
          ∃ msg, parse order data ancdata now = some msg ∧
            msg.timestamp = if seconds sec usec = 0 then now else seconds sec usec) ∧
    (∀ sec usec : Int, 0 ≤ usec → usec < 1000000 → ¬ (sec = 0 ∧ usec = 0) →
      seconds sec usec ≠ 0) ∧
    ∀ sec usec : Int, 0 ≤ sec → sec < 2 ^ 32 → 0 ≤ usec → usec < 1000000 →
      |seconds sec usec - (sec + usec / 1000000)| < 1 / 2000000 := by
  refine ⟨fun hanc => ⟨?_, ?_⟩, ?_, ?_, ?_⟩
  · intro kind id payload pad unused hid hlen hpad hunused
    obtain ⟨ts, hts⟩ := timestamp_isSome order hanc
    exact ⟨_, parse_encode hid hlen hpad hunused hts⟩
  · intro data hdata
    obtain ⟨ts, hts⟩ := timestamp_isSome order hanc
    obtain ⟨msg, hmsg, -, hbounds⟩ := parse_bounds now hdata hts
    exact ⟨msg, hmsg, hbounds⟩
  · rintro before c after width sec usec rfl hbefore hc hwidth hsec husec hcdata data hdata
    have hts : timestamp order (before ++ c :: after) = some (seconds sec usec) :=
      timestamp_encode hbefore hc hwidth hsec husec hcdata
    obtain ⟨msg, hmsg, hstamp, -⟩ := parse_bounds now hdata hts
    exact ⟨msg, hmsg, hstamp⟩
  · exact fun _ _ hlo hhi hne => seconds_ne_zero hlo hhi hne
  · exact fun _ _ hsec hsmall hlo hhi => seconds_error hsec hsmall hlo hhi

def stamped : List ControlMessage :=
  [⟨solSocket, soTimestamp, encodeTimeval .little 4 1700000000 250000⟩]

def extendedFrame : List UInt8 :=
  encode .little .extended 0x18FF00F1 [1, 2] [0, 0, 0] [7, 7, 7, 7, 7, 7]

theorem parse_inverts_stamped :
    (∃ ts, parse .little extendedFrame stamped 0 = some ⟨ts, 0x18FF00F1, 2, [1, 2], true, false⟩) ∧
      ∃ msg, parse .little extendedFrame stamped 0 = some msg ∧
        msg.timestamp = 1700000000 + 1 / 4 := by
  have h := parse_inverts .little stamped 0
  constructor
  · exact (h.1 (by decide)).1 .extended 0x18FF00F1 [1, 2] [0, 0, 0] [7, 7, 7, 7, 7, 7] (by decide)
      (by decide) rfl rfl
  · obtain ⟨msg, hmsg, hts⟩ := h.2.1 [] _ [] 4 1700000000 250000 rfl (List.forall_mem_nil _)
      (by decide) (by decide) ⟨by decide, by decide⟩ ⟨by decide, by decide⟩ rfl extendedFrame
      (by decide +kernel)
    refine ⟨msg, hmsg, hts.trans ?_⟩
    decide +kernel

/-- A second before the epoch and a million microseconds add up to the epoch, for which the clock
is read instead. -/
theorem cancelled_timestamp_lost : ¬ ∀ (sec usec : Int) (now : ℚ), Fits 8 sec → Fits 8 usec →
    ¬ (sec = 0 ∧ usec = 0) →
      ∃ msg, parse .little extendedFrame
          [⟨solSocket, soTimestamp, encodeTimeval .little 8 sec usec⟩] now = some msg ∧
        msg.timestamp = sec + usec / 1000000 := by
  intro h
  obtain ⟨msg, hmsg, hts⟩ := h (-1) 1000000 5 ⟨by decide, by decide⟩ ⟨by decide, by decide⟩ (by decide)
  have hclock : (parse .little extendedFrame
      [⟨solSocket, soTimestamp, encodeTimeval .little 8 (-1) 1000000⟩] 5).map (·.timestamp) =
        some 5 := by decide +kernel
  rw [hmsg, Option.map_some, hts] at hclock
  norm_num at hclock

end CanSniffer.FrameParsing
