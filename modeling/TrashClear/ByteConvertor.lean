import TrashClear.Java.Security

/-!
# Bytes and hexadecimal text

`bytesToHexString` and `hexStringToBytes` with the arithmetic of the code: a byte
is signed and widened to `int` before it is shifted and masked, and the buffer of
the text has the `int` product `2 * length` for its capacity.  The printed text is
the one `Hex.encode` gives (`bytesToHexString_eq_hexEncode`), and reading it back
gives the bytes (`hexStringToBytes_hexDigits`).

`toHex` is a second printer, with capital digits.  `hexCodec_exact` says which arrays
are printed and read back, which strings `hexStringToBytes` reads, and that what is
read prints as the string up to case.
-/

namespace TrashClear

open Java Run

/-- The two digits of a byte; both indices are masked to the table. -/
def byteToHex (b : UInt8) : JString :=
  let table := js "0123456789abcdef"
  [table.getD ((0x0f : Int32) &&& (b.toInt8.toInt32 >>> 4)).toInt.toNat 0,
    table.getD ((0x0f : Int32) &&& b.toInt8.toInt32).toInt.toNat 0]

def bytesToHexString (bytes : List UInt8) : Except Throwable JString := do
  newCharArray (2 * Int32.ofNat bytes.length)
  return bytes.flatMap byteToHex

/-- The two digits of a byte, in capitals. -/
def appendHex (b : UInt8) : JString :=
  let HEX := js "0123456789ABCDEF"
  [HEX.getD ((b.toInt8.toInt32 >>> 4) &&& (0x0f : Int32)).toInt.toNat 0,
    HEX.getD (b.toInt8.toInt32 &&& (0x0f : Int32)).toInt.toNat 0]

def toHex (buf : List UInt8) : Except Throwable JString := do
  newCharArray (2 * Int32.ofNat buf.length)
  return buf.flatMap appendHex

def hexCharToInt (c : UInt16) : Except Throwable Int32 :=
  if 0x30 ≤ c ∧ c ≤ 0x39 then .ok (Int32.ofNat c.toNat - 0x30)
  else if 0x41 ≤ c ∧ c ≤ 0x46 then .ok (Int32.ofNat c.toNat - 0x41 + 10)
  else if 0x61 ≤ c ∧ c ≤ 0x66 then .ok (Int32.ofNat c.toNat - 0x61 + 10)
  else .error .runtime

def hexStringToBytes : JString → Except Throwable (List UInt8)
  | [] => .ok []
  | [c] => do
      let _ ← hexCharToInt c
      .error .stringIndexOutOfBounds
  | c :: d :: rest => do
      let hi ← hexCharToInt c
      let lo ← hexCharToInt d
      let bytes ← hexStringToBytes rest
      return ((hi <<< 4) ||| lo).toInt8.toUInt8 :: bytes

/-! ## The halves of a byte -/

/-- The value of the first digit. -/
def highHalf (b : UInt8) : Nat := ((0x0f : Int32) &&& (b.toInt8.toInt32 >>> 4)).toInt.toNat

/-- The value of the second digit. -/
def lowHalf (b : UInt8) : Nat := ((0x0f : Int32) &&& b.toInt8.toInt32).toInt.toNat

/-- The byte that is read from two values. -/
def joinHalves (k l : Nat) : UInt8 := ((Int32.ofNat k <<< 4) ||| Int32.ofNat l).toInt8.toUInt8

theorem byteToHex_eq (b : UInt8) : byteToHex b =
    [(js "0123456789abcdef").getD (highHalf b) 0, (js "0123456789abcdef").getD (lowHalf b) 0] :=
  rfl

theorem appendHex_eq (b : UInt8) : appendHex b =
    [(js "0123456789ABCDEF").getD (highHalf b) 0, (js "0123456789ABCDEF").getD (lowHalf b) 0] := by
  unfold appendHex highHalf lowHalf
  rw [Int32.and_comm, Int32.and_comm _ 0x0f]

theorem joinHalves_halves : ∀ b : UInt8,
    highHalf b < 16 ∧ lowHalf b < 16 ∧ joinHalves (highHalf b) (lowHalf b) = b :=
  Utf.forall_byte (by decide +kernel)

theorem halves_joinHalves :
    ∀ k < 16, ∀ l < 16, highHalf (joinHalves k l) = k ∧ lowHalf (joinHalves k l) = l := by
  decide +kernel

/-- The signed arithmetic prints what the unsigned one does. -/
theorem flatMap_byteToHex (bytes : List UInt8) : bytes.flatMap byteToHex = hexDigits bytes := by
  have hhalves : ∀ b : UInt8, highHalf b = (b >>> 4).toNat ∧ lowHalf b = (b &&& 0x0f).toNat :=
    Utf.forall_byte (by decide +kernel)
  have hbyte (b : UInt8) : byteToHex b =
      [hexTable.getD (b >>> 4).toNat 0, hexTable.getD (b &&& 0x0f).toNat 0] := by
    rw [byteToHex_eq, (hhalves b).1, (hhalves b).2]
    rfl
  unfold hexDigits
  rw [funext hbyte]

theorem bytesToHexString_eq_hexEncode (bytes : List UInt8) :
    bytesToHexString bytes = hexEncode bytes := by
  unfold bytesToHexString hexEncode
  rw [flatMap_byteToHex, shiftLeft_one]

/-- Both printers print fewer than 2^30 bytes. -/
theorem print_of_lt {bytes : List UInt8} (h : bytes.length < 2 ^ 30) :
    bytesToHexString bytes = .ok (bytes.flatMap byteToHex) ∧
      toHex bytes = .ok (bytes.flatMap appendHex) := by
  unfold bytesToHexString toHex
  rw [newCharArray_of_lt h]
  exact ⟨rfl, rfl⟩

/-- They print no longer array. -/
theorem print_of_le {bytes : List UInt8} (h : 2 ^ 30 ≤ bytes.length)
    (harray : bytes.length < 2 ^ 31) :
    bytesToHexString bytes = .error .negativeArraySize ∧
      toHex bytes = .error .negativeArraySize := by
  unfold bytesToHexString toHex
  rw [newCharArray_of_le h harray]
  exact ⟨rfl, rfl⟩

/-! ## Printing and reading back -/

/-- Two digits read back as a byte. -/
def ReadsAs (c d : UInt16) (b : UInt8) : Prop :=
  ∃ hi lo, hexCharToInt c = .ok hi ∧ hexCharToInt d = .ok lo ∧
    ((hi <<< 4) ||| lo).toInt8.toUInt8 = b

theorem hexStringToBytes_cons {c d : UInt16} {b : UInt8} (h : ReadsAs c d b) (rest : JString) :
    hexStringToBytes (c :: d :: rest) = (hexStringToBytes rest).map (b :: ·) := by
  obtain ⟨hi, lo, hhi, hlo, hjoin⟩ := h
  rw [hexStringToBytes, hhi, hlo]
  cases hexStringToBytes rest with
  | error e => rfl
  | ok bytes => simp only [ok_bind, pure_eq_ok, hjoin, Except.map]

/-- Digits of a table that `hexCharToInt` knows read back as the byte. -/
theorem readsAs_getD {table : JString}
    (htable : ∀ k < 16, hexCharToInt (table.getD k 0) = .ok (Int32.ofNat k)) (b : UInt8) :
    ReadsAs (table.getD (highHalf b) 0) (table.getD (lowHalf b) 0) b := by
  obtain ⟨hhigh, hlow, hjoin⟩ := joinHalves_halves b
  exact ⟨_, _, htable _ hhigh, htable _ hlow, hjoin⟩

theorem readsAs_byteToHex (b : UInt8) : ∃ c d, byteToHex b = [c, d] ∧ ReadsAs c d b :=
  ⟨_, _, byteToHex_eq b, readsAs_getD (by decide) b⟩

theorem readsAs_appendHex (b : UInt8) : ∃ c d, appendHex b = [c, d] ∧ ReadsAs c d b :=
  ⟨_, _, appendHex_eq b, readsAs_getD (by decide) b⟩

/-- Bytes that are printed one by one read back when each does. -/
theorem hexStringToBytes_flatMap {print : UInt8 → JString}
    (hprint : ∀ b, ∃ c d, print b = [c, d] ∧ ReadsAs c d b) (bytes : List UInt8) :
    hexStringToBytes (bytes.flatMap print) = .ok bytes := by
  induction bytes with
  | nil => rfl
  | cons b bytes ih =>
      obtain ⟨c, d, hb, hread⟩ := hprint b
      have hcons : (b :: bytes).flatMap print = c :: d :: bytes.flatMap print := by
        rw [List.flatMap_cons, hb]
        rfl
      rw [hcons, hexStringToBytes_cons hread, ih]
      rfl

/-- **Hexadecimal round trip.** -/
theorem hexStringToBytes_hexDigits (bytes : List UInt8) :
    hexStringToBytes (hexDigits bytes) = .ok bytes := by
  rw [← flatMap_byteToHex]
  exact hexStringToBytes_flatMap readsAs_byteToHex bytes

/-! ## Reading and printing again -/

/-- A character of `0-9`, `A-F` or `a-f`. -/
def isHexChar (c : UInt16) : Bool :=
  (0x30 ≤ c && c ≤ 0x39) || (0x41 ≤ c && c ≤ 0x46) || (0x61 ≤ c && c ≤ 0x66)

/-- Any other character is refused. -/
theorem hexCharToInt_of_not {c : UInt16} (h : isHexChar c = false) :
    hexCharToInt c = .error .runtime := by
  simp only [isHexChar, Bool.or_eq_false_iff, Bool.and_eq_false_iff, decide_eq_false_iff_not] at h
  unfold hexCharToInt
  rw [if_neg (by tauto), if_neg (by tauto), if_neg (by tauto)]

/-- A hexadecimal character has a value, which is its place in the table up to case. -/
theorem value_of_isHexChar {c : UInt16} (h : isHexChar c = true) :
    ∃ k < 16, hexCharToInt c = .ok (Int32.ofNat k) ∧
      (js "0123456789abcdef").getD k 0 = asciiLower c ∧
      (js "0123456789ABCDEF").getD k 0 = asciiUpper c := by
  have hall : ∀ n < 0x80, isHexChar (UInt16.ofNat n) = true → ∃ k < 16,
      hexCharToInt (UInt16.ofNat n) = .ok (Int32.ofNat k) ∧
        (js "0123456789abcdef").getD k 0 = asciiLower (UInt16.ofNat n) ∧
        (js "0123456789ABCDEF").getD k 0 = asciiUpper (UInt16.ofNat n) := by
    decide +kernel
  have hascii : c.toNat < 0x80 := by
    simp only [isHexChar, Bool.or_eq_true, Bool.and_eq_true, decide_eq_true_eq,
      UInt16.le_iff_toNat_le] at h
    have h39 : (0x39 : UInt16).toNat = 0x39 := rfl
    have h46 : (0x46 : UInt16).toNat = 0x46 := rfl
    have h66 : (0x66 : UInt16).toNat = 0x66 := rfl
    omega
  simpa using hall c.toNat hascii (by simpa using h)

/-- Two hexadecimal characters read as a byte that prints as them up to case. -/
theorem exists_readsAs {c d : UInt16} (hc : isHexChar c = true) (hd : isHexChar d = true) :
    ∃ b, ReadsAs c d b ∧ byteToHex b = [asciiLower c, asciiLower d] ∧
      appendHex b = [asciiUpper c, asciiUpper d] := by
  obtain ⟨k, hk, hcvalue, hclower, hcupper⟩ := value_of_isHexChar hc
  obtain ⟨l, hl, hdvalue, hdlower, hdupper⟩ := value_of_isHexChar hd
  obtain ⟨hhigh, hlow⟩ := halves_joinHalves k hk l hl
  refine ⟨joinHalves k l, ⟨_, _, hcvalue, hdvalue, rfl⟩, ?_, ?_⟩
  · rw [byteToHex_eq, hhigh, hlow, hclower, hdlower]
  · rw [appendHex_eq, hhigh, hlow, hcupper, hdupper]

/-- An even number of hexadecimal characters. -/
def IsHexString (s : JString) : Prop := s.length % 2 = 0 ∧ ∀ c ∈ s, isHexChar c = true

theorem isHexString_cons {c d : UInt16} {rest : JString} : IsHexString (c :: d :: rest) ↔
    isHexChar c = true ∧ isHexChar d = true ∧ IsHexString rest := by
  unfold IsHexString
  rw [List.forall_mem_cons, List.forall_mem_cons, List.length_cons, List.length_cons]
  constructor
  · intro h
    exact ⟨h.2.1, h.2.2.1, by omega, h.2.2.2⟩
  · intro h
    exact ⟨by omega, h.1, h.2.1, h.2.2.2⟩

/-- Such a string is read as bytes that print as it up to case. -/
theorem hexStringToBytes_of_isHexString : {s : JString} → IsHexString s →
    ∃ bytes, hexStringToBytes s = .ok bytes ∧ bytes.flatMap byteToHex = s.map asciiLower ∧
      bytes.flatMap appendHex = s.map asciiUpper
  | [], _ => ⟨[], rfl, rfl, rfl⟩
  | [_], h => by cases h.1
  | c :: d :: rest, h => by
      obtain ⟨hc, hd, hrest⟩ := isHexString_cons.mp h
      obtain ⟨b, hread, hlower, hupper⟩ := exists_readsAs hc hd
      obtain ⟨bytes, hbytes, hlowers, huppers⟩ := hexStringToBytes_of_isHexString hrest
      refine ⟨b :: bytes, ?_, ?_, ?_⟩
      · rw [hexStringToBytes_cons hread, hbytes]
        rfl
      · rw [List.flatMap_cons, hlower, hlowers]
        rfl
      · rw [List.flatMap_cons, hupper, huppers]
        rfl

/-- Any other string is refused. -/
theorem hexStringToBytes_of_not : {s : JString} → ¬ IsHexString s →
    ∃ e, hexStringToBytes s = .error e
  | [], h => absurd ⟨rfl, fun _ hc => nomatch hc⟩ h
  | [c], _ => by
      unfold hexStringToBytes
      cases hexCharToInt c with
      | error e => exact ⟨e, rfl⟩
      | ok v => exact ⟨_, rfl⟩
  | c :: d :: rest, h => by
      by_cases hc : isHexChar c = true
      · by_cases hd : isHexChar d = true
        · have hrest : ¬ IsHexString rest := fun hr => h (isHexString_cons.mpr ⟨hc, hd, hr⟩)
          obtain ⟨b, hread, -⟩ := exists_readsAs hc hd
          obtain ⟨e, he⟩ := hexStringToBytes_of_not hrest
          rw [hexStringToBytes_cons hread, he]
          exact ⟨e, rfl⟩
        · obtain ⟨k, -, hvalue, -⟩ := value_of_isHexChar hc
          rw [hexStringToBytes, hvalue, hexCharToInt_of_not (Bool.eq_false_of_not_eq_true hd)]
          exact ⟨_, rfl⟩
      · rw [hexStringToBytes, hexCharToInt_of_not (Bool.eq_false_of_not_eq_true hc)]
        exact ⟨_, rfl⟩

/-- What is read is half as long as the string. -/
theorem length_hexStringToBytes : {s : JString} → {bytes : List UInt8} →
    hexStringToBytes s = .ok bytes → 2 * bytes.length = s.length
  | [], bytes, h => by
      cases h
      rfl
  | [c], bytes, h => by
      obtain ⟨_, -, herror⟩ := bind_eq_ok.mp h
      cases herror
  | c :: d :: rest, bytes, h => by
      obtain ⟨hi, -, h⟩ := bind_eq_ok.mp h
      obtain ⟨lo, -, h⟩ := bind_eq_ok.mp h
      obtain ⟨read, hread, h⟩ := bind_eq_ok.mp h
      cases h
      have hlength := length_hexStringToBytes hread
      simp only [List.length_cons]
      omega

/-- **The codec is exact.**  Both printers print an array, to be read back, exactly when it
has fewer than 2^30 bytes.  `hexStringToBytes` throws for an odd number of characters or a
character that is no digit and for nothing else, and what it has read prints as the string
in lower and in upper case. -/
theorem hexCodec_exact {bytes : List UInt8} {s : JString} (hbytes : bytes.length < 2 ^ 31)
    (hs : s.length < 2 ^ 31) :
    ((bytesToHexString bytes >>= hexStringToBytes) = .ok bytes ∧
      (toHex bytes >>= hexStringToBytes) = .ok bytes ↔ bytes.length < 2 ^ 30) ∧
    ((∃ e, hexStringToBytes s = .error e) ↔
      s.length % 2 = 1 ∨ ∃ c ∈ s, isHexChar c = false) ∧
    ∀ read, hexStringToBytes s = .ok read →
      bytesToHexString read = .ok (s.map asciiLower) ∧ toHex read = .ok (s.map asciiUpper) := by
  refine ⟨⟨fun h => ?_, fun h => ?_⟩, ?_⟩
  · by_contra hlong
    rw [(print_of_le (not_lt.mp hlong) hbytes).1] at h
    cases h.1
  · rw [(print_of_lt h).1, (print_of_lt h).2, ok_bind, ok_bind]
    exact ⟨hexStringToBytes_flatMap readsAs_byteToHex bytes,
      hexStringToBytes_flatMap readsAs_appendHex bytes⟩
  · have hnot : ¬ IsHexString s ↔ s.length % 2 = 1 ∨ ∃ c ∈ s, isHexChar c = false := by
      unfold IsHexString
      rw [not_and_or, Nat.mod_two_not_eq_zero]
      simp
    rw [← hnot]
    by_cases h : IsHexString s
    · obtain ⟨found, hread, hlower, hupper⟩ := hexStringToBytes_of_isHexString h
      have hlength := length_hexStringToBytes hread
      rw [hread]
      refine ⟨⟨fun he => ?_, fun hn => absurd h hn⟩, fun read hread' => ?_⟩
      · obtain ⟨e, he⟩ := he
        cases he
      · cases hread'
        rw [(print_of_lt (by omega)).1, (print_of_lt (by omega)).2, hlower, hupper]
        exact ⟨rfl, rfl⟩
    · obtain ⟨e, he⟩ := hexStringToBytes_of_not h
      rw [he]
      exact ⟨⟨fun _ => h, fun _ => ⟨e, rfl⟩⟩, fun read hread => by cases hread⟩

theorem hexCodec_exact_twoBytes :
    ((bytesToHexString [0x1f, 0xa0] >>= hexStringToBytes) = .ok [0x1f, 0xa0] ∧
      (toHex [0x1f, 0xa0] >>= hexStringToBytes) = .ok [0x1f, 0xa0] ↔
        [(0x1f : UInt8), 0xa0].length < 2 ^ 30) ∧
    ((∃ e, hexStringToBytes (js "1fA0") = .error e) ↔
      (js "1fA0").length % 2 = 1 ∨ ∃ c ∈ js "1fA0", isHexChar c = false) ∧
    ∀ read, hexStringToBytes (js "1fA0") = .ok read →
      bytesToHexString read = .ok ((js "1fA0").map asciiLower) ∧
        toHex read = .ok ((js "1fA0").map asciiUpper) :=
  hexCodec_exact (by decide) (by decide)

/-- An array of 2^30 bytes is not printed. -/
theorem not_read_back_long :
    ¬ ((bytesToHexString (List.replicate (2 ^ 30) 0) >>= hexStringToBytes) =
          .ok (List.replicate (2 ^ 30) 0) ∧
        (toHex (List.replicate (2 ^ 30) 0) >>= hexStringToBytes) =
          .ok (List.replicate (2 ^ 30) 0)) := by
  intro h
  have hlength : (List.replicate (2 ^ 30) (0 : UInt8)).length = 2 ^ 30 := List.length_replicate
  have hthrows := (print_of_le (ge_of_eq hlength) (by rw [hlength]; omega)).1
  rw [hthrows] at h
  cases h.1

end TrashClear
