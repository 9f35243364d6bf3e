import TrashClear.Java.Text
import TrashClear.Library.Bytes
import TrashClear.Library.Run

/-!
# Numbers as bytes

`toBytes` writes an `int` into four bytes and a `long` into eight, the lowest first;
`toInt` and `toLong` read them back, and `subBytes` copies a part of an array.

* `toInt_toLong_exact`: a number is read exactly from the arrays that begin with its
  bytes, and only an array that is too short throws.
* `subBytes_eq` says when a part is copied, and what is thrown otherwise.
* `read_packed`: at its place in a record exactly the bytes of a number are copied, and it
  is read back from them.
-/

namespace TrashClear.ByteConvertor

open Java Run Bytes

/-! ## Reading -/

/-- `b & 0xff` -/
def unsigned (b : UInt8) : Int32 := b.toInt8.toInt32 &&& 0xff

def toInt (byteArray4 : List UInt8) : Except Throwable Int32 := do
  let intValue : Int32 := 0
  let intValue := intValue ||| unsigned (← elem byteArray4 3)
  let intValue := intValue <<< 8
  let intValue := intValue ||| unsigned (← elem byteArray4 2)
  let intValue := intValue <<< 8
  let intValue := intValue ||| unsigned (← elem byteArray4 1)
  let intValue := intValue <<< 8
  let intValue := intValue ||| unsigned (← elem byteArray4 0)
  return intValue

def toLong (byteArray8 : List UInt8) : Except Throwable Int64 := do
  let longValue : Int64 := 0
  let longValue := longValue ||| (unsigned (← elem byteArray8 7)).toInt64
  let longValue := longValue <<< 8
  let longValue := longValue ||| (unsigned (← elem byteArray8 6)).toInt64
  let longValue := longValue <<< 8
  let longValue := longValue ||| (unsigned (← elem byteArray8 5)).toInt64
  let longValue := longValue <<< 8
  let longValue := longValue ||| (unsigned (← elem byteArray8 4)).toInt64
  let longValue := longValue <<< 8
  let longValue := longValue ||| (unsigned (← elem byteArray8 3)).toInt64
  let longValue := longValue <<< 8
  let longValue := longValue ||| (unsigned (← elem byteArray8 2)).toInt64
  let longValue := longValue <<< 8
  let longValue := longValue ||| (unsigned (← elem byteArray8 1)).toInt64
  let longValue := longValue <<< 8
  let longValue := longValue ||| (unsigned (← elem byteArray8 0)).toInt64
  return longValue

/-! ## Writing -/

/-- `toBytes(int)` -/
def toBytes (intValue : Int32) : List UInt8 :=
  [(intValue &&& 0xff).toInt8.toUInt8,
    ((intValue &&& 0xff00) >>> 8).toInt8.toUInt8,
    ((intValue &&& 0xff0000) >>> 16).toInt8.toUInt8,
    ((intValue &&& 0xff000000) >>> 24).toInt8.toUInt8]

/-- `toBytes(long)` -/
def toBytesLong (longValue : Int64) : List UInt8 :=
  [(longValue &&& 0xff).toInt8.toUInt8,
    ((longValue &&& 0xff00) >>> 8).toInt8.toUInt8,
    ((longValue &&& 0xff0000) >>> 16).toInt8.toUInt8,
    ((longValue &&& 0xff000000) >>> 24).toInt8.toUInt8,
    ((longValue &&& 0xff00000000) >>> 32).toInt8.toUInt8,
    ((longValue &&& 0xff0000000000) >>> 40).toInt8.toUInt8,
    ((longValue &&& 0xff000000000000) >>> 48).toInt8.toUInt8,
    ((longValue &&& 0xff00000000000000) >>> 56).toInt8.toUInt8]

/-- The bytes of an `int` are taken out of its word. -/
theorem toBytes_eq (v : Int32) : toBytes v = (List.range 4).map (extracted v.toBitVec) := by
  have hbyte (k : Nat) (h : 8 * k + 8 ≤ 32) : extracted v.toBitVec k =
      ⟨((v.toBitVec &&& (0xff#32 <<< (8 * k))).sshiftRight (8 * k)).setWidth 8⟩ := by
    rw [masked_eq_extract h]
    rfl
  simp only [show List.range 4 = [0, 1, 2, 3] from rfl, List.map_cons, List.map_nil]
  rw [hbyte 0 (by omega), hbyte 1 (by omega), hbyte 2 (by omega), hbyte 3 (by omega)]
  simp [toBytes, ← UInt8.toBitVec_inj, BitVec.signExtend_eq_setWidth_of_le]

/-- The bytes of a `long` are taken out of its word. -/
theorem toBytesLong_eq (v : Int64) :
    toBytesLong v = (List.range 8).map (extracted v.toBitVec) := by
  have hbyte (k : Nat) (h : 8 * k + 8 ≤ 64) : extracted v.toBitVec k =
      ⟨((v.toBitVec &&& (0xff#64 <<< (8 * k))).sshiftRight (8 * k)).setWidth 8⟩ := by
    rw [masked_eq_extract h]
    rfl
  simp only [show List.range 8 = [0, 1, 2, 3, 4, 5, 6, 7] from rfl, List.map_cons, List.map_nil]
  rw [hbyte 0 (by omega), hbyte 1 (by omega), hbyte 2 (by omega), hbyte 3 (by omega),
    hbyte 4 (by omega), hbyte 5 (by omega), hbyte 6 (by omega), hbyte 7 (by omega)]
  simp [toBytesLong, ← UInt8.toBitVec_inj, BitVec.signExtend_eq_setWidth_of_le]

/-! ## Reading what was written -/

theorem toBitVec_unsigned (b : UInt8) : (unsigned b).toBitVec = b.toBitVec.setWidth 32 := by
  rw [← signed_and_mask]
  rfl

theorem signExtend_unsigned (b : UInt8) :
    (unsigned b).toBitVec.signExtend 64 = b.toBitVec.setWidth 64 := by
  have hlong : (unsigned b).toInt64.toBitVec = b.toBitVec.setWidth 64 := by
    rw [← signed_and_mask]
    simp [unsigned]
  exact hlong

/-- The first four bytes are joined. -/
theorem toInt_cons (b₀ b₁ b₂ b₃ : UInt8) (rest : List UInt8) :
    ∃ v, toInt (b₀ :: b₁ :: b₂ :: b₃ :: rest) = .ok v ∧
      v.toBitVec = joined 32 [b₀, b₁, b₂, b₃] := by
  refine ⟨_, rfl, ?_⟩
  simp [toBitVec_unsigned, joined, pushed]

/-- The first eight bytes are joined. -/
theorem toLong_cons (b₀ b₁ b₂ b₃ b₄ b₅ b₆ b₇ : UInt8) (rest : List UInt8) :
    ∃ v, toLong (b₀ :: b₁ :: b₂ :: b₃ :: b₄ :: b₅ :: b₆ :: b₇ :: rest) = .ok v ∧
      v.toBitVec = joined 64 [b₀, b₁, b₂, b₃, b₄, b₅, b₆, b₇] := by
  refine ⟨_, rfl, ?_⟩
  simp [signExtend_unsigned, joined, pushed]

theorem toInt_of_length_lt {bs : List UInt8} (h : bs.length < 4) :
    toInt bs = .error .arrayIndexOutOfBounds := by
  have hnone : bs[3]? = none := List.getElem?_eq_none (by omega)
  simp [toInt, elem, hnone]

theorem toLong_of_length_lt {bs : List UInt8} (h : bs.length < 8) :
    toLong bs = .error .arrayIndexOutOfBounds := by
  have hnone : bs[7]? = none := List.getElem?_eq_none (by omega)
  simp [toLong, elem, hnone]

theorem toBytes_injective {u v : Int32} (h : toBytes u = toBytes v) : u = v := by
  rw [toBytes_eq, toBytes_eq] at h
  have hjoined := (joined_eq_iff (n := 4) (by omega) rfl u.toBitVec).mpr rfl
  rw [h, (joined_eq_iff (n := 4) (by omega) rfl v.toBitVec).mpr rfl] at hjoined
  exact (Int32.toBitVec_inj.mp hjoined).symm

theorem toBytesLong_injective {u v : Int64} (h : toBytesLong u = toBytesLong v) : u = v := by
  rw [toBytesLong_eq, toBytesLong_eq] at h
  have hjoined := (joined_eq_iff (n := 8) (by omega) rfl u.toBitVec).mpr rfl
  rw [h, (joined_eq_iff (n := 8) (by omega) rfl v.toBitVec).mpr rfl] at hjoined
  exact (Int64.toBitVec_inj.mp hjoined).symm

/-- What is read from an array that is long enough is written as its beginning. -/
theorem toInt_take {bs : List UInt8} (h : ¬ bs.length < 4) :
    ∃ v, toInt bs = .ok v ∧ toBytes v = bs.take 4 := by
  obtain ⟨b₀, b₁, b₂, b₃, rest, rfl⟩ : ∃ b₀ b₁ b₂ b₃ rest, bs = b₀ :: b₁ :: b₂ :: b₃ :: rest := by
    rcases bs with _ | ⟨b₀, _ | ⟨b₁, _ | ⟨b₂, _ | ⟨b₃, rest⟩⟩⟩⟩ <;> simp at h ⊢
  obtain ⟨v, hv, hword⟩ := toInt_cons b₀ b₁ b₂ b₃ rest
  have hbytes := (joined_eq_iff (n := 4) (by omega) rfl v.toBitVec).mp hword.symm
  exact ⟨v, hv, (toBytes_eq v).trans hbytes.symm⟩

theorem toLong_take {bs : List UInt8} (h : ¬ bs.length < 8) :
    ∃ v, toLong bs = .ok v ∧ toBytesLong v = bs.take 8 := by
  obtain ⟨b₀, b₁, b₂, b₃, b₄, b₅, b₆, b₇, rest, rfl⟩ : ∃ b₀ b₁ b₂ b₃ b₄ b₅ b₆ b₇ rest,
      bs = b₀ :: b₁ :: b₂ :: b₃ :: b₄ :: b₅ :: b₆ :: b₇ :: rest := by
    rcases bs with _ | ⟨b₀, _ | ⟨b₁, _ | ⟨b₂, _ | ⟨b₃, _ | ⟨b₄, _ | ⟨b₅, _ | ⟨b₆, _ |
      ⟨b₇, rest⟩⟩⟩⟩⟩⟩⟩⟩ <;> simp at h ⊢
  obtain ⟨v, hv, hword⟩ := toLong_cons b₀ b₁ b₂ b₃ b₄ b₅ b₆ b₇ rest
  have hbytes := (joined_eq_iff (n := 8) (by omega) rfl v.toBitVec).mp hword.symm
  exact ⟨v, hv, (toBytesLong_eq v).trans hbytes.symm⟩

/-- A number is read exactly from the arrays that begin with its `n` bytes, and exactly
the shorter arrays throw. -/
def Exact {α : Type} (n : Nat) (write : α → List UInt8)
    (read : List UInt8 → Except Throwable α) : Prop :=
  ∀ bs, (∀ v, read bs = .ok v ↔ write v <+: bs) ∧
    ∀ e, read bs = .error e ↔ e = .arrayIndexOutOfBounds ∧ bs.length < n

theorem exact_of_take {α : Type} {n : Nat} {write : α → List UInt8}
    {read : List UInt8 → Except Throwable α} (hlength : ∀ v, (write v).length = n)
    (hinjective : ∀ {u v}, write u = write v → u = v)
    (hshort : ∀ {bs}, bs.length < n → read bs = .error .arrayIndexOutOfBounds)
    (hlong : ∀ {bs}, ¬ bs.length < n → ∃ v, read bs = .ok v ∧ write v = bs.take n) :
    Exact n write read := by
  intro bs
  by_cases h : bs.length < n
  · rw [hshort h]
    refine ⟨fun v => iff_of_false (by simp) fun hprefix => ?_, fun e => by simp [h, eq_comm]⟩
    have hle := hprefix.length_le
    rw [hlength] at hle
    omega
  · obtain ⟨v, hread, hwrite⟩ := hlong h
    rw [hread]
    refine ⟨fun u => ?_, fun e => by simp [h]⟩
    rw [List.prefix_iff_eq_take, hlength, ← hwrite, Except.ok.injEq]
    exact ⟨fun heq => heq ▸ rfl, fun heq => (hinjective heq).symm⟩

theorem exact_toInt : Exact 4 toBytes toInt :=
  exact_of_take (fun _ => rfl) toBytes_injective toInt_of_length_lt toInt_take

theorem exact_toLong : Exact 8 toBytesLong toLong :=
  exact_of_take (fun _ => rfl) toBytesLong_injective toLong_of_length_lt toLong_take

/-- **Both numbers are read exactly from the arrays that begin with their bytes**, and
their bytes make the number, the lowest first. -/
theorem toInt_toLong_exact :
    Exact 4 toBytes toInt ∧ Exact 8 toBytesLong toLong ∧
      (∀ v : Int32, value (toBytes v) = v.toUInt32.toNat) ∧
      ∀ v : Int64, value (toBytesLong v) = v.toUInt64.toNat := by
  refine ⟨exact_toInt, exact_toLong, fun v => ?_, fun v => ?_⟩
  · rw [toBytes_eq, value_extracted]
    exact Nat.mod_eq_of_lt v.toUInt32.toNat_lt
  · rw [toBytesLong_eq, value_extracted]
    exact Nat.mod_eq_of_lt v.toUInt64.toNat_lt

/-! ## A part of an array -/

/-- What `subBytes` throws. -/
inductive SubBytesThrowable
  | negativeArraySize
  | arrayIndexOutOfBounds
  deriving DecidableEq, Repr

/-- `buf[i]` -/
def byteAt (buf : List UInt8) (i : Int32) : Except SubBytesThrowable UInt8 :=
  if i < 0 then .error .arrayIndexOutOfBounds
  else
    match buf[i.toInt.toNat]? with
    | some b => .ok b
    | none => .error .arrayIndexOutOfBounds

/-- The `len` bytes from the index `start` on; `start + i` is an `int` and may wrap. -/
def subBytes (buf : List UInt8) (start len : Int32) : Except SubBytesThrowable (List UInt8) :=
  if len < 0 then .error .negativeArraySize
  else (List.range len.toInt.toNat).mapM fun i => byteAt buf (start + Int32.ofNat i)

/-- An index that does not wrap. -/
theorem toInt_index {start : Int32} {i : Nat} (hpos : 0 ≤ start.toInt)
    (h : start.toInt + i < 2 ^ 31) : (start + Int32.ofNat i).toInt = start.toInt + i := by
  have hi : (Int32.ofNat i).toInt = i := Int32.toInt_ofNat_of_lt (by omega)
  rw [Int32.toInt_add, hi, Int.bmod_eq_of_le (by omega) (by omega)]

theorem byteAt_eq_ok {buf : List UInt8} {i : Int32} {k : Nat} (hi : i.toInt = k)
    (hk : k < buf.length) : byteAt buf i = .ok (buf.getD k 0) := by
  have hpos : ¬ i < 0 := by
    rw [Int32.lt_iff_toInt_lt, hi]
    simp
  rw [byteAt, if_neg hpos, hi, Int.toNat_natCast, List.getD_eq_getElem?_getD,
    List.getElem?_eq_getElem hk]
  rfl

/-- A byte outside of the array. -/
theorem byteAt_eq_error {buf : List UInt8} {i : Int32}
    (h : i.toInt < 0 ∨ (buf.length : Int) ≤ i.toInt) :
    byteAt buf i = .error .arrayIndexOutOfBounds := by
  unfold byteAt
  by_cases hneg : i < 0
  · rw [if_pos hneg]
  · rw [if_neg hneg]
    rw [Int32.lt_iff_toInt_lt, Int32.toInt_zero] at hneg
    rw [List.getElem?_eq_none (by omega)]

theorem byteAt_error {buf : List UInt8} {i : Int32} {e : SubBytesThrowable}
    (h : byteAt buf i = .error e) : e = .arrayIndexOutOfBounds := by
  unfold byteAt at h
  split at h
  · exact (Except.error.inj h).symm
  · split at h
    · cases h
    · exact (Except.error.inj h).symm

/-- **Which parts are copied.**  A part inside of the array is copied, and an empty part
from any index; everything else throws.  No index wraps before it leaves the array. -/
theorem subBytes_eq {buf : List UInt8} (hbuf : buf.length < 2 ^ 31) (start len : Int32) :
    subBytes buf start len =
      if len.toInt < 0 then .error .negativeArraySize
      else if len.toInt = 0 ∨ (0 ≤ start.toInt ∧ start.toInt + len.toInt ≤ buf.length) then
        .ok ((buf.drop start.toInt.toNat).take len.toInt.toNat)
      else .error .arrayIndexOutOfBounds := by
  unfold subBytes
  simp only [Int32.lt_iff_toInt_lt, Int32.toInt_zero]
  by_cases hneg : len.toInt < 0
  · rw [if_pos hneg, if_pos hneg]
  rw [if_neg hneg, if_neg hneg]
  by_cases hpart : len.toInt = 0 ∨ (0 ≤ start.toInt ∧ start.toInt + len.toInt ≤ buf.length)
  · rw [if_pos hpart]
    have hbyte : ∀ i ∈ List.range len.toInt.toNat, byteAt buf (start + Int32.ofNat i) =
        .ok (buf.getD (start.toInt.toNat + i) 0) := by
      intro i hi
      have hlt := List.mem_range.mp hi
      obtain ⟨hpos, hle⟩ := hpart.resolve_left (by omega)
      have hindex := toInt_index hpos (show start.toInt + i < 2 ^ 31 by omega)
      exact byteAt_eq_ok (by omega) (by omega)
    rw [mapM_eq_ok_map hbyte]
    refine congrArg _ (List.ext_getElem ?_ fun i hi hi' => ?_)
    · rw [List.length_map, List.length_range, List.length_take, List.length_drop]
      omega
    · rw [List.length_map, List.length_range] at hi
      have hlt : start.toInt.toNat + i < buf.length := by
        rw [List.length_take, List.length_drop] at hi'
        omega
      rw [List.getElem_map, List.getElem_range, List.getElem_take, List.getElem_drop,
        List.getD_eq_getElem?_getD, List.getElem?_eq_getElem hlt, Option.getD_some]
  · rw [if_neg hpart]
    obtain ⟨hzero, hout⟩ := not_or.mp hpart
    -- the first byte that is outside of the array
    obtain ⟨i, hi, hthrow⟩ : ∃ i < len.toInt.toNat, byteAt buf (start + Int32.ofNat i) =
        .error .arrayIndexOutOfBounds := by
      by_cases hpos : 0 ≤ start.toInt
      · by_cases hstart : start.toInt < buf.length
        · have hfirst : buf.length - start.toInt.toNat < len.toInt.toNat := by
            have hlong : ¬ start.toInt + len.toInt ≤ buf.length := fun hle => hout ⟨hpos, hle⟩
            omega
          refine ⟨buf.length - start.toInt.toNat, hfirst, byteAt_eq_error (Or.inr ?_)⟩
          rw [toInt_index hpos (by omega)]
          omega
        · refine ⟨0, by omega, byteAt_eq_error (Or.inr ?_)⟩
          rw [toInt_index hpos (by have := start.toInt_lt; omega)]
          omega
      · refine ⟨0, by omega, byteAt_eq_error (Or.inl ?_)⟩
        have hself : start + Int32.ofNat 0 = start := Int32.add_zero start
        rw [hself]
        omega
    cases hpass : (List.range len.toInt.toNat).mapM fun i => byteAt buf (start + Int32.ofNat i) with
    | ok bs =>
        obtain ⟨b, hb⟩ := exists_mapM_eq_ok.mp ⟨bs, hpass⟩ i (List.mem_range.mpr hi)
        rw [hthrow] at hb
        cases hb
    | error e =>
        obtain ⟨_, _, he⟩ := exists_of_mapM_eq_error hpass
        rw [byteAt_error he]

/-! ## Records of numbers -/

inductive Number
  | int (intValue : Int32)
  | long (longValue : Int64)
  deriving DecidableEq

namespace Number

def bytes : Number → List UInt8
  | int intValue => toBytes intValue
  | long longValue => toBytesLong longValue

/-- The number of its bytes. -/
def size : Number → Int32
  | int _ => 4
  | long _ => 8

/-- What is read from an array that holds it. -/
def IsRead (bs : List UInt8) : Number → Prop
  | int intValue => toInt bs = .ok intValue
  | long longValue => toLong bs = .ok longValue

theorem length_bytes (n : Number) : (n.bytes.length : Int) = n.size.toInt := by
  cases n <;> rfl

theorem isRead_bytes (n : Number) : n.IsRead n.bytes := by
  cases n with
  | int v => exact ((exact_toInt (toBytes v)).1 v).mpr (List.prefix_refl _)
  | long v => exact ((exact_toLong (toBytesLong v)).1 v).mpr (List.prefix_refl _)

end Number

/-- The numbers of a record, one behind the other. -/
def packed (numbers : List Number) : List UInt8 := numbers.flatMap Number.bytes

/-- **At its place in a record exactly the bytes of a number are copied**, whatever stands
before and behind it, and the number is read back from them. -/
theorem read_packed {before behind : List Number} {number : Number}
    (h : (packed (before ++ number :: behind)).length < 2 ^ 31) :
    subBytes (packed (before ++ number :: behind)) (Int32.ofNat (packed before).length)
        number.size = .ok number.bytes ∧ number.IsRead number.bytes := by
  have hsplit : packed (before ++ number :: behind) =
      packed before ++ (number.bytes ++ packed behind) := by
    simp [packed]
  have hlength : (packed (before ++ number :: behind)).length =
      (packed before).length + (number.bytes.length + (packed behind).length) := by
    rw [hsplit, List.length_append, List.length_append]
  have hstart : (Int32.ofNat (packed before).length).toInt = (packed before).length :=
    Int32.toInt_ofNat_of_lt (by omega)
  have hsize := number.length_bytes
  refine ⟨?_, number.isRead_bytes⟩
  rw [subBytes_eq h, if_neg (by omega), if_pos (Or.inr ⟨by omega, by omega⟩), hstart, ← hsize,
    hsplit, Int.toNat_natCast, Int.toNat_natCast, List.drop_left, List.take_left]

/-- The middle one of three numbers. -/
theorem read_packed_three :
    subBytes (packed ([.int 7] ++ .long (-2) :: [.int 1])) 4 8 =
        .ok [0xFE, 0xFF, 0xFF, 0xFF, 0xFF, 0xFF, 0xFF, 0xFF] ∧
      toLong [0xFE, 0xFF, 0xFF, 0xFF, 0xFF, 0xFF, 0xFF, 0xFF] = .ok (-2) :=
  read_packed (by decide)

end TrashClear.ByteConvertor
