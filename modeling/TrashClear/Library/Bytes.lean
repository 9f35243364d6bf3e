import Mathlib.Data.Nat.Digits.Lemmas

/-!
# Numbers in bytes

The least significant byte first.

* `toNat_joined`: shifting bytes into a word makes the word of their number.
* `masked_eq_extract`: masking a byte of a word and shifting it down, with the sign or
  without, takes the byte out.
* `value_extracted`: the bytes taken out of a word make its number.
* `joined_eq_iff`: joining as many bytes as a word has undoes taking them out.
-/

namespace Bytes

/-- The number that bytes make. -/
def value (bs : List UInt8) : Nat := Nat.ofDigits 256 (bs.map UInt8.toNat)

theorem value_cons (b : UInt8) (bs : List UInt8) :
    value (b :: bs) = b.toNat + 256 * value bs := by
  simp [value, Nat.ofDigits_cons]

theorem value_lt (bs : List UInt8) : value bs < 256 ^ bs.length := by
  have hdigits : ∀ d ∈ bs.map UInt8.toNat, d < 256 := by
    intro d hd
    obtain ⟨b, _, rfl⟩ := List.mem_map.mp hd
    exact b.toNat_lt
  have hlt := Nat.ofDigits_lt_base_pow_length (by omega) hdigits
  rwa [List.length_map] at hlt

/-- Equally many bytes make different numbers. -/
theorem value_injective {bs cs : List UInt8} (hlength : bs.length = cs.length)
    (h : value bs = value cs) : bs = cs := by
  induction bs generalizing cs with
  | nil => exact (List.length_eq_zero_iff.mp hlength.symm).symm
  | cons b bs ih =>
      cases cs with
      | nil => cases hlength
      | cons c cs =>
          rw [value_cons, value_cons] at h
          have hb := b.toNat_lt
          have hc := c.toNat_lt
          have hhead : b = c := UInt8.toNat_inj.mp (by omega)
          rw [hhead, ih (Nat.succ.inj hlength) (by omega)]

variable {w : Nat}

/-- A word with one more byte at its low end. -/
def pushed (v : BitVec w) (b : UInt8) : BitVec w := (v <<< 8) ||| b.toBitVec.setWidth w

theorem toNat_pushed (hw : 8 ≤ w) (v : BitVec w) (b : UInt8) :
    (pushed v b).toNat = (b.toNat + 256 * v.toNat) % 2 ^ w := by
  have hb : b.toBitVec.toNat < 2 ^ 8 := b.toBitVec.isLt
  have hpow : 2 ^ 8 ≤ 2 ^ w := Nat.pow_le_pow_right (by omega) hw
  have hor : (v.toNat <<< 8) ||| b.toBitVec.toNat = b.toNat + 256 * v.toNat := by
    rw [← Nat.shiftLeft_add_eq_or_of_lt hb, Nat.shiftLeft_eq, UInt8.toNat_toBitVec]
    omega
  unfold pushed
  rw [BitVec.toNat_or, BitVec.toNat_shiftLeft, BitVec.toNat_setWidth_of_le hw, ← hor,
    Nat.or_mod_two_pow, Nat.mod_eq_of_lt (hb.trans_le hpow)]

/-- The word of some bytes: the last one is shifted in first. -/
def joined (w : Nat) (bs : List UInt8) : BitVec w := bs.foldr (fun b v => pushed v b) 0

theorem toNat_joined (hw : 8 ≤ w) (bs : List UInt8) : (joined w bs).toNat = value bs % 2 ^ w := by
  induction bs with
  | nil => simp [joined, value]
  | cons b bs ih =>
      have hcons : joined w (b :: bs) = pushed (joined w bs) b := rfl
      rw [hcons, toNat_pushed hw, ih, value_cons, Nat.add_mod, Nat.mul_mod, Nat.mod_mod,
        ← Nat.mul_mod, ← Nat.add_mod]

theorem getLsbD_mask (i : Nat) : (0xff#w).getLsbD i = (decide (i < w) && decide (i < 8)) := by
  rw [BitVec.getLsbD_ofNat]
  exact congrArg _ (Nat.testBit_two_pow_sub_one 8 i)

/-- Masking the byte at `8 * k` and shifting it down takes it out. -/
theorem masked_eq_extract {k : Nat} (h : 8 * k + 8 ≤ w) (v : BitVec w) :
    ((v &&& (0xff#w <<< (8 * k))).sshiftRight (8 * k)).setWidth 8 = v.extractLsb' (8 * k) 8 := by
  apply BitVec.eq_of_getLsbD_eq
  intro i hi
  have hlt : 8 * k + i < w := by omega
  have hi' : ¬ w ≤ i := by omega
  rw [BitVec.getLsbD_setWidth, BitVec.getLsbD_sshiftRight, BitVec.getLsbD_and,
    BitVec.getLsbD_shiftLeft, Nat.add_sub_cancel_left, getLsbD_mask, BitVec.getLsbD_extractLsb']
  simp [hi, hi', hlt, Nat.lt_of_not_le hi']

/-- The low eight bits of a byte with its sign are the byte without. -/
theorem signed_and_mask (b : BitVec 8) :
    b.signExtend w &&& 0xff#w = b.setWidth w := by
  apply BitVec.eq_of_getLsbD_eq
  intro i hi
  rw [BitVec.getLsbD_and, BitVec.getLsbD_signExtend, getLsbD_mask, BitVec.getLsbD_setWidth]
  by_cases hbyte : i < 8
  · simp [hi, hbyte]
  · simp [hi, hbyte, BitVec.getLsbD_of_ge b i (Nat.le_of_not_lt hbyte)]

/-- The byte of a word at `8 * k`. -/
def extracted (v : BitVec w) (k : Nat) : UInt8 := ⟨v.extractLsb' (8 * k) 8⟩

theorem toNat_extracted (v : BitVec w) (k : Nat) :
    (extracted v k).toNat = v.toNat / 256 ^ k % 256 := by
  show (v.extractLsb' (8 * k) 8).toNat = _
  rw [BitVec.extractLsb'_toNat, Nat.shiftRight_eq_div_pow, Nat.pow_mul]

/-- **The bytes of a word make its number.** -/
theorem value_extracted (v : BitVec w) (n : Nat) :
    value ((List.range n).map (extracted v)) = v.toNat % 256 ^ n := by
  have hdigits (x n : Nat) :
      Nat.ofDigits 256 ((List.range n).map fun k => x / 256 ^ k % 256) = x % 256 ^ n := by
    induction n generalizing x with
    | zero => simp [Nat.mod_one]
    | succ n ih =>
        have htail : (List.range n).map ((fun k => x / 256 ^ k % 256) ∘ Nat.succ) =
            (List.range n).map fun k => x / 256 / 256 ^ k % 256 := by
          apply List.map_congr_left
          intro k _
          show x / 256 ^ (k + 1) % 256 = _
          rw [Nat.pow_succ', Nat.div_div_eq_div_mul]
        rw [List.range_succ_eq_map, List.map_cons, List.map_map, htail, Nat.ofDigits_cons, ih,
          Nat.pow_succ', Nat.mod_mul, Nat.pow_zero, Nat.div_one]
  unfold value
  rw [List.map_map]
  exact (congrArg _ (List.map_congr_left fun k _ => toNat_extracted v k)).trans (hdigits _ n)

/-- **Bytes are joined to a word exactly when they are what it is taken apart into.** -/
theorem joined_eq_iff {n : Nat} (hn : 0 < n) {bs : List UInt8} (hlength : bs.length = n)
    (v : BitVec (8 * n)) :
    joined (8 * n) bs = v ↔ bs = (List.range n).map (extracted v) := by
  have hpow : 2 ^ (8 * n) = 256 ^ n := Nat.pow_mul 2 8 n
  have hbytes : value ((List.range n).map (extracted v)) = v.toNat := by
    rw [value_extracted, Nat.mod_eq_of_lt (hpow ▸ v.isLt)]
  have hjoined : (joined (8 * n) bs).toNat = value bs := by
    rw [toNat_joined (by omega), Nat.mod_eq_of_lt]
    rw [hpow, ← hlength]
    exact value_lt bs
  rw [← BitVec.toNat_inj, hjoined, ← hbytes]
  constructor
  · exact value_injective (by rw [hlength, List.length_map, List.length_range])
  · exact fun h => congrArg value h

end Bytes
