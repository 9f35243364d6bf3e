import Mathlib.Logic.Equiv.Defs
import TrashClear.Java.Text
import TrashClear.Library.Blocks
import TrashClear.Library.Run

/-!
# Digests and ciphers

What the code uses of `java.security`, `javax.crypto` and `commons-codec`.  The
algorithms themselves are parameters: a message digest gives 16 bytes for any
bytes, and DES is a permutation of 8-byte blocks for every 8-byte key.  How they
are applied is modelled in full: `DESKeySpec` takes the first 8 bytes of a key,
`Cipher.getInstance("DES")` is electronic code book mode with PKCS5 padding, and
`Hex.encode` writes lower-case digits.

`decrypt_encrypt` is the round trip of the cipher over bytes.
-/

namespace Java

open Blocks Run

/-- `MessageDigest.getInstance("MD5").digest`. -/
abbrev MessageDigest := List UInt8 → List.Vector UInt8 16

abbrev Block := List.Vector UInt8 8

/-- The block permutation of every key. -/
abbrev BlockCipher := Block → Equiv.Perm Block

/-- The algorithms a runtime provides. -/
structure Provider where
  md5 : MessageDigest
  des : BlockCipher

/-- A provider whose digests and block permutations do nothing. -/
def plainProvider : Provider where
  md5 _ := ⟨List.replicate 16 0, rfl⟩
  des _ := Equiv.refl _

/-! ## Hexadecimal digits -/

def hexTable : JString := js "0123456789abcdef"

def isLowerHex (u : UInt16) : Bool := u ∈ hexTable

/-- The digits of bytes. -/
def hexDigits (bytes : List UInt8) : JString :=
  bytes.flatMap fun (b : UInt8) =>
    [hexTable.getD (b >>> 4).toNat 0, hexTable.getD (b &&& 0x0f).toNat 0]

/-- `new String(new Hex().encode(bytes))`; the array for the digits has `length << 1`
characters. -/
def hexEncode (bytes : List UInt8) : Except Throwable JString := do
  newCharArray (Int32.ofNat bytes.length <<< 1)
  return hexDigits bytes

/-- Fewer than 2^30 bytes have digits. -/
theorem hexEncode_of_lt {bytes : List UInt8} (h : bytes.length < 2 ^ 30) :
    hexEncode bytes = .ok (hexDigits bytes) := by
  unfold hexEncode
  rw [shiftLeft_one, newCharArray_of_lt h]
  rfl

/-- A longer array has none. -/
theorem hexEncode_of_le {bytes : List UInt8} (h : 2 ^ 30 ≤ bytes.length)
    (harray : bytes.length < 2 ^ 31) : hexEncode bytes = .error .negativeArraySize := by
  unfold hexEncode
  rw [shiftLeft_one, newCharArray_of_le h harray]
  rfl

/-- There are no other answers. -/
theorem hexEncode_cases (bytes : List UInt8) :
    hexEncode bytes = .ok (hexDigits bytes) ∨ hexEncode bytes = .error .negativeArraySize := by
  unfold hexEncode newCharArray
  split
  · exact Or.inr rfl
  · exact Or.inl rfl

theorem length_hexDigits (bytes : List UInt8) : (hexDigits bytes).length = 2 * bytes.length := by
  induction bytes with
  | nil => rfl
  | cons b bytes ih =>
      simp only [hexDigits, List.flatMap_cons, List.length_append, List.length_cons,
        List.length_nil] at ih ⊢
      omega

theorem isLowerHex_hexDigits (bytes : List UInt8) : ∀ u ∈ hexDigits bytes, isLowerHex u := by
  have hbyte : ∀ b : UInt8, isLowerHex (hexTable.getD (b >>> 4).toNat 0) ∧
      isLowerHex (hexTable.getD (b &&& 0x0f).toNat 0) :=
    Utf.forall_byte (by decide +kernel)
  intro u hu
  obtain ⟨b, _, hub⟩ := List.mem_flatMap.mp hu
  simp only [List.mem_cons, List.not_mem_nil, or_false] at hub
  rcases hub with rfl | rfl
  · exact (hbyte b).1
  · exact (hbyte b).2

/-- Hexadecimal digits are ASCII. -/
theorem lt_of_isLowerHex {u : UInt16} (h : isLowerHex u) : u < 0x80 := by
  have hall : ∀ v ∈ hexTable, v < 0x80 := ascii_of_all (by decide)
  exact hall u (by simpa [isLowerHex] using h)

/-- A digest written in 32 hexadecimal digits. -/
structure HexDigest where
  md5Hex : JString → JString
  length_eq : ∀ s, (md5Hex s).length = 32
  hex : ∀ s, ∀ u ∈ md5Hex s, isLowerHex u

/-- The digits of a digest of the bytes of a string; 16 bytes have digits
(`hexEncode_digest`). -/
def MessageDigest.hexDigest (md5 : MessageDigest) : HexDigest where
  md5Hex src := hexDigits (md5 (getBytes src)).toList
  length_eq src := by rw [length_hexDigits, List.Vector.toList_length]
  hex src := isLowerHex_hexDigits _

theorem hexEncode_digest (md5 : MessageDigest) (src : JString) :
    hexEncode (md5 (getBytes src)).toList = .ok (md5.hexDigest.md5Hex src) :=
  hexEncode_of_lt (by rw [List.Vector.toList_length]; omega)

/-! ## The cipher -/

/-- `new DESKeySpec(key)`: the first 8 bytes, or `InvalidKeyException`. -/
def desKeySpec (key : List UInt8) : Except Throwable Block :=
  if h : 8 ≤ key.length then .ok ⟨key.take 8, by simp [h]⟩ else .error .invalidKey

/-- `cipher.doFinal` in encryption mode. -/
def encryptFinal (perm : Equiv.Perm Block) (data : List UInt8) : List UInt8 :=
  codeBook perm (pad 8 data)

/-- `cipher.doFinal` in decryption mode. -/
def decryptFinal (perm : Equiv.Perm Block) (data : List UInt8) : Except Throwable (List UInt8) :=
  if data.length % 8 = 0 then
    match unpad 8 (codeBook perm.symm data) with
    | some plain => .ok plain
    | none => .error .badPadding
  else .error .illegalBlockSize

theorem length_encryptFinal (perm : Equiv.Perm Block) (data : List UInt8) :
    (encryptFinal perm data).length = 8 * (data.length / 8 + 1) := by
  unfold encryptFinal
  rw [length_codeBook (by omega) perm (dvd_length_pad (by omega) data), length_pad (by omega)]

/-- Decrypting whole blocks that were encrypted in code book mode. -/
theorem decryptFinal_codeBook (perm : Equiv.Perm Block) {data : List UInt8}
    (h : 8 ∣ data.length) :
    decryptFinal perm (codeBook perm data) =
      match unpad 8 data with
      | some plain => .ok plain
      | none => .error .badPadding := by
  have hlen : (codeBook perm data).length % 8 = 0 := by
    rw [length_codeBook (by omega) perm h]
    exact Nat.mod_eq_zero_of_dvd h
  unfold decryptFinal
  rw [if_pos hlen, codeBook_codeBook (by omega) (fun v => perm.symm_apply_apply v) h]

/-- Decrypting makes nothing longer. -/
theorem length_decryptFinal_le {perm : Equiv.Perm Block} {data plain : List UInt8}
    (h : decryptFinal perm data = .ok plain) : plain.length ≤ data.length := by
  unfold decryptFinal at h
  split at h
  next hblocks =>
    split at h
    next found hunpad =>
      obtain rfl := Except.ok.inj h
      have hlength := length_unpad_le hunpad
      rwa [length_codeBook (by omega) perm.symm (Nat.dvd_of_mod_eq_zero hblocks)] at hlength
    next => cases h
  next => cases h

/-- **Round trip.**  Every byte string survives encryption and decryption. -/
theorem decrypt_encrypt (perm : Equiv.Perm Block) (data : List UInt8) :
    decryptFinal perm (encryptFinal perm data) = .ok data := by
  unfold encryptFinal
  rw [decryptFinal_codeBook perm (dvd_length_pad (by omega) data),
    unpad_pad (by omega) (by omega)]

end Java
