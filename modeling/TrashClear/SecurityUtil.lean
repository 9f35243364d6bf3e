import TrashClear.ByteConvertor

/-!
# String and file encryption

`desEncrypt` and `desDecrypt` of strings: the MD5 of the key, cut to 8 bytes,
keys a block cipher, and the encrypted bytes are written in hexadecimal.  Every
exception inside is answered by the empty string, also the one of a text that is
too long for its digits.  `desDecrypt_desEncrypt` is the round trip, for every other
text and every key.

The file versions read 1024 bytes at a time and treat every piece as a string of
its own.  What they compute is `plainPieces` cut again and stripped piece by
piece (`decryptFile_encryptFile`): the cipher itself cancels out.
-/

namespace TrashClear

open Java Blocks Run

variable (jca : Provider)

/-- `try { return run; } catch (Exception e) { } return otherwise;` -/
def orElse {α : Type} (otherwise : α) : Except Throwable α → α
  | .ok a => a
  | .error _ => otherwise

def desEncrypt (plain key : JString) : JString :=
  orElse (js "") do
    let dks ← desKeySpec (jca.md5 (getBytes key)).toList
    bytesToHexString (encryptFinal (jca.des dks) (getBytes plain))

def desDecrypt (encrypted key : JString) : JString :=
  orElse (js "") do
    let dks ← desKeySpec (jca.md5 (getBytes key)).toList
    let decryptedData ← decryptFinal (jca.des dks) (← hexStringToBytes encrypted)
    return newString decryptedData

/-- The key block of a key string. -/
def keyBlock (key : JString) : Block := ⟨(jca.md5 (getBytes key)).toList.take 8, by simp⟩

/-- The permutation that a key string selects. -/
def keyedCipher (key : JString) : Equiv.Perm Block := jca.des (keyBlock jca key)

/-- A digest is long enough for a key. -/
theorem desKeySpec_md5 (key : JString) :
    desKeySpec (jca.md5 (getBytes key)).toList = .ok (keyBlock jca key) := by
  unfold desKeySpec
  rw [dif_pos (by simp)]
  rfl

/-- The encrypted bytes of a text fit twice in an array. -/
def Encryptable (plain : JString) : Prop := (pad 8 (getBytes plain)).length < 2 ^ 30

instance (plain : JString) : Decidable (Encryptable plain) := by
  unfold Encryptable
  infer_instance

theorem length_encryptFinal_pad (perm : Equiv.Perm Block) (data : List UInt8) :
    (encryptFinal perm data).length = (pad 8 data).length := by
  rw [length_encryptFinal, length_pad (by omega)]

/-- The digits of the encrypted bytes, if there are any. -/
theorem desEncrypt_eq_orElse (plain key : JString) :
    desEncrypt jca plain key =
      orElse (js "") (hexEncode (encryptFinal (keyedCipher jca key) (getBytes plain))) := by
  unfold desEncrypt
  rw [desKeySpec_md5, ok_bind, bytesToHexString_eq_hexEncode]
  rfl

theorem desEncrypt_eq {plain : JString} (h : Encryptable plain) (key : JString) :
    desEncrypt jca plain key =
      hexDigits (encryptFinal (keyedCipher jca key) (getBytes plain)) := by
  rw [desEncrypt_eq_orElse, hexEncode_of_lt (by rwa [length_encryptFinal_pad])]
  rfl

/-- The exception of a text that is too long is swallowed. -/
theorem desEncrypt_of_long {plain : JString} (h : ¬ Encryptable plain)
    (harray : (pad 8 (getBytes plain)).length < 2 ^ 31) (key : JString) :
    desEncrypt jca plain key = js "" := by
  have hlong : 2 ^ 30 ≤ (encryptFinal (keyedCipher jca key) (getBytes plain)).length := by
    rw [length_encryptFinal_pad]
    exact not_lt.mp h
  rw [desEncrypt_eq_orElse, hexEncode_of_le hlong (by rwa [length_encryptFinal_pad])]
  rfl

/-- What was read from bytes can be encrypted unless they are very many. -/
theorem encryptable_newString {bytes : List UInt8} (h : bytes.length ≤ 2 ^ 20) :
    Encryptable (newString bytes) := by
  have hlength := length_getBytes_newString_le bytes
  unfold Encryptable
  rw [length_pad (by omega)]
  omega

/-- Decrypting the digits of encrypted whole blocks removes the fill, or gives
the empty string where there is none. -/
theorem desDecrypt_hexDigits (key : JString) {data : List UInt8} (h : 8 ∣ data.length) :
    desDecrypt jca (hexDigits (codeBook (keyedCipher jca key) data)) key =
      match unpad 8 data with
      | some plain => newString plain
      | none => js "" := by
  unfold desDecrypt
  rw [desKeySpec_md5, ok_bind, hexStringToBytes_hexDigits, ok_bind]
  show orElse _ (decryptFinal (keyedCipher jca key) _ >>= _) = _
  rw [decryptFinal_codeBook _ h]
  cases unpad 8 data with
  | none => rfl
  | some plain => rfl

/-- A decrypted text is not much longer than its digits. -/
theorem length_getBytes_desDecrypt_le (encrypted key : JString) :
    (getBytes (desDecrypt jca encrypted key)).length ≤ 2 * encrypted.length := by
  unfold desDecrypt
  rw [desKeySpec_md5, ok_bind]
  cases hread : hexStringToBytes encrypted with
  | error e => exact Nat.zero_le _
  | ok bytes =>
      have hbytes := length_hexStringToBytes hread
      rw [ok_bind]
      cases hplain : decryptFinal (jca.des (keyBlock jca key)) bytes with
      | error e => exact Nat.zero_le _
      | ok plain =>
          have hlength := length_decryptFinal_le hplain
          have hstring := length_getBytes_newString_le plain
          show (getBytes (newString plain)).length ≤ _
          omega

/-- The encrypted text has 16 digits for every started block. -/
theorem length_desEncrypt {plain : JString} (h : Encryptable plain) (key : JString) :
    (desEncrypt jca plain key).length = 16 * ((getBytes plain).length / 8 + 1) := by
  rw [desEncrypt_eq jca h, length_hexDigits, length_encryptFinal]
  omega

/-- What is answered for any text: the digits, or the empty string. -/
theorem desEncrypt_cases (plain key : JString) :
    desEncrypt jca plain key =
        hexDigits (encryptFinal (keyedCipher jca key) (getBytes plain)) ∨
      (desEncrypt jca plain key = js "" ∧ ¬ Encryptable plain) := by
  by_cases h : Encryptable plain
  · exact Or.inl (desEncrypt_eq jca h key)
  · rw [desEncrypt_eq_orElse]
    rcases hexEncode_cases (encryptFinal (keyedCipher jca key) (getBytes plain)) with hok | herror
    · rw [hok]
      exact Or.inl rfl
    · rw [herror]
      exact Or.inr ⟨rfl, h⟩

theorem isLowerHex_desEncrypt (plain key : JString) :
    ∀ u ∈ desEncrypt jca plain key, isLowerHex u := by
  rcases desEncrypt_cases jca plain key with hdigits | ⟨hempty, -⟩
  · rw [hdigits]
    exact isLowerHex_hexDigits _
  · rw [hempty]
    exact fun u hu => absurd hu (List.not_mem_nil)

/-- An encrypted text is not the text. -/
theorem desEncrypt_ne (plain key : JString) : desEncrypt jca plain key ≠ plain := by
  intro hsame
  rcases desEncrypt_cases jca plain key with hdigits | ⟨hempty, hlong⟩
  · have hbytes := length_le_getBytes plain
    have hlength := length_hexDigits (encryptFinal (keyedCipher jca key) (getBytes plain))
    rw [← hdigits, hsame, length_encryptFinal] at hlength
    omega
  · rw [← hsame, hempty] at hlong
    exact hlong (by decide)

/-- **The string cipher round-trips** for every key exactly when the padded text has fewer
than 2^30 bytes; what is stored is lower-case hexadecimal, a positive multiple of 16
digits. -/
theorem desDecrypt_desEncrypt {cs : List Char} (key : JString)
    (harray : (pad 8 (getBytes (Utf.encode16 cs))).length < 2 ^ 31) :
    desDecrypt jca (desEncrypt jca (Utf.encode16 cs) key) key = Utf.encode16 cs ∧
        (∀ u ∈ desEncrypt jca (Utf.encode16 cs) key, isLowerHex u) ∧
        0 < (desEncrypt jca (Utf.encode16 cs) key).length ∧
        16 ∣ (desEncrypt jca (Utf.encode16 cs) key).length ↔
      (pad 8 (getBytes (Utf.encode16 cs))).length < 2 ^ 30 := by
  constructor
  · intro hall
    by_contra hlong
    rw [desEncrypt_of_long jca hlong harray] at hall
    exact absurd hall.2.2.1 (lt_irrefl 0)
  · intro h
    have h : Encryptable (Utf.encode16 cs) := h
    refine ⟨?_, ?_, ?_, ?_⟩
    · have hpad := dvd_length_pad (n := 8) (by omega) (getBytes (Utf.encode16 cs))
      rw [desEncrypt_eq jca h, encryptFinal, desDecrypt_hexDigits jca key hpad,
        unpad_pad (by omega) (by omega)]
      exact newString_getBytes cs
    · exact isLowerHex_desEncrypt jca _ key
    · rw [length_desEncrypt jca h]
      omega
    · rw [length_desEncrypt jca h]
      exact Nat.dvd_mul_right _ _

/-- The round trip of one letter. -/
theorem desDecrypt_desEncrypt_letter :
    desDecrypt plainProvider (desEncrypt plainProvider (Utf.encode16 ['a']) (js "k")) (js "k") =
          Utf.encode16 ['a'] ∧
        (∀ u ∈ desEncrypt plainProvider (Utf.encode16 ['a']) (js "k"), isLowerHex u) ∧
        0 < (desEncrypt plainProvider (Utf.encode16 ['a']) (js "k")).length ∧
        16 ∣ (desEncrypt plainProvider (Utf.encode16 ['a']) (js "k")).length ↔
      (pad 8 (getBytes (Utf.encode16 ['a']))).length < 2 ^ 30 :=
  desDecrypt_desEncrypt plainProvider (js "k") (by decide)

/-- A text of 2^30 letters is encrypted to nothing. -/
theorem not_desDecrypt_desEncrypt_long :
    let text := Utf.encode16 (List.replicate (2 ^ 30) 'a')
    ¬ (desDecrypt plainProvider (desEncrypt plainProvider text (js "k")) (js "k") = text ∧
      (∀ u ∈ desEncrypt plainProvider text (js "k"), isLowerHex u) ∧
      0 < (desEncrypt plainProvider text (js "k")).length ∧
      16 ∣ (desEncrypt plainProvider text (js "k")).length) := by
  have hbytes (n : Nat) : (getBytes (Utf.encode16 (List.replicate n 'a'))).length = n := by
    rw [getBytes_encode16]
    induction n with
    | zero => rfl
    | succ n ih => exact congrArg (· + 1) ih
  intro text h
  have hlength : (pad 8 (getBytes text)).length = 8 * (2 ^ 30 / 8 + 1) := by
    rw [length_pad (by omega), hbytes]
  have hlong : ¬ Encryptable text := by
    unfold Encryptable
    rw [hlength]
    omega
  rw [desEncrypt_of_long plainProvider hlong (by rw [hlength]; omega)] at h
  exact absurd h.2.2.1 (lt_irrefl 0)

/-! ## Files

`in.read(buff)` fills its 1024 bytes until the end of the file, and a
`FileWriter` writes the bytes of the strings one after the other. -/

def encryptFile (file : List UInt8) (key : JString) : List UInt8 :=
  (chunks 1024 file).flatMap fun buff => getBytes (desEncrypt jca (newString buff) key)

def decryptFile (encryptedFile : List UInt8) (key : JString) : List UInt8 :=
  (chunks 1024 encryptedFile).flatMap fun buff => getBytes (desDecrypt jca (newString buff) key)

/-- The bytes of a piece after the conversion to a string, padded. -/
def plainPiece (buff : List UInt8) : List UInt8 := pad 8 (Utf.encode8 (Utf.decode8 buff))

/-- All padded pieces of a file: what the cipher is applied to. -/
def plainPieces (file : List UInt8) : List UInt8 := (chunks 1024 file).flatMap plainPiece

/-- What decrypting one piece of whole blocks writes. -/
def stripPiece (piece : List UInt8) : List UInt8 :=
  match unpad 8 piece with
  | some plain => Utf.encode8 (Utf.decode8 plain)
  | none => []

theorem dvd_length_plainPieces (file : List UInt8) : 8 ∣ (plainPieces file).length := by
  unfold plainPieces
  induction chunks 1024 file with
  | nil => simp
  | cons buff rest ih =>
      rw [List.flatMap_cons, List.length_append]
      exact Nat.dvd_add (dvd_length_pad (by omega) _) ih

/-- The encrypted file: the digits of the encrypted pieces. -/
theorem encryptFile_eq (file : List UInt8) (key : JString) :
    encryptFile jca file key =
      getBytes (hexDigits (codeBook (keyedCipher jca key) (plainPieces file))) := by
  have hascii (bytes : List UInt8) : ∀ u ∈ hexDigits bytes, u < 0x80 :=
    fun u hu => lt_of_isLowerHex (isLowerHex_hexDigits bytes u hu)
  have hpieces : ∀ buff ∈ chunks 1024 file, buff.length ≤ 1024 :=
    fun buff hbuff => length_le_of_mem_chunks hbuff
  unfold encryptFile plainPieces
  generalize chunks 1024 file = pieces at hpieces ⊢
  induction pieces with
  | nil => rfl
  | cons buff rest ih =>
      obtain ⟨hbuff, hrest⟩ := List.forall_mem_cons.mp hpieces
      have hpiece : 8 ∣ (plainPiece buff).length := dvd_length_pad (by omega) _
      have hshort : Encryptable (newString buff) := encryptable_newString (by omega)
      rw [List.flatMap_cons, ih hrest, List.flatMap_cons, codeBook_append (by omega) _ hpiece,
        desEncrypt_eq jca hshort, getBytes_newString, getBytes_ascii (hascii _),
        getBytes_ascii (hascii _), getBytes_ascii (hascii _), ← List.map_append]
      unfold hexDigits
      rw [List.flatMap_append]
      rfl

/-- **The cipher cancels out**: decrypting an encrypted file cuts the padded
pieces every 512 bytes and strips each cut on its own. -/
theorem decryptFile_encryptFile (file : List UInt8) (key : JString) :
    decryptFile jca (encryptFile jca file key) key =
      (chunks 512 (plainPieces file)).flatMap stripPiece := by
  have hascii (bytes : List UInt8) : ∀ u ∈ hexDigits bytes, u < 0x80 :=
    fun u hu => lt_of_isLowerHex (isLowerHex_hexDigits bytes u hu)
  have hdigits (bytes : List UInt8) : getBytes (hexDigits bytes) =
      bytes.flatMap fun (b : UInt8) => getBytes (hexDigits [b]) := by
    rw [getBytes_ascii (hascii _), hexDigits, List.map_flatMap]
    apply List.flatMap_congr
    intro b _
    rw [getBytes_ascii (hascii [b])]
    rfl
  have htwo (b : UInt8) : (getBytes (hexDigits [b])).length = 2 := by
    rw [getBytes_ascii (hascii [b])]
    rfl
  have hcut : chunks 1024 (encryptFile jca file key) =
      ((chunks 512 (plainPieces file)).map (codeBook (keyedCipher jca key))).map
        fun bytes => getBytes (hexDigits bytes) := by
    rw [encryptFile_eq, hdigits,
      show 1024 = 2 * 512 from rfl, chunks_flatMap (by omega) (by omega) htwo,
      chunks_codeBook (by omega) (by omega) (by omega) _ (dvd_length_plainPieces file)]
    apply List.map_congr_left
    intro bytes _
    exact (hdigits bytes).symm
  unfold decryptFile
  rw [hcut, List.map_map, List.flatMap_map]
  apply List.flatMap_congr
  intro piece hpiece
  have hblocks :=
    dvd_length_of_mem_chunks (by omega) (by omega) (dvd_length_plainPieces file) hpiece
  show getBytes (desDecrypt jca (newString (getBytes (hexDigits _))) key) = stripPiece piece
  rw [newString_getBytes_ascii (hascii _), desDecrypt_hexDigits jca key hblocks]
  unfold stripPiece
  cases unpad 8 piece with
  | none => rfl
  | some plain => exact getBytes_newString plain

end TrashClear
