import TrashClear.SecurityUtil

/-!
# When the file cipher round-trips

Encryption pads every 1024 bytes and doubles them to digits; decryption cuts the
digits every 1024 characters, so it strips the fill of every 512 padded bytes.
The two cuts coincide only for a file of a single short piece:
`decryptFile_encryptFile_iff` says that a text file comes back exactly when it
has at most 511 bytes.

The longer files are settled by a weight.  A byte between 1 and 8 weighs `840 / b`
and every other byte weighs 1, so that every fill weighs 840, whatever its
length.  Encryption adds at most 848 for a piece, decryption takes at least 504
from each full cut and 832 from the last one, and a file of 512 bytes or more is
cut so often that its weight goes down.
-/

namespace TrashClear

open Java Blocks Utf

/-- Weights under which all fills are equally heavy. -/
def fillWeight (b : UInt8) : Nat :=
  if 1 ≤ b.toNat ∧ b.toNat ≤ 8 then 840 / b.toNat else 1

theorem one_le_fillWeight : ∀ b, 1 ≤ fillWeight b :=
  forall_byte (by decide +kernel)

theorem weight_replacement : weight fillWeight (String.utf8EncodeChar replacement) = 3 := by
  decide

/-- Every fill weighs 840. -/
theorem weight_fill {v : UInt8} (hpos : 0 < v.toNat) (hle : v.toNat ≤ 8) :
    weight fillWeight (List.replicate v.toNat v) = 840 := by
  have hall : ∀ v : UInt8, 0 < v.toNat → v.toNat ≤ 8 →
      weight fillWeight (List.replicate v.toNat v) = 840 :=
    forall_byte (by decide +kernel)
  exact hall v hpos hle

/-- A byte string that ends with a fill. -/
def EndsWithFill (bs : List UInt8) : Prop :=
  ∃ (ys : List UInt8) (v : UInt8), 0 < v.toNat ∧ v.toNat ≤ 8 ∧
    bs = ys ++ List.replicate v.toNat v

/-- The fill of a padded text, as the byte it is made of. -/
theorem pad_eq (ys : List UInt8) :
    ∃ v : UInt8, 0 < v.toNat ∧ v.toNat ≤ 8 ∧ pad 8 ys = ys ++ List.replicate v.toNat v := by
  have hpos := fill_pos (n := 8) (by omega) ys.length
  have hle := fill_le 8 ys.length
  have hv : (UInt8.ofNat (fill 8 ys.length)).toNat = fill 8 ys.length :=
    UInt8.toNat_ofNat_of_lt' (by simp only [UInt8.size]; omega)
  refine ⟨UInt8.ofNat (fill 8 ys.length), by omega, by omega, ?_⟩
  rw [hv]
  rfl

theorem weight_pad (ys : List UInt8) :
    weight fillWeight (pad 8 ys) = weight fillWeight ys + 840 := by
  obtain ⟨v, hpos, hle, heq⟩ := pad_eq ys
  rw [heq, weight_append, weight_fill hpos hle]

/-! ## What decryption takes away -/

/-- Stripping a successful piece takes its fill, and re-encoding adds little. -/
theorem weight_stripPiece_le {cs : List Char} {i m : Nat} {ys : List UInt8}
    (hne : ((encode8 cs).drop i).take m ≠ [])
    (h : unpad 8 (((encode8 cs).drop i).take m) = some ys) :
    weight fillWeight (encode8 (decode8 ys)) + 832 ≤
      weight fillWeight (((encode8 cs).drop i).take m) := by
  obtain ⟨v, hpos, hle, heq⟩ := unpad_eq_some hne h
  have hys : ys = ((encode8 cs).drop i).take (min ys.length m) := by
    rw [← List.take_take, heq, List.take_left]
  have hwindow : IsWindow ys := by
    rw [hys]
    exact isWindow_take_drop cs i _
  have hrecode := weight_recode_le one_le_fillWeight weight_replacement hwindow
  rw [heq, weight_append, weight_fill hpos hle]
  omega

/-- A full cut loses at least 504. -/
theorem weight_stripPiece_full {cs : List Char} {i : Nat}
    (hlen : (((encode8 cs).drop i).take 512).length = 512) :
    weight fillWeight (stripPiece (((encode8 cs).drop i).take 512)) + 504 ≤
      weight fillWeight (((encode8 cs).drop i).take 512) := by
  have hne : ((encode8 cs).drop i).take 512 ≠ [] := List.length_pos_iff.mp (by omega)
  unfold stripPiece
  cases h : unpad 8 (((encode8 cs).drop i).take 512) with
  | none =>
      have hweight := length_le_weight one_le_fillWeight (((encode8 cs).drop i).take 512)
      show weight fillWeight [] + 504 ≤ _
      simp only [weight, List.map_nil, List.sum_nil] at hweight ⊢
      omega
  | some ys =>
      have hstrip := weight_stripPiece_le hne h
      show weight fillWeight (encode8 (decode8 ys)) + 504 ≤ _
      omega

/-- The last cut loses at least 832: it holds a whole fill. -/
theorem weight_stripPiece_last {cs : List Char} {i : Nat}
    (hfill : EndsWithFill ((encode8 cs).drop i)) :
    weight fillWeight (stripPiece ((encode8 cs).drop i)) + 832 ≤
      weight fillWeight ((encode8 cs).drop i) := by
  obtain ⟨zs, v, hpos, hle, heq⟩ := hfill
  have hne : (encode8 cs).drop i ≠ [] := by
    intro hnil
    have hlen := congrArg List.length (hnil.symm.trans heq)
    simp at hlen
    omega
  unfold stripPiece
  cases h : unpad 8 ((encode8 cs).drop i) with
  | none =>
      show weight fillWeight [] + 832 ≤ _
      rw [heq, weight_append, weight_fill hpos hle]
      simp only [weight, List.map_nil, List.sum_nil]
      omega
  | some ys =>
      have hwhole : ((encode8 cs).drop i).take ((encode8 cs).drop i).length =
          (encode8 cs).drop i := List.take_length
      have hstrip := weight_stripPiece_le (hwhole.symm ▸ hne) (hwhole.symm ▸ h)
      rw [hwhole] at hstrip
      exact hstrip

/-- **Decryption takes 504 from every full cut and 832 from the last one.** -/
theorem weight_strip_le {cs : List Char} {i : Nat} (hdvd : 8 ∣ ((encode8 cs).drop i).length)
    (hfill : EndsWithFill ((encode8 cs).drop i)) :
    weight fillWeight ((chunks 512 ((encode8 cs).drop i)).flatMap stripPiece) +
        504 * ((((encode8 cs).drop i).length - 1) / 512) + 832 ≤
      weight fillWeight ((encode8 cs).drop i) := by
  induction h : ((encode8 cs).drop i).length using Nat.strongRecOn generalizing i with
  | ind n ih =>
      obtain ⟨zs, v, hpos, hle, heq⟩ := hfill
      have hlen := congrArg List.length heq
      simp only [List.length_append, List.length_replicate] at hlen
      have hne : (encode8 cs).drop i ≠ [] := List.length_pos_iff.mp (by omega)
      by_cases hshort : ((encode8 cs).drop i).length ≤ 512
      · have hlast := weight_stripPiece_last ⟨zs, v, hpos, hle, heq⟩
        rw [chunks_of_length_le hne hshort, List.flatMap_singleton]
        have hzero : (n - 1) / 512 = 0 := by omega
        rw [hzero]
        omega
      · -- cut one full piece; the rest ends with the same fill
        have hdrop : ((encode8 cs).drop i).drop 512 = (encode8 cs).drop (i + 512) := by
          rw [List.drop_drop]
        have hrestlen : ((encode8 cs).drop (i + 512)).length = n - 512 := by
          rw [← hdrop, List.length_drop, h]
        have hrestfill : EndsWithFill ((encode8 cs).drop (i + 512)) := by
          refine ⟨zs.drop 512, v, hpos, hle, ?_⟩
          rw [← hdrop, heq, List.drop_append_of_le_length (by omega)]
        have hrest := ih (n - 512) (by omega) (by rw [hrestlen]; omega) hrestfill hrestlen
        have htake : (((encode8 cs).drop i).take 512).length = 512 := by
          rw [List.length_take]
          omega
        have hfull := weight_stripPiece_full htake
        have hcut : weight fillWeight ((encode8 cs).drop i) =
            weight fillWeight (((encode8 cs).drop i).take 512) +
              weight fillWeight ((encode8 cs).drop (i + 512)) := by
          rw [← weight_append, ← hdrop, List.take_append_drop]
        rw [chunks_of_ne_nil (by omega) hne, List.flatMap_cons, weight_append, hdrop, hcut]
        have hcount : (n - 1) / 512 = (n - 512 - 1) / 512 + 1 := by omega
        rw [hcount]
        omega

/-! ## What encryption adds -/

/-- The padded pieces of a text are a text. -/
theorem exists_plainPieces_eq (file : List UInt8) : ∃ cs, plainPieces file = encode8 cs := by
  unfold plainPieces
  induction chunks 1024 file with
  | nil => exact ⟨[], rfl⟩
  | cons buff rest ih =>
      obtain ⟨cs, hcs⟩ := ih
      obtain ⟨v, _, hle, heq⟩ := pad_eq (encode8 (decode8 buff))
      have hchar : ∀ v : UInt8, v.toNat ≤ 8 →
          String.utf8EncodeChar (Char.ofNat v.toNat) = [v] :=
        forall_byte (by decide +kernel)
      have hrun (k : Nat) :
          encode8 (List.replicate k (Char.ofNat v.toNat)) = List.replicate k v := by
        induction k with
        | zero => rfl
        | succ k ihk =>
            rw [List.replicate_succ, List.replicate_succ, ← ihk]
            simp [encode8, hchar v hle]
      refine ⟨decode8 buff ++ List.replicate v.toNat (Char.ofNat v.toNat) ++ cs, ?_⟩
      rw [List.flatMap_cons, hcs, plainPiece, heq, encode8_append, encode8_append, hrun]

/-- **Encryption adds at most 848 for every piece**, and at least 8 bytes: the
padded pieces of a text of `k` full pieces and a rest. -/
theorem plainPieces_bounds {cs : List Char} {i : Nat} (hne : (encode8 cs).drop i ≠ []) :
    weight fillWeight (plainPieces ((encode8 cs).drop i)) ≤
        weight fillWeight ((encode8 cs).drop i) +
          848 * ((((encode8 cs).drop i).length - 1) / 1024 + 1) ∧
      1032 * ((((encode8 cs).drop i).length - 1) / 1024) + 8 ≤
        (plainPieces ((encode8 cs).drop i)).length ∧
      ((encode8 cs).drop i).length < (plainPieces ((encode8 cs).drop i)).length ∧
      EndsWithFill (plainPieces ((encode8 cs).drop i)) := by
  have hpos := List.length_pos_iff.mpr hne
  induction h : ((encode8 cs).drop i).length using Nat.strongRecOn generalizing i with
  | ind n ih =>
      have hwindow := isWindow_take_drop cs i 1024
      have hlonger := length_le_recode hwindow
      have hheavier := weight_recode_le one_le_fillWeight weight_replacement hwindow
      have hpad := length_pad (n := 8) (by omega)
        (encode8 (decode8 (((encode8 cs).drop i).take 1024)))
      have hweight := weight_pad (encode8 (decode8 (((encode8 cs).drop i).take 1024)))
      by_cases hshort : ((encode8 cs).drop i).length ≤ 1024
      · have hone : plainPieces ((encode8 cs).drop i) = plainPiece ((encode8 cs).drop i) := by
          rw [plainPieces, chunks_of_length_le hne hshort, List.flatMap_singleton]
        rw [List.take_of_length_le hshort] at hlonger hheavier hpad hweight
        have hzero : (n - 1) / 1024 = 0 := by omega
        rw [hone, hzero]
        unfold plainPiece
        refine ⟨by omega, by omega, by omega, ?_⟩
        obtain ⟨v, hvpos, hle, heq⟩ := pad_eq (encode8 (decode8 ((encode8 cs).drop i)))
        exact ⟨_, v, hvpos, hle, heq⟩
      · have hdrop : ((encode8 cs).drop i).drop 1024 = (encode8 cs).drop (i + 1024) := by
          rw [List.drop_drop]
        have hrestlen : ((encode8 cs).drop (i + 1024)).length = n - 1024 := by
          rw [← hdrop, List.length_drop, h]
        have hrestne : (encode8 cs).drop (i + 1024) ≠ [] := List.length_pos_iff.mp (by omega)
        obtain ⟨hw, hl, hlt, ys, v, hvpos, hle, heq⟩ :=
          ih (n - 1024) (by omega) hrestne (by omega) hrestlen
        have hcons : plainPieces ((encode8 cs).drop i) =
            plainPiece (((encode8 cs).drop i).take 1024) ++
              plainPieces ((encode8 cs).drop (i + 1024)) := by
          rw [plainPieces, chunks_of_ne_nil (by omega) hne, List.flatMap_cons, hdrop, plainPieces]
        have hcut : weight fillWeight ((encode8 cs).drop i) =
            weight fillWeight (((encode8 cs).drop i).take 1024) +
              weight fillWeight ((encode8 cs).drop (i + 1024)) := by
          rw [← weight_append, ← hdrop, List.take_append_drop]
        have htake : (((encode8 cs).drop i).take 1024).length = 1024 := by
          rw [List.length_take]
          omega
        have hcount : (n - 1) / 1024 = (n - 1024 - 1) / 1024 + 1 := by omega
        rw [hcons, hcut, hcount, weight_append, List.length_append]
        unfold plainPiece
        refine ⟨by omega, by omega, by omega, ?_⟩
        refine ⟨pad 8 (encode8 (decode8 (((encode8 cs).drop i).take 1024))) ++ ys, v, hvpos, hle,
          ?_⟩
        rw [heq, List.append_assoc]

/-! ## The round trip -/

/-- A file of at most 511 bytes is one piece and one cut. -/
theorem strip_plainPieces_of_short {cs : List Char} (h : (encode8 cs).length ≤ 511) :
    (chunks 512 (plainPieces (encode8 cs))).flatMap stripPiece = encode8 cs := by
  by_cases hne : encode8 cs = []
  · rw [hne]
    rfl
  · have hone : plainPieces (encode8 cs) = pad 8 (encode8 cs) := by
      rw [plainPieces, chunks_of_length_le hne (by omega), List.flatMap_singleton, plainPiece,
        decode8_encode8]
    have hlen := length_pad (n := 8) (by omega) (encode8 cs)
    have hcut : pad 8 (encode8 cs) ≠ [] := List.length_pos_iff.mp (by omega)
    rw [hone, chunks_of_length_le hcut (by omega), List.flatMap_singleton, stripPiece,
      unpad_pad (by omega) (by omega)]
    exact congrArg encode8 (decode8_encode8 cs)

/-- A longer file comes back lighter. -/
theorem weight_strip_plainPieces_lt {cs : List Char} (h : 512 ≤ (encode8 cs).length) :
    weight fillWeight ((chunks 512 (plainPieces (encode8 cs))).flatMap stripPiece) <
      weight fillWeight (encode8 cs) := by
  have hne : (encode8 cs).drop 0 ≠ [] := List.length_pos_iff.mp (by simpa using by omega)
  obtain ⟨hweight, hlen, hlonger, hfill⟩ := plainPieces_bounds hne
  obtain ⟨ps, hps⟩ := exists_plainPieces_eq (encode8 cs)
  have hdvd := dvd_length_plainPieces (encode8 cs)
  rw [List.drop_zero] at hweight hlen hlonger hfill
  rw [hps] at hweight hlen hlonger hfill hdvd ⊢
  rw [← List.drop_zero (l := encode8 ps)] at hdvd hfill
  have hstrip := weight_strip_le hdvd hfill
  rw [List.drop_zero] at hstrip
  omega

/-- **The file cipher round-trips exactly on files of at most 511 bytes**, for
every key and every block cipher. -/
theorem decryptFile_encryptFile_iff (jca : Provider) (cs : List Char) (key : JString) :
    decryptFile jca (encryptFile jca (encode8 cs) key) key = encode8 cs ↔
      (encode8 cs).length ≤ 511 := by
  rw [decryptFile_encryptFile]
  constructor
  · intro h
    by_contra hlong
    have hlighter := weight_strip_plainPieces_lt (show 512 ≤ (encode8 cs).length by omega)
    rw [h] at hlighter
    omega
  · exact strip_plainPieces_of_short

/-- A file of 512 letters does not come back. -/
theorem decryptFile_encryptFile_letters :
    decryptFile plainProvider
        (encryptFile plainProvider (encode8 (List.replicate 512 'a')) (js "key")) (js "key") ≠
      encode8 (List.replicate 512 'a') := by
  have hlen : 512 ≤ (encode8 (List.replicate 512 'a')).length := by decide +kernel
  have hlighter := weight_strip_plainPieces_lt hlen
  intro h
  rw [decryptFile_encryptFile] at h
  rw [h] at hlighter
  omega

end TrashClear
