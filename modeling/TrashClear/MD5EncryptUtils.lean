import TrashClear.Java.Security
import TrashClear.Library.Weave

/-!
# Salted MD5 tokens

`encrypt` lower-cases a text, appends a salt, and weaves the 32 digits of the MD5
with the 16 of the salt; `verify` takes a token apart and recomputes the digest.
The two loops run over the same indices (`encrypt_eq`, `verify_weave`), so only
the texts they hash can differ: `verify` does not lower-case.

* `verify_encrypt_iff` says for which texts it accepts what was issued for them:
  those that lower-casing leaves alone, with a salt source whose digits fit in an array.
* `verify_decides_iff` says for which strings it decides whether they are tokens:
  it reads 48 characters, whatever the length is.
-/

namespace TrashClear

open Java Run Weave

variable (folding : CaseFolding) (H : HexDigest)

def fixedLengthHexSalt (salt : JString) : Except Throwable JString := do
  let hex ← hexEncode (getBytes salt)
  if hex.length ≥ 16 then return hex.take 16
  else return hex ++ List.replicate (16 - hex.length) 0x30

/-- The digits that a salt source gives. -/
def saltDigits (salt : JString) : JString :=
  (hexDigits (getBytes salt) ++ List.replicate 16 0x30).take 16

theorem length_saltDigits (salt : JString) : (saltDigits salt).length = 16 := by
  unfold saltDigits
  rw [List.length_take, List.length_append, List.length_replicate]
  omega

/-- The salt of a source whose digits fit in an array. -/
theorem fixedLengthHexSalt_of_ok {salt : JString}
    (h : hexEncode (getBytes salt) = .ok (hexDigits (getBytes salt))) :
    fixedLengthHexSalt salt = .ok (saltDigits salt) := by
  unfold fixedLengthHexSalt saltDigits
  rw [h, ok_bind, List.take_append]
  split
  next hlong =>
    rw [Nat.sub_eq_zero_of_le hlong, List.take_zero, List.append_nil]
    rfl
  next hshort =>
    rw [List.take_of_length_le (by omega), List.take_replicate, Nat.min_eq_left (by omega)]
    rfl

/-- These are the sources of fewer than 2^30 bytes. -/
theorem fixedLengthHexSalt_of_lt {salt : JString} (h : (getBytes salt).length < 2 ^ 30) :
    fixedLengthHexSalt salt = .ok (saltDigits salt) :=
  fixedLengthHexSalt_of_ok (hexEncode_of_lt h)

/-- A longer one is an exception. -/
theorem fixedLengthHexSalt_of_le {salt : JString} (h : 2 ^ 30 ≤ (getBytes salt).length)
    (harray : (getBytes salt).length < 2 ^ 31) :
    fixedLengthHexSalt salt = .error .negativeArraySize := by
  unfold fixedLengthHexSalt
  rw [hexEncode_of_le h harray]
  rfl

/-- A salt source whose digits fit in an array, such as the constant `DES_KEY`. -/
structure SaltSource where
  text : JString
  fits : (getBytes text).length < 2 ^ 30

/-- `data + salt`, where a null reference prints as `null`. -/
def concat (data : Option JString) (salt : JString) : JString := data.getD (js "null") ++ salt

/-- The indices of `for (int i = 0; i < 48; i += 3)`. -/
def tokenIndices : List Nat := List.range' 0 16 3

/-- One turn of the loop of `encrypt`. -/
def encryptTurn (data salt cs : JString) (i : Nat) : Except Throwable JString := do
  let a ← charAt data (i / 3 * 2)
  let c ← charAt salt (i / 3)
  let b ← charAt data (i / 3 * 2 + 1)
  return setThree cs i a c b

def encrypt (data : Option JString) (s : JString) : Except Throwable JString := do
  let data := data.map folding.toLowerCase
  let salt ← fixedLengthHexSalt s
  let data := H.md5Hex (concat data salt)
  tokenIndices.foldlM (encryptTurn data salt) (List.replicate 48 0)

/-- One turn of the loop of `verify`. -/
def verifyTurn (md5 : JString) (cs : JString × JString) (i : Nat) :
    Except Throwable (JString × JString) := do
  let a ← charAt md5 i
  let b ← charAt md5 (i + 2)
  let c ← charAt md5 (i + 1)
  return ((cs.1.set (i / 3 * 2) a).set (i / 3 * 2 + 1) b, cs.2.set (i / 3) c)

def verify (data : Option JString) (md5 : JString) : Except Throwable Bool := do
  let (cs1, salt) ← tokenIndices.foldlM (verifyTurn md5) (List.replicate 32 0, List.replicate 16 0)
  return H.md5Hex (concat data salt) = cs1

/-! ## The two loops -/

theorem charAt_append {s t : JString} {u : UInt16} {i : Nat} (hi : i = s.length) :
    charAt (s ++ u :: t) i = .ok u := by
  subst i
  simp [charAt]

/-- The loop of `encrypt` from the index `3 * k` on: what is written stays, and
the rest is the weave of what has not been read. -/
theorem foldlM_encryptTurn {data salt : JString} {k : Nat} (hdata : data.length = 2 * k)
    (hsalt : salt.length = k) {long short : JString} (hlong : long.length = 2 * short.length)
    {written : JString} (hwritten : written.length = 3 * k) :
    (List.range' (3 * k) short.length 3).foldlM (encryptTurn (data ++ long) (salt ++ short))
        (written ++ List.replicate (3 * short.length) 0) =
      .ok (written ++ weave long short) := by
  induction short generalizing k data salt long written with
  | nil => simp [weave]
  | cons c short ih =>
      obtain ⟨a, b, rest, rfl, hrest⟩ := exists_two_of_length hlong
      have hzeros : List.replicate (3 * (short.length + 1)) (0 : UInt16) =
          0 :: 0 :: 0 :: List.replicate (3 * short.length) 0 := rfl
      have hturn : encryptTurn (data ++ a :: b :: rest) (salt ++ c :: short)
          (written ++ 0 :: 0 :: 0 :: List.replicate (3 * short.length) 0) (3 * k) =
            .ok (written ++ a :: c :: b :: List.replicate (3 * short.length) 0) := by
        have hb : data ++ a :: b :: rest = (data ++ [a]) ++ b :: rest := by simp
        have hset := setThree_append written (0 : UInt16) 0 0
          (List.replicate (3 * short.length) 0) a c b
        unfold encryptTurn
        rw [charAt_append (by omega), charAt_append (by omega), hb, charAt_append (by simp; omega)]
        rw [hwritten] at hset
        simp only [ok_bind, pure_eq_ok, hset]
      have hnext := ih (show (data ++ [a, b]).length = 2 * (k + 1) by simp; omega)
        (show (salt ++ [c]).length = k + 1 by simp; omega) hrest
        (show (written ++ [a, c, b]).length = 3 * (k + 1) by simp; omega)
      rw [List.length_cons, hzeros, List.range'_succ, List.foldlM_cons, hturn, ok_bind]
      have hindex : 3 * k + 3 = 3 * (k + 1) := by omega
      rw [hindex, weave]
      simpa using hnext

/-- The loop of `verify` reads a weave apart, and nothing behind it. -/
theorem foldlM_verifyTurn {md5 : JString} {k : Nat} (hmd5 : md5.length = 3 * k)
    {long short : JString} (hlong : long.length = 2 * short.length) {cs1 cs2 : JString}
    (hcs1 : cs1.length = 2 * k) (hcs2 : cs2.length = k) (tail : JString) :
    (List.range' (3 * k) short.length 3).foldlM (verifyTurn (md5 ++ (weave long short ++ tail)))
        (cs1 ++ List.replicate (2 * short.length) 0, cs2 ++ List.replicate short.length 0) =
      .ok (cs1 ++ long, cs2 ++ short) := by
  induction short generalizing k md5 long cs1 cs2 with
  | nil =>
      have hnil : long = [] := by simpa using hlong
      simp [hnil]
  | cons c short ih =>
      obtain ⟨a, b, rest, rfl, hrest⟩ := exists_two_of_length hlong
      have hturn : verifyTurn (md5 ++ a :: c :: b :: (weave rest short ++ tail))
          (cs1 ++ 0 :: 0 :: List.replicate (2 * short.length) 0,
            cs2 ++ 0 :: List.replicate short.length 0) (3 * k) =
          .ok (cs1 ++ a :: b :: List.replicate (2 * short.length) 0,
            cs2 ++ c :: List.replicate short.length 0) := by
        have hc : md5 ++ a :: c :: b :: (weave rest short ++ tail) =
            (md5 ++ [a]) ++ c :: b :: (weave rest short ++ tail) := by simp
        have hb : md5 ++ a :: c :: b :: (weave rest short ++ tail) =
            (md5 ++ [a, c]) ++ b :: (weave rest short ++ tail) := by simp
        have hreada : charAt (md5 ++ a :: c :: b :: (weave rest short ++ tail)) (3 * k) = .ok a :=
          charAt_append (by omega)
        have hreadb :
            charAt (md5 ++ a :: c :: b :: (weave rest short ++ tail)) (3 * k + 2) = .ok b := by
          rw [hb, charAt_append (by simp; omega)]
        have hreadc :
            charAt (md5 ++ a :: c :: b :: (weave rest short ++ tail)) (3 * k + 1) = .ok c := by
          rw [hc, charAt_append (by simp; omega)]
        have hindex : 3 * k / 3 = k := by omega
        unfold verifyTurn
        rw [hreada, hreadb, hreadc, hindex, Nat.mul_comm k 2, ← hcs1]
        simp [← hcs2]
      have hzeros : List.replicate (2 * (short.length + 1)) (0 : UInt16) =
          0 :: 0 :: List.replicate (2 * short.length) 0 := rfl
      have hzero : List.replicate (short.length + 1) (0 : UInt16) =
          0 :: List.replicate short.length 0 := rfl
      have hnext := ih (show (md5 ++ [a, c, b]).length = 3 * (k + 1) by simp; omega) hrest
        (show (cs1 ++ [a, b]).length = 2 * (k + 1) by simp; omega)
        (show (cs2 ++ [c]).length = k + 1 by simp; omega)
      have hindex : 3 * k + 3 = 3 * (k + 1) := by omega
      have hcons : weave (a :: b :: rest) (c :: short) ++ tail =
          a :: c :: b :: (weave rest short ++ tail) := rfl
      rw [List.length_cons, hzeros, hzero, hcons, List.range'_succ, List.foldlM_cons, hturn,
        ok_bind, hindex]
      simpa using hnext

/-- The token of a text: the digits of the digest woven with the salt. -/
def token (data : Option JString) (s : JString) : JString :=
  weave (H.md5Hex (concat (data.map folding.toLowerCase) (saltDigits s))) (saltDigits s)

/-- Digest and salt fit each other. -/
theorem length_md5Hex_eq (text s : JString) :
    (H.md5Hex text).length = 2 * (saltDigits s).length := by
  rw [H.length_eq, length_saltDigits]

/-- `encrypt` returns the token when there is a salt. -/
theorem encrypt_of_salt (data : Option JString) {s : JString}
    (h : fixedLengthHexSalt s = .ok (saltDigits s)) :
    encrypt folding H data s = .ok (token folding H data s) := by
  have hempty (n : Nat) : ([] : JString).length = n * 0 := by simp
  have hloop := foldlM_encryptTurn (hempty 2) (show ([] : JString).length = 0 from rfl)
    (length_md5Hex_eq H (concat (data.map folding.toLowerCase) (saltDigits s)) s)
    (hempty 3)
  rw [length_saltDigits] at hloop
  unfold encrypt
  rw [h]
  exact hloop

/-- Without a salt it throws. -/
theorem encrypt_of_error (data : Option JString) {s : JString} {e : Throwable}
    (h : fixedLengthHexSalt s = .error e) : encrypt folding H data s = .error e := by
  unfold encrypt
  rw [h]
  rfl

theorem encrypt_eq (data : Option JString) {s : JString} (h : (getBytes s).length < 2 ^ 30) :
    encrypt folding H data s = .ok (token folding H data s) :=
  encrypt_of_salt folding H data (fixedLengthHexSalt_of_lt h)

/-- There is a salt or there is none. -/
theorem fixedLengthHexSalt_cases (s : JString) :
    fixedLengthHexSalt s = .ok (saltDigits s) ∨
      fixedLengthHexSalt s = .error .negativeArraySize := by
  rcases hexEncode_cases (getBytes s) with hok | herror
  · exact Or.inl (fixedLengthHexSalt_of_ok hok)
  · unfold fixedLengthHexSalt
    rw [herror]
    exact Or.inr rfl

theorem length_token (data : Option JString) (s : JString) :
    (token folding H data s).length = 48 := by
  unfold token
  rw [length_weave (length_md5Hex_eq H _ s), length_saltDigits]

/-- The digest in a token. -/
def digestOf (data : Option JString) (s : JString) : JString :=
  H.md5Hex (concat (data.map folding.toLowerCase) (saltDigits s))

/-- A token gives back its digest and its salt. -/
theorem unweave_token (data : Option JString) (s : JString) :
    unweave (token folding H data s) = (digestOf folding H data s, saltDigits s) :=
  unweave_weave (length_md5Hex_eq H _ s)

/-- Tokens are equal when their salts and their digests are. -/
theorem token_eq_token_iff (data data' : Option JString) (s s' : JString) :
    token folding H data s = token folding H data' s' ↔
      saltDigits s = saltDigits s' ∧
        digestOf folding H data s = digestOf folding H data' s' := by
  constructor
  · intro h
    have hpair := congrArg unweave h
    rw [unweave_token, unweave_token, Prod.mk.injEq] at hpair
    exact ⟨hpair.2, hpair.1⟩
  · intro h
    show weave (digestOf folding H data s) _ = weave (digestOf folding H data' s') _
    rw [h.1, h.2]

/-- Two tokens with one salt are equal when the digests are. -/
theorem token_eq_iff (data data' : Option JString) (s : JString) :
    token folding H data s = token folding H data' s ↔
      H.md5Hex (concat (data.map folding.toLowerCase) (saltDigits s)) =
        H.md5Hex (concat (data'.map folding.toLowerCase) (saltDigits s)) :=
  (token_eq_token_iff folding H data data' s s).trans (and_iff_right rfl)

/-- `verify` recomputes the digest of its own text with the salt of the token, and
does not look behind the token. -/
theorem verify_weave_append (data : Option JString) {digest salt : JString}
    (hdigest : digest.length = 32) (hsalt : salt.length = 16) (tail : JString) :
    verify H data (weave digest salt ++ tail) =
      .ok (H.md5Hex (concat data salt) = digest) := by
  have hempty (n : Nat) : ([] : JString).length = n * 0 := by simp
  have hloop := foldlM_verifyTurn (hempty 3) (show digest.length = 2 * salt.length by omega)
    (hempty 2) (show ([] : JString).length = 0 from rfl) tail
  rw [hsalt] at hloop
  have hrun : tokenIndices.foldlM (verifyTurn (weave digest salt ++ tail))
      (List.replicate 32 0, List.replicate 16 0) = .ok (digest, salt) := hloop
  unfold verify
  rw [hrun]
  rfl

theorem verify_weave (data : Option JString) {digest salt : JString} (hdigest : digest.length = 32)
    (hsalt : salt.length = 16) :
    verify H data (weave digest salt) = .ok (H.md5Hex (concat data salt) = digest) := by
  have h := verify_weave_append H data hdigest hsalt []
  rwa [List.append_nil] at h

/-! ## Which texts verify -/

/-- Verify a text against the token issued for another. -/
def verifyIssued (d d' s : JString) : Except Throwable Bool := do
  verify H (some d) (← encrypt folding H (some d') s)

/-- A digest that tells one text from all others. -/
def separating (text : JString) : HexDigest where
  md5Hex s := List.replicate 32 (if s = text then 0x30 else 0x31)
  length_eq s := by simp
  hex s u hu := by
    rw [(List.mem_replicate.mp hu).2]
    split <;> decide

theorem separating_eq_iff (text s : JString) :
    (separating text).md5Hex text = (separating text).md5Hex s ↔ s = text := by
  simp [separating]

theorem verifyIssued_eq (d d' : JString) {s : JString} (h : (getBytes s).length < 2 ^ 30) :
    verifyIssued folding H d d' s =
      .ok (H.md5Hex (d ++ saltDigits s) =
        H.md5Hex (folding.toLowerCase d' ++ saltDigits s)) := by
  unfold verifyIssued
  rw [encrypt_eq folding H _ h, ok_bind, token,
    verify_weave H _ (H.length_eq _) (length_saltDigits s)]
  rfl

/-- `verify` accepts the token of a text exactly when the digests of the two texts, in lower
case and with the salt, are one. -/
def VerifiesIssued (d s : JString) : Prop :=
  ∃ salt, fixedLengthHexSalt s = .ok salt ∧ ∀ d', verifyIssued folding H d d' s = .ok true ↔
    H.md5Hex (folding.toLowerCase d ++ salt) = H.md5Hex (folding.toLowerCase d' ++ salt)

/-- `verify` hashes its text as it is. -/
theorem verifyIssued_iff (d d' : JString) {s : JString} (h : (getBytes s).length < 2 ^ 30) :
    verifyIssued folding H d d' s = .ok true ↔
      H.md5Hex (d ++ saltDigits s) = H.md5Hex (folding.toLowerCase d' ++ saltDigits s) := by
  rw [verifyIssued_eq folding H d d' h]
  simp

/-- So the digest must not tell the text from its lower-casing. -/
theorem verifiesIssued_iff (d : JString) {s : JString} (h : (getBytes s).length < 2 ^ 30) :
    VerifiesIssued folding H d s ↔
      H.md5Hex (d ++ saltDigits s) = H.md5Hex (folding.toLowerCase d ++ saltDigits s) := by
  unfold VerifiesIssued
  rw [fixedLengthHexSalt_of_lt h]
  constructor
  · intro hverifies
    obtain ⟨salt, hsalt, hall⟩ := hverifies
    obtain rfl := Except.ok.inj hsalt
    exact (verifyIssued_iff folding H d d h).mp ((hall d).mpr rfl)
  · intro hsame
    refine ⟨_, rfl, fun d' => ?_⟩
    rw [verifyIssued_iff folding H d d' h, hsame]

/-- With a longer salt source no token is issued. -/
theorem not_verifiesIssued_of_long (d : JString) {s : JString} (h : ¬ (getBytes s).length < 2 ^ 30)
    (harray : (getBytes s).length < 2 ^ 31) :
    ¬ VerifiesIssued folding H d s ∧ ∀ d', verifyIssued folding H d d' s ≠ .ok true := by
  have hnone := fixedLengthHexSalt_of_le (not_lt.mp h) harray
  constructor
  · intro hverifies
    obtain ⟨salt, hsalt, -⟩ := hverifies
    rw [hnone] at hsalt
    cases hsalt
  · intro d' htrue
    unfold verifyIssued at htrue
    rw [encrypt_of_error folding H _ hnone] at htrue
    cases htrue

/-- **`verify` accepts the tokens issued for a text up to case exactly when the text is its
own lower-casing** and the salt source has fewer than 2^30 bytes; for one digest, exactly
when it does not tell the text from its lower-casing. -/
theorem verify_encrypt_iff (d : JString) {s : JString} (harray : (getBytes s).length < 2 ^ 31) :
    ((∀ H : HexDigest, VerifiesIssued folding H d s) ↔
      (getBytes s).length < 2 ^ 30 ∧ folding.toLowerCase d = d) ∧
    ∀ H : HexDigest,
      (VerifiesIssued folding H d s ↔
        (getBytes s).length < 2 ^ 30 ∧ ∀ salt, fixedLengthHexSalt s = .ok salt →
          H.md5Hex (d ++ salt) = H.md5Hex (folding.toLowerCase d ++ salt)) ∧
      (verifyIssued folding H d d s = .ok true ↔
        (getBytes s).length < 2 ^ 30 ∧ ∀ salt, fixedLengthHexSalt s = .ok salt →
          H.md5Hex (d ++ salt) = H.md5Hex (folding.toLowerCase d ++ salt)) := by
  by_cases hs : (getBytes s).length < 2 ^ 30
  · refine ⟨?_, fun H => ?_⟩
    · rw [and_iff_right hs]
      constructor
      · intro h
        have hseparate :=
          (verifiesIssued_iff folding (separating (d ++ saltDigits s)) d hs).mp (h _)
        exact List.append_cancel_right ((separating_eq_iff _ _).mp hseparate)
      · intro h H
        rw [verifiesIssued_iff folding H d hs, h]
    · rw [and_iff_right hs, verifiesIssued_iff folding H d hs, verifyIssued_iff folding H d d hs,
        fixedLengthHexSalt_of_lt hs]
      simp
  · have hnone (H : HexDigest) := not_verifiesIssued_of_long folding H d hs harray
    exact ⟨⟨fun h => absurd (h (separating [])) (hnone _).1, fun h => absurd h.1 hs⟩,
      fun H => ⟨⟨fun h => absurd h (hnone H).1, fun h => absurd h.1 hs⟩,
        ⟨fun h => absurd h ((hnone H).2 d), fun h => absurd h.1 hs⟩⟩⟩

/-- A text in lower case is accepted with its token. -/
theorem verify_encrypt_iff_lower :
    ((∀ H : HexDigest, VerifiesIssued asciiFolding H (js "a") (js "key")) ↔
      (getBytes (js "key")).length < 2 ^ 30 ∧ asciiFolding.toLowerCase (js "a") = js "a") ∧
    ∀ H : HexDigest,
      (VerifiesIssued asciiFolding H (js "a") (js "key") ↔
        (getBytes (js "key")).length < 2 ^ 30 ∧ ∀ salt, fixedLengthHexSalt (js "key") = .ok salt →
          H.md5Hex (js "a" ++ salt) = H.md5Hex (asciiFolding.toLowerCase (js "a") ++ salt)) ∧
      (verifyIssued asciiFolding H (js "a") (js "a") (js "key") = .ok true ↔
        (getBytes (js "key")).length < 2 ^ 30 ∧ ∀ salt, fixedLengthHexSalt (js "key") = .ok salt →
          H.md5Hex (js "a" ++ salt) = H.md5Hex (asciiFolding.toLowerCase (js "a") ++ salt)) :=
  verify_encrypt_iff asciiFolding (js "a") (by decide)

/-- A capital letter does not verify against its own token. -/
theorem verifyIssued_capital :
    ¬ VerifiesIssued asciiFolding (separating (js "a" ++ saltDigits (js "key"))) (js "A")
      (js "key") := by
  intro h
  obtain ⟨salt, -, h⟩ := h
  have hrefused : verifyIssued asciiFolding (separating (js "a" ++ saltDigits (js "key")))
      (js "A") (js "A") (js "key") ≠ .ok true := by decide
  exact hrefused ((h (js "A")).mpr rfl)

/-! ## Which strings verify -/

/-- The characters of a token at the positions 1, 4, 7, ..., 46. -/
def embeddedSalt (t : JString) : JString := (List.range 16).map fun i => t.getD (3 * i + 1) 0

/-- The token that the salt of `t` makes of a text. -/
def tokenWithSaltOf (data : Option JString) (t : JString) : JString :=
  weave (H.md5Hex (concat data (embeddedSalt t))) (embeddedSalt t)

/-- Turns that find all their characters do not run behind the string. -/
theorem foldlM_verifyTurn_short {md5 : JString} {k n : Nat} (hshort : md5.length < 3 * (k + n))
    (cs : JString × JString) :
    (List.range' (3 * k) n 3).foldlM (verifyTurn md5) cs = .error .stringIndexOutOfBounds ∨
      md5.length < 3 * k := by
  induction n generalizing k cs with
  | zero => exact Or.inr hshort
  | succ n ih =>
      by_cases hlen : md5.length < 3 * (k + 1)
      · -- one of the three characters of this turn is missing
        left
        have hmissing {i : Nat} (h : md5.length ≤ i) :
            charAt md5 i = .error .stringIndexOutOfBounds := by
          simp [charAt, h]
        have hread (i : Nat) : (∃ u, charAt md5 i = .ok u) ∨
            charAt md5 i = .error .stringIndexOutOfBounds := by
          unfold charAt
          cases md5[i]? with
          | none => exact Or.inr rfl
          | some u => exact Or.inl ⟨u, rfl⟩
        have hturn : verifyTurn md5 cs (3 * k) = .error .stringIndexOutOfBounds := by
          have htwo := hmissing (i := 3 * k + 2) (by omega)
          unfold verifyTurn
          rcases hread (3 * k) with ⟨a, ha⟩ | ha
          · rw [ha, htwo]
            rfl
          · rw [ha]
            rfl
        rw [List.range'_succ, List.foldlM_cons, hturn]
        rfl
      · -- this turn may read, so a later one fails
        have hturn : ∃ cs', verifyTurn md5 cs (3 * k) = .ok cs' := by
          have hread {i : Nat} (h : i < md5.length) : charAt md5 i = .ok md5[i] := by
            simp [charAt, h]
          unfold verifyTurn
          rw [hread (i := 3 * k) (by omega), hread (i := 3 * k + 2) (by omega),
            hread (i := 3 * k + 1) (by omega)]
          exact ⟨_, rfl⟩
        obtain ⟨cs', hcs'⟩ := hturn
        have hindex : 3 * k + 3 = 3 * (k + 1) := by omega
        left
        rw [List.range'_succ, List.foldlM_cons, hcs', ok_bind, hindex]
        exact (ih (by omega) cs').resolve_right hlen

/-- A truncated token is an exception. -/
theorem verify_short (data : Option JString) {t : JString} (h : t.length < 48) :
    verify H data t = .error .stringIndexOutOfBounds := by
  have hshort : t.length < 3 * (0 + 16) := by omega
  have hrun : tokenIndices.foldlM (verifyTurn t) (List.replicate 32 0, List.replicate 16 0) =
      .error .stringIndexOutOfBounds :=
    (foldlM_verifyTurn_short hshort _).resolve_right (by omega)
  unfold verify
  rw [hrun]
  rfl

/-- Of a string that is long enough, `verify` compares the first 48 characters with
the token that their salt makes. -/
theorem verify_long (data : Option JString) {t : JString} (h : 48 ≤ t.length) :
    verify H data t = .ok (t.take 48 = tokenWithSaltOf H data t) := by
  have htake : (t.take 48).length = 3 * 16 := by simp; omega
  obtain ⟨digest, salt, hlen, hsalt, hweave⟩ := exists_weave htake
  have hdigest : digest.length = 32 := by omega
  have hembedded : embeddedSalt t = salt := by
    unfold embeddedSalt
    apply List.ext_getElem (by simp [hsalt])
    intro i hi hi'
    have hpos := getD_weave hlen hi' 0
    rw [← hweave] at hpos
    have hin : 3 * i + 1 < 48 := by omega
    have hbound : 3 * i + 1 < t.length := by omega
    simpa [hin, hbound, hi'] using hpos
  have hrun := verify_weave_append H data hdigest hsalt (t.drop 48)
  rw [← hweave, List.take_append_drop] at hrun
  rw [hrun, tokenWithSaltOf, hembedded, hweave]
  congr 1
  rw [decide_eq_decide]
  constructor
  · intro heq
    rw [heq]
  · intro heq
    exact (weave_injective hlen (by rw [H.length_eq, hsalt]) heq).1.symm

/-- **`verify` decides the token format exactly for the strings of length 48 and
for the longer ones whose first 48 characters do not verify.**  A shorter string
is an exception, and what follows a token is not looked at. -/
theorem verify_decides_iff (data : Option JString) (t : JString) :
    verify H data t = .ok (t.length = 48 ∧ t = tokenWithSaltOf H data t) ↔
      t.length = 48 ∨ (48 < t.length ∧ t.take 48 ≠ tokenWithSaltOf H data t) := by
  rcases Nat.lt_or_ge t.length 48 with hshort | hlong
  · rw [verify_short H data hshort]
    simp only [reduceCtorEq, false_iff]
    omega
  · rw [verify_long H data hlong, Except.ok.injEq, decide_eq_decide]
    by_cases hlen : t.length = 48
    · have htake : t.take 48 = t := List.take_of_length_le (by omega)
      simp [hlen, htake]
    · have hmore : 48 < t.length := by omega
      simp [hlen, hmore]

/-- A truncated token is not answered by false, and a token with a further character
is answered by true. -/
theorem verify_throws_and_accepts :
    verify (separating []) (some []) [] ≠
        .ok (([] : JString).length = 48 ∧ [] = tokenWithSaltOf (separating []) (some []) []) ∧
      verify (separating []) (some []) (tokenWithSaltOf (separating []) (some []) [] ++ js "x") ≠
        .ok ((tokenWithSaltOf (separating []) (some []) [] ++ js "x").length = 48 ∧
          tokenWithSaltOf (separating []) (some []) [] ++ js "x" =
            tokenWithSaltOf (separating []) (some [])
              (tokenWithSaltOf (separating []) (some []) [] ++ js "x")) := by
  decide

end TrashClear
