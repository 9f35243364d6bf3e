import TrashClear.MD5EncryptUtils
import TrashClear.SecurityUtil

/-!
# The cached salt

`MD5EncryptUtils` has two copies of one encoder.  `encrypt(data, s)` makes the salt of its
second argument; `encrypt(data)` keeps the salt of `DES_KEY` in the static `mSalt`, which is
null until the first call.

* `saltAfter_filled`: whatever was called before, `mSalt` is null or that salt.
* `encrypt_exact`: where the digits of a salt source fit in an array, a token is 48
  lower-case digits that give back the digest and the salt, and the one-argument version
  returns what the other one returns for `DES_KEY`.
-/

namespace TrashClear

open Java Run Weave

variable (folding : CaseFolding) (H : HexDigest) (jca : Provider)

/-! ## The functions -/

/-- `MD5EncryptUtils.DES_KEY`. -/
def saltKey : JString :=
  desDecrypt jca (js "603d5c3d2bc1246c34a4a15abfd1a453") (js "jtest*confxy@1")

/-- Programs over the static `mSalt`. -/
abbrev Salted := EStateM Throwable (Option JString)

/-- The salt is made when it is null. -/
def fillSalt : Salted Unit := do
  if (← get) = none then set (some (← attempt (fixedLengthHexSalt (saltKey jca))))

/-- `encrypt(data)`. -/
def encryptCached (data : Option JString) : Salted JString := do
  let data := data.map folding.toLowerCase
  fillSalt jca
  let mSalt ← attempt (nonNull (← get))
  let data := H.md5Hex (concat data mSalt)
  attempt (tokenIndices.foldlM (encryptTurn data mSalt) (List.replicate 48 0))

/-- A call of either version; a salt that is null throws. -/
inductive EncryptCall
  | one (data : Option JString)
  | two (data s : Option JString)
  deriving DecidableEq, Repr

def EncryptCall.run : EncryptCall → Salted JString
  | .one data => encryptCached folding H jca data
  | .two data s => attempt do encrypt folding H data (← nonNull s)

/-- The static after calls, whether they returned or threw. -/
def saltAfter (calls : List EncryptCall) (mSalt : Option JString) : Option JString :=
  calls.foldl (fun mSalt call => left (call.run folding H jca mSalt)) mSalt

/-! ## The digits of a token -/

section Token

variable {folding H}

theorem isLowerHex_saltDigits (salt : JString) :
    ∀ u ∈ saltDigits salt, isLowerHex u = true := by
  intro u hu
  rcases List.mem_append.mp (List.mem_of_mem_take hu) with hu | hu
  · exact isLowerHex_hexDigits _ u hu
  · rw [List.eq_of_mem_replicate hu]
    decide

theorem isLowerHex_token (data : Option JString) (s : JString) :
    ∀ u ∈ token folding H data s, isLowerHex u = true := by
  intro u hu
  rcases mem_or_mem_of_mem_weave hu with hu | hu
  · exact H.hex _ u hu
  · exact isLowerHex_saltDigits s u hu

end Token

/-! ## The static over any calls -/

section Static

variable {folding H jca} {mSalt : Option JString}

/-- The key is short. -/
theorem length_saltKey (jca : Provider) : (getBytes (saltKey jca)).length < 2 ^ 30 :=
  lt_of_le_of_lt (length_getBytes_desDecrypt_le jca _ _) (by decide)

/-- The static is null, or it holds the salt of the key. -/
def Filled (jca : Provider) (mSalt : Option JString) : Prop :=
  mSalt = none ∨ mSalt = some (saltDigits (saltKey jca))

theorem run_fillSalt (h : Filled jca mSalt) :
    fillSalt jca mSalt = .ok () (some (saltDigits (saltKey jca))) := by
  have hsalt : attempt (fixedLengthHexSalt (saltKey jca)) (none : Option JString) =
      .ok (saltDigits (saltKey jca)) none :=
    run_attempt_ok.mpr ⟨fixedLengthHexSalt_of_lt (length_saltKey jca), rfl⟩
  unfold fillSalt
  rcases h with rfl | rfl
  · rw [run_get_bind, if_pos rfl, run_bind_of_ok hsalt]
    rfl
  · rw [run_get_bind, if_neg (Option.some_ne_none _)]
    rfl

/-- **The version with the cached salt** returns the token of the key, and fills the static. -/
theorem run_encryptCached (h : Filled jca mSalt) (data : Option JString) :
    encryptCached folding H jca data mSalt =
      .ok (token folding H data (saltKey jca)) (some (saltDigits (saltKey jca))) := by
  have hloop := encrypt_eq folding H data (length_saltKey jca)
  have hsalt : attempt (nonNull (some (saltDigits (saltKey jca))))
      (some (saltDigits (saltKey jca))) =
        .ok (saltDigits (saltKey jca)) (some (saltDigits (saltKey jca))) := rfl
  unfold encrypt at hloop
  rw [fixedLengthHexSalt_of_lt (length_saltKey jca)] at hloop
  unfold encryptCached
  rw [run_bind_of_ok (run_fillSalt h), run_get_bind, run_bind_of_ok hsalt]
  exact run_attempt_ok.mpr ⟨hloop, rfl⟩

/-- One call keeps the static filled; the version with a salt of its own leaves it alone. -/
theorem filled_run (h : Filled jca mSalt) (call : EncryptCall) :
    Filled jca (left (call.run folding H jca mSalt)) := by
  cases call with
  | one data =>
      show Filled jca (left (encryptCached folding H jca data mSalt))
      rw [run_encryptCached h data]
      exact Or.inr rfl
  | two data s =>
      show Filled jca (left (attempt _ mSalt))
      rwa [left_attempt]

/-- **The static is filled** after any calls. -/
theorem saltAfter_filled (calls : List EncryptCall) (h : Filled jca mSalt) :
    Filled jca (saltAfter folding H jca calls mSalt) := by
  induction calls generalizing mSalt with
  | nil => exact h
  | cons call calls ih => exact ih (filled_run h call)

end Static

/-- The token of a text and a salt source is 48 lower-case digits, which give back its digest
and its salt. -/
def HasToken (data : Option JString) (s : JString) : Prop :=
  ∃ t salt, encrypt folding H data s = .ok t ∧ fixedLengthHexSalt s = .ok salt ∧
    t.length = 48 ∧ (∀ u ∈ t, isLowerHex u = true) ∧
    unweave t = (H.md5Hex (concat (data.map folding.toLowerCase) salt), salt)

/-- **Every text has a token** exactly when the salt source has fewer than 2^30 bytes; two
tokens are equal when their salts and their digests are.  After any calls the version with
the cached salt returns the token of the key. -/
theorem encrypt_exact (data : Option JString) {s : JString}
    (harray : (getBytes s).length < 2 ^ 31) :
    ((HasToken folding H data s ∧
        ∀ data' s', encrypt folding H data s = encrypt folding H data' s' ↔
          fixedLengthHexSalt s = fixedLengthHexSalt s' ∧
            digestOf folding H data s = digestOf folding H data' s') ↔
      (getBytes s).length < 2 ^ 30) ∧
    ∀ calls, answer (encryptCached folding H jca data (saltAfter folding H jca calls none)) =
      encrypt folding H data (saltKey jca) := by
  refine ⟨⟨fun h => ?_, fun h => ⟨?_, fun data' s' => ?_⟩⟩, fun calls => ?_⟩
  · obtain ⟨⟨_, salt, -, hsalt, -⟩, -⟩ := h
    by_contra hlong
    rw [fixedLengthHexSalt_of_le (not_lt.mp hlong) harray] at hsalt
    cases hsalt
  · exact ⟨token folding H data s, saltDigits s, encrypt_eq folding H data h,
      fixedLengthHexSalt_of_lt h, length_token folding H data s, isLowerHex_token data s,
      unweave_token folding H data s⟩
  · rw [encrypt_eq folding H data h, fixedLengthHexSalt_of_lt h]
    rcases fixedLengthHexSalt_cases s' with hsalt | hnone
    · rw [encrypt_of_salt folding H data' hsalt, hsalt, Except.ok.injEq, Except.ok.injEq]
      exact token_eq_token_iff folding H data data' s s'
    · rw [encrypt_of_error folding H data' hnone, hnone]
      simp
  · rw [run_encryptCached (saltAfter_filled calls (Or.inl rfl)),
      encrypt_eq folding H data (length_saltKey jca)]
    rfl

theorem encrypt_exact_empty :
    ((HasToken asciiFolding (separating []) (some []) [] ∧
        ∀ data' s', encrypt asciiFolding (separating []) (some []) [] =
            encrypt asciiFolding (separating []) data' s' ↔
          fixedLengthHexSalt [] = fixedLengthHexSalt s' ∧
            digestOf asciiFolding (separating []) (some []) [] =
              digestOf asciiFolding (separating []) data' s') ↔
      (getBytes []).length < 2 ^ 30) ∧
    ∀ calls, answer (encryptCached asciiFolding (separating []) plainProvider (some [])
        (saltAfter asciiFolding (separating []) plainProvider calls none)) =
      encrypt asciiFolding (separating []) (some []) (saltKey plainProvider) :=
  encrypt_exact asciiFolding (separating []) plainProvider (some []) (by decide)

/-- A salt source of 2^30 bytes is an exception. -/
theorem not_hasToken_long :
    ¬ HasToken asciiFolding (separating []) (some []) (List.replicate (2 ^ 30) 0x61) := by
  have hlength : (getBytes (List.replicate (2 ^ 30) 0x61)).length = 2 ^ 30 := by
    rw [getBytes_ascii fun u hu => ?_, List.length_map, List.length_replicate]
    rw [List.eq_of_mem_replicate hu]
    decide
  intro h
  obtain ⟨_, _, -, hsalt, -⟩ := h
  rw [fixedLengthHexSalt_of_le (ge_of_eq hlength) (by rw [hlength]; omega)] at hsalt
  cases hsalt

end TrashClear
