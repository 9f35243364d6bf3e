import TrashClear.Library.Decimal
import TrashClear.Library.Fields
import TrashClear.Library.Utf

/-!
# Java strings

A Java string is a list of UTF-16 units.  This file has the library operations
on strings that line-oriented Java programs use, with their exceptions:
`Integer.parseInt` and `Integer.toString`, `charAt`, array access, conversion
from and to bytes in the default charset UTF-8, `BufferedReader.readLine`.

`parseInt_intToString` is the decimal round trip over all 32-bit integers.
Lower-casing depends on the runtime's Unicode tables; `CaseFolding` carries the
facts about it that hold for every version of them.
-/

namespace Java

/-- A string as its UTF-16 units. -/
abbrev JString := List UInt16

/-- A string literal. -/
def js (s : String) : JString := Utf.encode16 s.toList

/-- Why a database engine refuses a statement. -/
inductive SqlError
  | noSuchTable
  | noSuchColumn
  | valueCount
  | notNull
  | primaryKey
  deriving DecidableEq, Repr

/-- The exceptions the modelled code can raise. -/
inductive Throwable
  | numberFormat
  | arrayIndexOutOfBounds
  | stringIndexOutOfBounds
  | nullPointer
  | illegalState
  | negativeArraySize
  | runtime
  | invalidKey
  | illegalBlockSize
  | badPadding
  | sql (reason : SqlError)
  deriving DecidableEq, Repr

/-- `xs[i]` on an array. -/
def elem {α : Type} (xs : List α) (i : Nat) : Except Throwable α :=
  match xs[i]? with
  | some x => .ok x
  | none => .error .arrayIndexOutOfBounds

/-- `new char[length]`, which a `StringBuilder` of this capacity also makes. -/
def newCharArray (length : Int32) : Except Throwable Unit :=
  if length < 0 then .error .negativeArraySize else .ok ()

/-- `s.charAt(i)`. -/
def charAt (s : JString) (i : Nat) : Except Throwable UInt16 :=
  match s[i]? with
  | some u => .ok u
  | none => .error .stringIndexOutOfBounds

/-- Iterating over a null collection. -/
def nonNull {α : Type} : Option α → Except Throwable α
  | some x => .ok x
  | none => .error .nullPointer

/-- The `int` product `2 * n` is negative from 2^30 on. -/
theorem twice_neg_iff {n : Nat} (h : n < 2 ^ 31) : 2 * Int32.ofNat n < 0 ↔ 2 ^ 30 ≤ n := by
  have hvalue : (2 * Int32.ofNat n).toInt = (2 * (n : Int)).bmod (2 ^ 32) := by
    rw [Int32.toInt_mul, Int32.toInt_ofNat_of_lt h]
    rfl
  rw [Int32.lt_iff_toInt_lt, hvalue]
  show (2 * (n : Int)).bmod (2 ^ 32) < 0 ↔ _
  rw [Int.bmod_neg_iff (by omega) (by omega)]
  omega

theorem shiftLeft_one (a : Int32) : a <<< 1 = 2 * a := by
  rw [← Int32.toBitVec_inj, Int32.toBitVec_shiftLeft, Int32.toBitVec_mul]
  show a.toBitVec <<< (1 : BitVec 32) = 2#32 * a.toBitVec
  rw [BitVec.shiftLeft_eq', BitVec.shiftLeft_eq_mul_twoPow, BitVec.mul_comm]
  rfl

/-- Two characters for each of `n` elements fit in an array. -/
theorem newCharArray_of_lt {n : Nat} (h : n < 2 ^ 30) :
    newCharArray (2 * Int32.ofNat n) = .ok () := by
  unfold newCharArray
  rw [if_neg fun hneg => absurd ((twice_neg_iff (by omega)).mp hneg) (by omega)]

/-- They do not from 2^30 elements on; the longest array has 2^31 - 1. -/
theorem newCharArray_of_le {n : Nat} (h : 2 ^ 30 ≤ n) (harray : n < 2 ^ 31) :
    newCharArray (2 * Int32.ofNat n) = .error .negativeArraySize := by
  unfold newCharArray
  rw [if_pos ((twice_neg_iff harray).mpr h)]

theorem elem_of_lt {α : Type} {xs : List α} {i : Nat} (h : i < xs.length) :
    elem xs i = .ok xs[i] := by
  simp [elem, h]

/-! ## Bytes -/

/-- `s.getBytes()`: an unpaired surrogate is written as `?`. -/
def getBytes (s : JString) : List UInt8 := Utf.encode8 (Utf.scalars '?' s)

/-- `new String(bytes)`. -/
def newString (bytes : List UInt8) : JString := Utf.encode16 (Utf.decode8 bytes)

theorem getBytes_encode16 (cs : List Char) : getBytes (Utf.encode16 cs) = Utf.encode8 cs := by
  unfold getBytes
  rw [Utf.scalars_encode16]

/-- A text survives the conversion to bytes and back. -/
theorem newString_getBytes (cs : List Char) :
    newString (getBytes (Utf.encode16 cs)) = Utf.encode16 cs := by
  unfold newString
  rw [getBytes_encode16, Utf.decode8_encode8]

theorem getBytes_newString (bytes : List UInt8) :
    getBytes (newString bytes) = Utf.encode8 (Utf.decode8 bytes) :=
  getBytes_encode16 _

/-- Bytes that are read and written again may become longer, but not much. -/
theorem length_getBytes_newString_le (bytes : List UInt8) :
    (getBytes (newString bytes)).length ≤ 4 * bytes.length := by
  have hchars := Utf.length_decode8_le bytes
  have hbytes := Utf.length_encode8_le (Utf.decode8 bytes)
  rw [getBytes_newString]
  omega

/-- A string has at least as many bytes as units. -/
theorem length_le_getBytes (s : JString) : s.length ≤ (getBytes s).length :=
  Utf.length_le_encode8_scalars '?' s

/-- A part that does not start with a low surrogate has its own bytes. -/
theorem getBytes_append {u : UInt16} (hlow : Utf.isLow u = false) (s t : JString) :
    getBytes (s ++ u :: t) = getBytes s ++ getBytes (u :: t) := by
  unfold getBytes
  rw [Utf.scalars_append hlow, Utf.encode8_append]

/-- The bytes of a text are those of its parts, one after the other. -/
theorem getBytes_flatMap {α : Type} {f : α → JString} (xs : List α)
    (hf : ∀ x ∈ xs, ∃ u t, f x = u :: t ∧ Utf.isLow u = false) :
    getBytes (xs.flatMap f) = xs.flatMap fun x => getBytes (f x) := by
  induction xs with
  | nil => rfl
  | cons x xs ih =>
      obtain ⟨-, hrest⟩ := List.forall_mem_cons.mp hf
      have hparts := ih hrest
      rw [List.flatMap_cons, List.flatMap_cons, ← hparts]
      cases xs with
      | nil => simp [getBytes, Utf.encode8, Utf.scalars]
      | cons y ys =>
          obtain ⟨u, t, hy, hlow⟩ := hrest y (by simp)
          rw [List.flatMap_cons, hy, List.cons_append]
          exact getBytes_append hlow _ _

/-- That a literal is ASCII can be computed. -/
theorem ascii_of_all {s : JString} (h : (s.all fun u => u < 0x80) = true) :
    ∀ u ∈ s, u < 0x80 := by
  simpa using h

/-- The bytes of an ASCII string are its units. -/
theorem getBytes_ascii {s : JString} (h : ∀ u ∈ s, u < 0x80) :
    getBytes s = s.map UInt16.toUInt8 := by
  induction s with
  | nil => rfl
  | cons u s ih =>
      have hu : u.toNat < 0x80 := UInt16.lt_iff_toNat_lt.mp (h u (by simp))
      have hhigh : Utf.isHigh u = false := by
        simp only [Utf.isHigh, Bool.and_eq_false_iff, decide_eq_false_iff_not]
        omega
      have hchar : String.utf8EncodeChar (Utf.lone '?' u) = [u.toUInt8] := by
        have hall : ∀ n : Nat, n < 0x80 →
            String.utf8EncodeChar (Utf.lone '?' (UInt16.ofNat n)) = [(UInt16.ofNat n).toUInt8] := by
          decide +kernel
        simpa using hall u.toNat hu
      have hrest := ih (fun v hv => h v (List.mem_cons_of_mem _ hv))
      unfold getBytes at hrest ⊢
      rw [Utf.scalars_cons_of_not_high hhigh]
      simp only [Utf.encode8, List.flatMap_cons, hchar, List.map_cons] at hrest ⊢
      rw [hrest]
      rfl

/-- An ASCII string survives the conversion to bytes and back. -/
theorem newString_getBytes_ascii {s : JString} (h : ∀ u ∈ s, u < 0x80) :
    newString (getBytes s) = s := by
  have htext : ∃ cs, s = Utf.encode16 cs := by
    induction s with
    | nil => exact ⟨[], rfl⟩
    | cons u s ih =>
        have hu : u.toNat < 0x80 := UInt16.lt_iff_toNat_lt.mp (h u (by simp))
        have hchar : Utf.encode16Char (Char.ofNat u.toNat) = [u] := by
          have hall : ∀ n : Nat, n < 0x80 →
              Utf.encode16Char (Char.ofNat n) = [UInt16.ofNat n] := by
            decide +kernel
          simpa using hall u.toNat hu
        obtain ⟨cs, hcs⟩ := ih (fun v hv => h v (List.mem_cons_of_mem _ hv))
        exact ⟨Char.ofNat u.toNat :: cs, by simp [Utf.encode16, hchar, hcs]⟩
  obtain ⟨cs, rfl⟩ := htext
  exact newString_getBytes cs

/-! ## Decimal integers -/

/-- The zeros of the decimal digit runs of the basic plane (Unicode 6.0). -/
def zeroDigits : List Nat :=
  [0x30, 0x660, 0x6F0, 0x7C0, 0x966, 0x9E6, 0xA66, 0xAE6, 0xB66, 0xBE6, 0xC66, 0xCE6, 0xD66,
    0xE50, 0xED0, 0xF20, 0x1040, 0x1090, 0x17E0, 0x1810, 0x1946, 0x19D0, 0x1A80, 0x1A90, 0x1B50,
    0x1BB0, 0x1C40, 0x1C50, 0xA620, 0xA8D0, 0xA900, 0xA9D0, 0xAA50, 0xABF0, 0xFF10]

/-- `Character.digit(u, 10)`, `none` for -1. -/
def digit (u : UInt16) : Option Nat :=
  (zeroDigits.find? fun z => z ≤ u.toNat && u.toNat < z + 10).map (u.toNat - ·)

/-- The value of a non-empty run of digits. -/
def digitsValue (s : JString) : Option Nat :=
  if s = [] then none else (s.mapM digit).map Decimal.value

/-- A value of type `int`, or the exception of a number that does not fit. -/
def toInt32 (i : Int) : Except Throwable Int32 :=
  if -2 ^ 31 ≤ i ∧ i < 2 ^ 31 then .ok (Int32.ofInt i) else .error .numberFormat

def signed (sign : Int) (s : JString) : Except Throwable Int32 :=
  match digitsValue s with
  | some n => toInt32 (sign * n)
  | none => .error .numberFormat

/-- `Integer.parseInt(s)`: an optional sign, then digits. -/
def parseInt (s : JString) : Except Throwable Int32 :=
  match s with
  | [] => .error .numberFormat
  | u :: rest =>
      if u = 0x2D then signed (-1) rest
      else if u = 0x2B then signed 1 rest
      else signed 1 (u :: rest)

/-- The ASCII digit of a value below ten. -/
def digitUnit (d : Nat) : UInt16 := UInt16.ofNat (0x30 + d)

/-- `Integer.toString(i)`. -/
def intToString (i : Int32) : JString :=
  let digits := (Decimal.digits i.toInt.natAbs).map digitUnit
  if i.toInt < 0 then 0x2D :: digits else digits

theorem digit_digitUnit : ∀ d : Nat, d < 10 → digit (digitUnit d) = some d := by
  decide

theorem digitUnit_ne_sign : ∀ d : Nat, d < 10 → digitUnit d ≠ 0x2D ∧ digitUnit d ≠ 0x2B := by
  decide

/-- Reading printed digits gives the number. -/
theorem digitsValue_digits (n : Nat) :
    digitsValue ((Decimal.digits n).map digitUnit) = some n := by
  have hread : ∀ ds : List Nat, (∀ d ∈ ds, d < 10) →
      (ds.map digitUnit).mapM digit = some ds := by
    intro ds hds
    induction ds with
    | nil => rfl
    | cons d ds ih =>
        have hd := digit_digitUnit d (hds d (by simp))
        have hrest := ih (fun x hx => hds x (List.mem_cons_of_mem _ hx))
        simp [List.mapM_cons, hd, hrest]
  have hne : (Decimal.digits n).map digitUnit ≠ [] := by simp [Decimal.digits_ne_nil]
  unfold digitsValue
  rw [if_neg hne, hread _ (fun d hd => Decimal.digit_lt_ten hd), Option.map_some,
    Decimal.value_digits]

theorem toInt32_toInt (i : Int32) : toInt32 i.toInt = .ok i := by
  unfold toInt32
  rw [if_pos ⟨i.le_toInt, i.toInt_lt⟩, Int32.ofInt_toInt]

/-- **Decimal round trip** over all 32-bit integers. -/
theorem parseInt_intToString (i : Int32) : parseInt (intToString i) = .ok i := by
  unfold intToString
  split
  · rename_i hneg
    have hval : -1 * (i.toInt.natAbs : Int) = i.toInt := by omega
    simp only [parseInt, if_true, signed, digitsValue_digits, hval, toInt32_toInt]
  · rename_i hnonneg
    have hval : 1 * (i.toInt.natAbs : Int) = i.toInt := by omega
    have hdigits := digitsValue_digits i.toInt.natAbs
    cases hd : Decimal.digits i.toInt.natAbs with
    | nil => exact absurd hd (Decimal.digits_ne_nil _)
    | cons d ds =>
        have hsign := digitUnit_ne_sign d (Decimal.digit_lt_ten (hd ▸ List.mem_cons_self))
        rw [hd, List.map_cons] at hdigits
        simp only [List.map_cons, parseInt, if_neg hsign.1, if_neg hsign.2, signed, hdigits, hval,
          toInt32_toInt]

theorem intToString_ne_nil (i : Int32) : intToString i ≠ [] := by
  unfold intToString
  simp only
  split
  · simp
  · simp [Decimal.digits_ne_nil]

/-- A printed number has digits and a sign only, in particular no separator. -/
theorem not_mem_intToString {u : UInt16} (hsign : u ≠ 0x2D) (hdigit : ∀ d < 10, digitUnit d ≠ u)
    (i : Int32) : u ∉ intToString i := by
  have hdigits : u ∉ (Decimal.digits i.toInt.natAbs).map digitUnit := by
    intro h
    obtain ⟨d, hd, hu⟩ := List.mem_map.mp h
    exact hdigit d (Decimal.digit_lt_ten hd) hu
  unfold intToString
  simp only
  split
  · simp [hsign, hdigits]
  · exact hdigits

/-! ## Lower-casing -/

/-- The unit of `/`. -/
def slash : UInt16 := 0x2F

def asciiLower (u : UInt16) : UInt16 := if 0x41 ≤ u ∧ u ≤ 0x5A then u + 0x20 else u

def asciiUpper (u : UInt16) : UInt16 := if 0x61 ≤ u ∧ u ≤ 0x7A then u - 0x20 else u

/-- `String.toLowerCase(Locale.US)`.  The Unicode tables are the runtime's; what
every version of them guarantees is stated here: ASCII is lower-cased letter by
letter, a non-empty text stays non-empty, and `/` is neither made nor lost nor
looked across (a word boundary, so the rule for a final sigma stops there). -/
structure CaseFolding where
  toLowerCase : JString → JString
  ascii : ∀ s : JString, (∀ u ∈ s, u < 0x80) → toLowerCase s = s.map asciiLower
  ne_nil : ∀ s : JString, toLowerCase s = [] → s = []
  splitOn : ∀ s : JString,
    (toLowerCase s).splitOn slash = (s.splitOn slash).map toLowerCase

/-- Splitting commutes with a unit-wise map that keeps the separator apart. -/
theorem splitOn_map {f : UInt16 → UInt16} {sep : UInt16} (hf : ∀ u, f u = sep ↔ u = sep)
    (s : JString) : (s.map f).splitOn sep = (s.splitOn sep).map (List.map f) := by
  induction s with
  | nil => rfl
  | cons u s ih =>
      rw [List.map_cons, List.splitOn_cons_eq_if_modifyHead, List.splitOn_cons_eq_if_modifyHead, ih]
      by_cases hu : u = sep
      · simp [hu, (hf sep).mpr rfl]
      · have hfu : f u ≠ sep := fun h => hu ((hf u).mp h)
        cases hs : s.splitOn sep with
        | nil => exact absurd hs (List.splitOn_ne_nil _ _)
        | cons piece pieces => simp [hu, hfu]

theorem asciiLower_eq_slash (u : UInt16) : asciiLower u = slash ↔ u = slash := by
  unfold asciiLower slash
  constructor
  · intro h
    split at h
    · rename_i hrange
      have h1 : (0x41 : UInt16).toNat ≤ u.toNat := UInt16.le_iff_toNat_le.mp hrange.1
      have h2 : u.toNat ≤ (0x5A : UInt16).toNat := UInt16.le_iff_toNat_le.mp hrange.2
      have h3 := congrArg UInt16.toNat h
      rw [UInt16.toNat_add] at h3
      simp at h1 h2 h3
      omega
    · exact h
  · intro h'
    obtain rfl := h'
    decide

/-- The folding that knows ASCII letters only. -/
def asciiFolding : CaseFolding where
  toLowerCase := List.map asciiLower
  ascii := fun _ _ => rfl
  ne_nil := fun _ h => List.map_eq_nil_iff.mp h
  splitOn := splitOn_map asciiLower_eq_slash

/-! ## Reading lines -/

/-- The lines of a text that starts inside the line `line`: every `\n`, `\r` or
`\r\n` ends a line, and the last line needs no terminator. -/
def linesFrom (line : JString) : JString → List JString
  | [] => if line = [] then [] else [line]
  | u :: rest =>
      if u = 0x0A then line :: linesFrom [] rest
      else if u = 0x0D then
        match rest with
        | v :: rest' =>
            if v = 0x0A then line :: linesFrom [] rest' else line :: linesFrom [] (v :: rest')
        | [] => line :: linesFrom [] []
      else linesFrom (line ++ [u]) rest

/-- All lines that `BufferedReader.readLine` returns for a text. -/
def readLines (text : JString) : List JString := linesFrom [] text

/-- A text on one line. -/
def IsLine (text : JString) : Prop := 0x0A ∉ text ∧ 0x0D ∉ text

instance (text : JString) : Decidable (IsLine text) := inferInstanceAs (Decidable (_ ∧ _))

theorem linesFrom_newline (line rest : JString) :
    linesFrom line (0x0A :: rest) = line :: readLines rest := by
  rw [linesFrom.eq_def]
  rfl

theorem linesFrom_cons {u : UInt16} (hlf : u ≠ 0x0A) (hcr : u ≠ 0x0D) (line rest : JString) :
    linesFrom line (u :: rest) = linesFrom (line ++ [u]) rest := by
  rw [linesFrom.eq_def]
  simp only [if_neg hlf, if_neg hcr]

/-- Reading goes on behind the terminator of a line. -/
theorem linesFrom_line {text : JString} (htext : IsLine text) (line rest : JString) :
    linesFrom line (text ++ 0x0A :: rest) = (line ++ text) :: readLines rest := by
  induction text generalizing line with
  | nil => rw [List.nil_append, linesFrom_newline, List.append_nil]
  | cons u text ih =>
      obtain ⟨hlf, hcr⟩ := htext
      obtain ⟨hu, hlf⟩ := not_or.mp (List.mem_cons.not.mp hlf)
      obtain ⟨hu', hcr⟩ := not_or.mp (List.mem_cons.not.mp hcr)
      rw [List.cons_append, linesFrom_cons (Ne.symm hu) (Ne.symm hu'), ih ⟨hlf, hcr⟩,
        List.append_assoc]
      rfl

/-- A carriage return ends a line, and takes a newline behind it along. -/
theorem linesFrom_return {v : UInt16} (line rest : JString) :
    linesFrom line (0x0D :: v :: rest) =
      line :: linesFrom [] (if v = 0x0A then rest else v :: rest) := by
  rw [linesFrom.eq_def]
  by_cases hv : v = 0x0A
  · simp only [hv, if_true]
    rfl
  · simp only [if_neg hv]
    rfl

/-- **A text behind a newline** is read by itself. -/
theorem linesFrom_append (line text rest : JString) :
    linesFrom line (text ++ 0x0A :: rest) = linesFrom line (text ++ [0x0A]) ++ readLines rest := by
  fun_induction linesFrom line text with
  | case1 | case2 =>
      rw [List.nil_append, List.nil_append, linesFrom_newline, linesFrom_newline]
      rfl
  | case3 line text ih =>
      rw [List.cons_append, List.cons_append, linesFrom_newline, linesFrom_newline, readLines,
        readLines, ih]
      rfl
  | case4 line text _ ih =>
      simp only [List.cons_append, linesFrom_return, if_true]
      rw [ih]
  | case5 line v text hv _ ih =>
      simp only [List.cons_append, linesFrom_return, if_neg hv]
      rw [← List.cons_append, ih]
      rfl
  | case6 line =>
      simp only [List.cons_append, List.nil_append, linesFrom_return, if_true]
      rfl
  | case7 line u text hlf hcr ih =>
      rw [List.cons_append, List.cons_append, linesFrom_cons hlf hcr, linesFrom_cons hlf hcr, ih]

/-- **Terminated lines are read back**: no line more and none less. -/
theorem readLines_flatMap {lines : List JString} (h : ∀ line ∈ lines, IsLine line) :
    readLines (lines.flatMap fun line => line ++ [0x0A]) = lines := by
  induction lines with
  | nil => rfl
  | cons line lines ih =>
      obtain ⟨hline, hlines⟩ := List.forall_mem_cons.mp h
      have hsplit : (line :: lines).flatMap (fun line => line ++ [0x0A]) =
          line ++ 0x0A :: lines.flatMap fun line => line ++ [0x0A] := by
        rw [List.flatMap_cons, List.append_assoc]
        rfl
      rw [hsplit, readLines, linesFrom_line hline, ih hlines]
      rfl

end Java
