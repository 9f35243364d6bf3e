import Mathlib.Algebra.Ring.Nat
import Mathlib.Data.List.Basic

/-!
# Unicode text as UTF-16 units and as UTF-8 bytes

A text is a list of scalar values (`Char`).  `encode16` and `encode8` write it
in the two encodings; `scalars` and `decode8` read it back.  Reading never
fails: an unpaired surrogate is read as a given character, and a malformed byte
sequence as U+FFFD, after which reading resumes behind `malformedLength` bytes.

* `scalars_encode16`, `decode8_encode8` are the round trips.
* `IsWindow` is the shape of a byte window of a text whose ends may fall inside
  a character (`isWindow_take_drop`).  It decodes to one U+FFFD for every stray
  byte at the front and one for a cut character at the end, everything between
  unharmed (`decode8_window`), so re-encoding it can only make it longer, and by
  little (`length_le_recode`, `weight_recode_le`).
-/

namespace Utf

/-! ## UTF-16 -/

/-- One or two units. -/
def encode16Char (c : Char) : List UInt16 :=
  if c.toNat < 0x10000 then [UInt16.ofNat c.toNat]
  else [UInt16.ofNat (0xD800 + (c.toNat - 0x10000) / 0x400),
    UInt16.ofNat (0xDC00 + (c.toNat - 0x10000) % 0x400)]

/-- A text as UTF-16 units. -/
def encode16 (cs : List Char) : List UInt16 :=
  cs.flatMap encode16Char

def isHigh (u : UInt16) : Bool := 0xD800 ≤ u.toNat && u.toNat < 0xDC00

def isLow (u : UInt16) : Bool := 0xDC00 ≤ u.toNat && u.toNat < 0xE000

/-- A unit on its own: an unpaired surrogate reads as `bad`. -/
def lone (bad : Char) (u : UInt16) : Char :=
  if isHigh u || isLow u then bad else Char.ofNat u.toNat

/-- The scalar value of a surrogate pair. -/
def pair (u v : UInt16) : Char :=
  Char.ofNat (0x10000 + (u.toNat - 0xD800) * 0x400 + (v.toNat - 0xDC00))

/-- Read UTF-16 units, every unpaired surrogate as `bad`. -/
def scalars (bad : Char) : List UInt16 → List Char
  | [] => []
  | [u] => [lone bad u]
  | u :: v :: rest =>
      if isHigh u && isLow v then pair u v :: scalars bad rest
      else lone bad u :: scalars bad (v :: rest)

/-- The code points of characters avoid the surrogates. -/
theorem toNat_cases (c : Char) :
    c.toNat < 0xD800 ∨ (0xDFFF < c.toNat ∧ c.toNat < 0x110000) := by
  have h := c.valid
  exact h

/-- A unit that is no high surrogate is read on its own. -/
theorem scalars_cons_of_not_high {bad : Char} {u : UInt16} (h : isHigh u = false)
    (rest : List UInt16) : scalars bad (u :: rest) = lone bad u :: scalars bad rest := by
  cases rest with
  | nil => rfl
  | cons v rest => simp [scalars, h]

/-- A unit that is no low surrogate starts anew. -/
theorem scalars_append {bad : Char} {v : UInt16} (hlow : isLow v = false) (us vs : List UInt16) :
    scalars bad (us ++ v :: vs) = scalars bad us ++ scalars bad (v :: vs) := by
  fun_induction scalars bad us with
  | case1 => rfl
  | case2 u => simp [scalars, hlow]
  | case3 u w rest hpair ih =>
      simp only [List.cons_append, scalars, hpair, if_true]
      rw [ih]
  | case4 u w rest hpair ih =>
      simp only [List.cons_append, scalars, hpair, if_false, Bool.false_eq_true]
      rw [← List.cons_append, ih]

/-- The units of a character in front of a text are read as that character. -/
theorem scalars_encode16Char_append (bad : Char) (c : Char) (rest : List UInt16) :
    scalars bad (encode16Char c ++ rest) = c :: scalars bad rest := by
  have hc := toNat_cases c
  unfold encode16Char
  split
  · rename_i hbmp
    have hu : (UInt16.ofNat c.toNat).toNat = c.toNat :=
      UInt16.toNat_ofNat_of_lt' (by simp only [UInt16.size]; omega)
    have hhigh : isHigh (UInt16.ofNat c.toNat) = false := by
      simp only [isHigh, hu, Bool.and_eq_false_iff, decide_eq_false_iff_not]
      omega
    have hlow : isLow (UInt16.ofNat c.toNat) = false := by
      simp only [isLow, hu, Bool.and_eq_false_iff, decide_eq_false_iff_not]
      omega
    rw [List.singleton_append, scalars_cons_of_not_high hhigh]
    simp [lone, hhigh, hlow, hu]
  · rename_i hastral
    have hu : (UInt16.ofNat (0xD800 + (c.toNat - 0x10000) / 0x400)).toNat =
        0xD800 + (c.toNat - 0x10000) / 0x400 :=
      UInt16.toNat_ofNat_of_lt' (by simp only [UInt16.size]; omega)
    have hv : (UInt16.ofNat (0xDC00 + (c.toNat - 0x10000) % 0x400)).toNat =
        0xDC00 + (c.toNat - 0x10000) % 0x400 :=
      UInt16.toNat_ofNat_of_lt' (by simp only [UInt16.size]; omega)
    have hhigh : isHigh (UInt16.ofNat (0xD800 + (c.toNat - 0x10000) / 0x400)) = true := by
      simp only [isHigh, hu, Bool.and_eq_true, decide_eq_true_eq]
      omega
    have hlow : isLow (UInt16.ofNat (0xDC00 + (c.toNat - 0x10000) % 0x400)) = true := by
      simp only [isLow, hv, Bool.and_eq_true, decide_eq_true_eq]
      omega
    have hpair : pair (UInt16.ofNat (0xD800 + (c.toNat - 0x10000) / 0x400))
        (UInt16.ofNat (0xDC00 + (c.toNat - 0x10000) % 0x400)) = c := by
      have hsum : 0x10000 + (0xD800 + (c.toNat - 0x10000) / 0x400 - 0xD800) * 0x400 +
          (0xDC00 + (c.toNat - 0x10000) % 0x400 - 0xDC00) = c.toNat := by omega
      unfold pair
      rw [hu, hv, hsum, Char.ofNat_toNat]
    show scalars bad (_ :: _ :: rest) = _
    simp only [scalars, hhigh, hlow, hpair, Bool.and_self, if_true]

/-- The units of a text in front of others are read as that text. -/
theorem scalars_encode16_append (bad : Char) (cs : List Char) (rest : List UInt16) :
    scalars bad (encode16 cs ++ rest) = cs ++ scalars bad rest := by
  induction cs with
  | nil => rfl
  | cons c cs ih =>
      rw [encode16, List.flatMap_cons, ← encode16, List.append_assoc,
        scalars_encode16Char_append, ih]
      rfl

/-- **UTF-16 round trip.** -/
theorem scalars_encode16 (bad : Char) (cs : List Char) :
    scalars bad (encode16 cs) = cs := by
  induction cs with
  | nil => rfl
  | cons c cs ih =>
      show scalars bad (encode16Char c ++ encode16 cs) = c :: cs
      rw [scalars_encode16Char_append, ih]

/-- A character takes two units at most. -/
theorem length_encode16Char_le (c : Char) : (encode16Char c).length ≤ 2 := by
  unfold encode16Char
  split <;> simp

/-- A unit on its own is replaced by one unit. -/
theorem length_encode16Char_lone {bad : Char} (hbad : bad.toNat < 0x10000) (u : UInt16) :
    (encode16Char (lone bad u)).length = 1 := by
  have hone {c : Char} (hc : c.toNat < 0x10000) : (encode16Char c).length = 1 := by
    unfold encode16Char
    rw [if_pos hc]
    rfl
  have hu := u.toNat_lt
  unfold lone
  split
  · exact hone hbad
  · apply hone
    unfold Char.ofNat
    by_cases hvalid : u.toNat.isValidChar
    · rw [dif_pos hvalid]
      exact hu
    · rw [dif_neg hvalid]
      decide

/-- Reading units and writing them again gives no more of them. -/
theorem length_encode16_scalars {bad : Char} (hbad : bad.toNat < 0x10000) (us : List UInt16) :
    (encode16 (scalars bad us)).length ≤ us.length := by
  have hlone := length_encode16Char_lone hbad
  have hcons (c : Char) (cs : List Char) :
      (encode16 (c :: cs)).length = (encode16Char c).length + (encode16 cs).length := by
    simp [encode16]
  fun_induction scalars bad us with
  | case1 => simp [encode16]
  | case2 u =>
      rw [hcons, hlone]
      simp [encode16]
  | case3 u v rest hpair ih =>
      have hle := length_encode16Char_le (pair u v)
      simp only [hcons, List.length_cons]
      omega
  | case4 u v rest hpair ih =>
      simp only [hcons, hlone, List.length_cons] at ih ⊢
      omega

/-- The units of some characters. -/
def IsText (us : List UInt16) : Prop := ∃ cs, us = encode16 cs

theorem isText_encode16 (cs : List Char) : IsText (encode16 cs) := ⟨cs, rfl⟩

theorem isText_append {us vs : List UInt16} (hus : IsText us) (hvs : IsText vs) :
    IsText (us ++ vs) := by
  obtain ⟨cs, rfl⟩ := hus
  obtain ⟨ds, rfl⟩ := hvs
  exact ⟨cs ++ ds, (List.flatMap_append ..).symm⟩

/-- **A text can be cut** at a unit that is no surrogate. -/
theorem isText_cut {us vs : List UInt16} {u : UInt16} (hhigh : isHigh u = false)
    (hlow : isLow u = false) (h : IsText (us ++ u :: vs)) : IsText us ∧ IsText vs := by
  obtain ⟨cs, hcs⟩ := h
  have hread : cs = scalars '?' us ++ lone '?' u :: scalars '?' vs := by
    rw [← scalars_cons_of_not_high hhigh, ← scalars_append hlow, hcs, scalars_encode16]
  have hwrite : us ++ ([u] ++ vs) = encode16 (scalars '?' us) ++
      (encode16Char (lone '?' u) ++ encode16 (scalars '?' vs)) := by
    have hall : encode16 cs = encode16 (scalars '?' us) ++
        encode16 (lone '?' u :: scalars '?' vs) := by
      rw [encode16, encode16, encode16, ← List.flatMap_append, ← hread]
    exact hcs.trans hall
  -- no part is longer when it is written again, and so none is shorter
  have hbad : '?'.toNat < 0x10000 := by decide
  have hlength := congrArg List.length hwrite
  have hus := length_encode16_scalars hbad us
  have hvs := length_encode16_scalars hbad vs
  have hu := length_encode16Char_lone hbad u
  simp only [List.length_append, List.length_singleton, hu] at hlength
  obtain ⟨hfirst, hrest⟩ := List.append_inj hwrite (by omega)
  obtain ⟨-, hsecond⟩ := List.append_inj hrest (by simp [hu])
  exact ⟨⟨_, hfirst⟩, ⟨_, hsecond⟩⟩

/-! ## UTF-8 -/

/-- A text as UTF-8 bytes. -/
def encode8 (cs : List Char) : List UInt8 :=
  cs.flatMap String.utf8EncodeChar

/-- What malformed bytes are read as. -/
def replacement : Char := Char.ofNat 0xFFFD

def notContinuation (b : UInt8) : Bool := b &&& 0xc0 != 0x80

/-- How many bytes one U+FFFD stands for where no character starts: a cut
sequence at the end of the input is taken whole, otherwise the longest start of
a sequence that its lead byte allows. -/
def malformedLength : List UInt8 → Nat
  | [] => 1
  | b1 :: rest =>
      if b1 &&& 0xf0 = 0xe0 then
        match rest with
        | b2 :: b3 :: _ =>
            if (b1 = 0xe0 ∧ b2 &&& 0xe0 = 0x80) ∨ notContinuation b2 then 1
            else if notContinuation b3 then 2
            else 3
        | _ => rest.length + 1
      else if b1 &&& 0xf8 = 0xf0 then
        match rest with
        | b2 :: b3 :: _ :: _ =>
            if 0xf4 < b1 ∨ (b1 = 0xf0 ∧ (b2 < 0x90 ∨ 0xbf < b2)) ∨
                (b1 = 0xf4 ∧ b2 &&& 0xf0 ≠ 0x80) ∨ notContinuation b2 then 1
            else if notContinuation b3 then 2
            else 3
        | _ => rest.length + 1
      else 1

/-- The character whose encoding starts the bytes, if there is one. -/
def firstChar (bs : List UInt8) : Option Char :=
  bs.toByteArray.utf8DecodeChar? 0

/-- Decode at most `fuel` characters. -/
def decode8Aux : Nat → List UInt8 → List Char
  | 0, _ => []
  | _ + 1, [] => []
  | fuel + 1, b :: bs =>
      match firstChar (b :: bs) with
      | some c => c :: decode8Aux fuel ((b :: bs).drop c.utf8Size)
      | none => replacement :: decode8Aux fuel ((b :: bs).drop (malformedLength (b :: bs)))

/-- Decode UTF-8 with replacement. -/
def decode8 (bs : List UInt8) : List Char :=
  decode8Aux bs.length bs

theorem malformedLength_pos (bs : List UInt8) : 0 < malformedLength bs := by
  unfold malformedLength
  split
  · omega
  · split
    · split
      · split
        · omega
        · split <;> omega
      · omega
    · split
      · split
        · split
          · omega
          · split <;> omega
        · omega
      · omega

/-- The fuel is irrelevant once it covers the bytes. -/
theorem decode8Aux_eq_decode8 {fuel : Nat} {bs : List UInt8} (hfuel : bs.length ≤ fuel) :
    decode8Aux fuel bs = decode8 bs := by
  have equal : ∀ (m k : Nat) (xs : List UInt8), xs.length ≤ m → xs.length ≤ k →
      decode8Aux m xs = decode8Aux k xs := by
    intro m
    induction m with
    | zero =>
        intro k xs hm _
        have hnil : xs = [] := List.eq_nil_of_length_eq_zero (by omega)
        subst xs
        cases k <;> rfl
    | succ m ih =>
        intro k xs hm hk
        cases xs with
        | nil => cases k <;> rfl
        | cons x xs =>
            cases k with
            | zero => simp at hk
            | succ k =>
                simp only [List.length_cons] at hm hk
                simp only [decode8Aux]
                cases firstChar (x :: xs) with
                | some c =>
                    have hsize := c.utf8Size_pos
                    simp only
                    rw [ih k _ (by simp; omega) (by simp; omega)]
                | none =>
                    have hsize := malformedLength_pos (x :: xs)
                    simp only
                    rw [ih k _ (by simp; omega) (by simp; omega)]
  exact equal fuel bs.length bs hfuel (Nat.le_refl _)

/-- No more characters are read than there are bytes. -/
theorem length_decode8_le (bs : List UInt8) : (decode8 bs).length ≤ bs.length := by
  have hfuel (fuel : Nat) (xs : List UInt8) : (decode8Aux fuel xs).length ≤ fuel := by
    induction fuel generalizing xs with
    | zero => simp [decode8Aux]
    | succ fuel ih =>
        cases xs with
        | nil => simp [decode8Aux]
        | cons x xs =>
            unfold decode8Aux
            split
            · exact Nat.succ_le_succ (ih _)
            · exact Nat.succ_le_succ (ih _)
  exact hfuel bs.length bs

/-- A character has at most four bytes. -/
theorem length_encode8_le (cs : List Char) : (encode8 cs).length ≤ 4 * cs.length := by
  induction cs with
  | nil => simp [encode8]
  | cons c cs ih =>
      have hsize := c.utf8Size_le_four
      have hlength := String.length_utf8EncodeChar c
      simp only [encode8, List.flatMap_cons, List.length_append, List.length_cons] at ih ⊢
      omega

@[simp] theorem decode8_nil : decode8 [] = [] := rfl

theorem decode8_of_some {bs : List UInt8} {c : Char} (hne : bs ≠ [])
    (h : firstChar bs = some c) : decode8 bs = c :: decode8 (bs.drop c.utf8Size) := by
  cases bs with
  | nil => exact absurd rfl hne
  | cons b bs =>
      have hsize := c.utf8Size_pos
      show decode8Aux (bs.length + 1) (b :: bs) = _
      simp only [decode8Aux, h]
      rw [decode8Aux_eq_decode8 (by simp; omega)]

theorem decode8_of_none {bs : List UInt8} (hne : bs ≠ []) (h : firstChar bs = none) :
    decode8 bs = replacement :: decode8 (bs.drop (malformedLength bs)) := by
  cases bs with
  | nil => exact absurd rfl hne
  | cons b bs =>
      have hsize := malformedLength_pos (b :: bs)
      show decode8Aux (bs.length + 1) (b :: bs) = _
      simp only [decode8Aux, h]
      rw [decode8Aux_eq_decode8 (by simp; omega)]

theorem firstChar_encode_append (c : Char) (rest : List UInt8) :
    firstChar (String.utf8EncodeChar c ++ rest) = some c := by
  unfold firstChar
  rw [List.toByteArray_append]
  exact ByteArray.utf8DecodeChar?_utf8EncodeChar_append

/-- Bytes that decode to a character start with its encoding. -/
theorem encode_prefix_of_firstChar {bs : List UInt8} {c : Char} (h : firstChar bs = some c) :
    ∃ rest, bs = String.utf8EncodeChar c ++ rest := by
  obtain ⟨rest, hrest⟩ := ByteArray.exists_of_utf8DecodeChar?_eq_some h
  refine ⟨rest.data.toList, ?_⟩
  have hlists := congrArg (fun b : ByteArray => b.data.toList) hrest
  simpa [List.toList_data_toByteArray] using hlists

theorem decode8_encode_append (c : Char) (rest : List UInt8) :
    decode8 (String.utf8EncodeChar c ++ rest) = c :: decode8 rest := by
  have hlen : (String.utf8EncodeChar c).length = c.utf8Size := String.length_utf8EncodeChar c
  rw [decode8_of_some (by simp [String.utf8EncodeChar_ne_nil]) (firstChar_encode_append c rest),
    ← hlen, List.drop_left]

theorem decode8_encode8_append (cs : List Char) (rest : List UInt8) :
    decode8 (encode8 cs ++ rest) = cs ++ decode8 rest := by
  induction cs with
  | nil => rfl
  | cons c cs ih =>
      show decode8 ((String.utf8EncodeChar c ++ encode8 cs) ++ rest) = c :: cs ++ decode8 rest
      rw [List.append_assoc, decode8_encode_append, ih, List.cons_append]

/-- **UTF-8 round trip.** -/
theorem decode8_encode8 (cs : List Char) : decode8 (encode8 cs) = cs := by
  have h := decode8_encode8_append cs []
  simpa using h

/-! ## Windows of a text -/

/-- Bytes that no character starts with. -/
def Stray (head : List UInt8) : Prop :=
  head.length ≤ 3 ∧ ∀ b ∈ head, ¬ b.IsUTF8FirstByte

/-- Nothing, or a character's encoding without its last bytes. -/
def CutEnd (tail : List UInt8) : Prop :=
  tail = [] ∨ ∃ (c : Char) (k : Nat), 0 < k ∧ k < c.utf8Size ∧
    tail = (String.utf8EncodeChar c).take k

/-- The end of a character, whole characters, the start of a character. -/
def IsWindow (bs : List UInt8) : Prop :=
  ∃ head cs tail, bs = head ++ (encode8 cs ++ tail) ∧ Stray head ∧ CutEnd tail

/-- Only the first byte of an encoding can start a character. -/
theorem not_first_of_mem_drop {c : Char} {n : Nat} (hn : 0 < n) {b : UInt8}
    (h : b ∈ (String.utf8EncodeChar c).drop n) : ¬ b.IsUTF8FirstByte := by
  obtain ⟨i, hi, rfl⟩ := List.mem_iff_getElem.mp h
  rw [List.getElem_drop, UInt8.isUTF8FirstByte_getElem_utf8EncodeChar]
  omega

theorem drop_encode8 (cs : List Char) (n : Nat) :
    ∃ head cs', (encode8 cs).drop n = head ++ encode8 cs' ∧ Stray head := by
  induction cs generalizing n with
  | nil => exact ⟨[], [], by simp [encode8], by simp [Stray]⟩
  | cons c cs ih =>
      have hlen : (String.utf8EncodeChar c).length = c.utf8Size := String.length_utf8EncodeChar c
      have hcons : encode8 (c :: cs) = String.utf8EncodeChar c ++ encode8 cs := rfl
      by_cases hzero : n = 0
      · subst n
        exact ⟨[], c :: cs, rfl, by simp [Stray]⟩
      by_cases hlt : n < c.utf8Size
      · have hfour := c.utf8Size_le_four
        refine ⟨(String.utf8EncodeChar c).drop n, cs, ?_, ?_, ?_⟩
        · rw [hcons, List.drop_append_of_le_length (by omega)]
        · rw [List.length_drop]
          omega
        · intro b hb
          exact not_first_of_mem_drop (by omega) hb
      · obtain ⟨head, cs', hdrop, hstray⟩ := ih (n - c.utf8Size)
        refine ⟨head, cs', ?_, hstray⟩
        rw [hcons, List.drop_append, List.drop_eq_nil_of_le (by omega), List.nil_append, hlen,
          hdrop]

theorem take_encode8 (cs : List Char) (m : Nat) :
    ∃ cs' tail, (encode8 cs).take m = encode8 cs' ++ tail ∧ CutEnd tail := by
  induction cs generalizing m with
  | nil => exact ⟨[], [], by simp [encode8], Or.inl rfl⟩
  | cons c cs ih =>
      have hlen : (String.utf8EncodeChar c).length = c.utf8Size := String.length_utf8EncodeChar c
      have hcons : encode8 (c :: cs) = String.utf8EncodeChar c ++ encode8 cs := rfl
      by_cases hzero : m = 0
      · subst m
        exact ⟨[], [], by simp [encode8], Or.inl rfl⟩
      by_cases hlt : m < c.utf8Size
      · refine ⟨[], (String.utf8EncodeChar c).take m, ?_, Or.inr ⟨c, m, by omega, hlt, rfl⟩⟩
        rw [hcons, List.take_append_of_le_length (by omega)]
        rfl
      · obtain ⟨cs', tail, htake, hcut⟩ := ih (m - c.utf8Size)
        refine ⟨c :: cs', tail, ?_, hcut⟩
        rw [hcons, List.take_append, List.take_of_length_le (by omega), hlen, htake]
        simp [encode8]

/-- Every byte window of a text is one. -/
theorem isWindow_take_drop (cs : List Char) (n m : Nat) :
    IsWindow (((encode8 cs).drop n).take m) := by
  obtain ⟨head, cs', hdrop, hstray⟩ := drop_encode8 cs n
  by_cases hm : m ≤ head.length
  · refine ⟨head.take m, [], [], ?_, ?_, Or.inl rfl⟩
    · rw [hdrop, List.take_append_of_le_length hm]
      simp [encode8]
    · refine ⟨by simp; have := hstray.1; omega, ?_⟩
      intro b hb
      exact hstray.2 b (List.mem_of_mem_take hb)
  · obtain ⟨cs'', tail, htake, hcut⟩ := take_encode8 cs' (m - head.length)
    refine ⟨head, cs'', tail, ?_, hstray, hcut⟩
    rw [hdrop, List.take_append, List.take_of_length_le (by omega), htake]

/-- A stray byte is read as one U+FFFD. -/
theorem decode8_stray_cons {b : UInt8} (hb : ¬ b.IsUTF8FirstByte) (rest : List UInt8) :
    decode8 (b :: rest) = replacement :: decode8 rest := by
  have hnone : firstChar (b :: rest) = none := by
    cases hc : firstChar (b :: rest) with
    | none => rfl
    | some c =>
        obtain ⟨tail, htail⟩ := encode_prefix_of_firstChar hc
        have hpos : 0 < (String.utf8EncodeChar c).length := by
          rw [String.length_utf8EncodeChar]
          exact c.utf8Size_pos
        have hhead : (String.utf8EncodeChar c)[0] = b := by
          have hget := congrArg (fun l : List UInt8 => l[0]?) htail
          simpa [List.getElem?_append_left hpos, List.getElem?_eq_getElem hpos] using hget.symm
        exact absurd (hhead ▸ UInt8.isUTF8FirstByte_getElem_zero_utf8EncodeChar) hb
  have hlength : malformedLength (b :: rest) = 1 := by
    unfold UInt8.IsUTF8FirstByte at hb
    push Not at hb
    simp [malformedLength, hb.2.2.1, hb.2.2.2]
  rw [decode8_of_none (by simp) hnone, hlength]
  rfl

theorem decode8_stray_append {head : List UInt8} (hstray : ∀ b ∈ head, ¬ b.IsUTF8FirstByte)
    (rest : List UInt8) :
    decode8 (head ++ rest) = List.replicate head.length replacement ++ decode8 rest := by
  induction head with
  | nil => rfl
  | cons b head ih =>
      rw [List.cons_append, decode8_stray_cons (hstray b (by simp)),
        ih (fun b hb => hstray b (List.mem_cons_of_mem _ hb))]
      rfl

/-- A property of all bytes, checked on the numbers below 256. -/
theorem forall_byte {P : UInt8 → Prop} (h : ∀ n : Nat, n < 256 → P (UInt8.ofNat n)) (b : UInt8) :
    P b := by
  simpa using h b.toNat b.toNat_lt

/-- A cut encoding at the end of the input is malformed as a whole. -/
theorem malformedLength_take {c : Char} {k : Nat} (hpos : 0 < k) (hk : k < c.utf8Size) :
    malformedLength ((String.utf8EncodeChar c).take k) = k := by
  have three : ∀ x : UInt8, (x &&& 0x0f ||| 0xe0) &&& 0xf0 = 0xe0 :=
    forall_byte (by decide +kernel)
  have four : ∀ x : UInt8, (x &&& 0x07 ||| 0xf0) &&& 0xf0 ≠ 0xe0 ∧
      (x &&& 0x07 ||| 0xf0) &&& 0xf8 = 0xf0 :=
    forall_byte (by decide +kernel)
  match hsize : c.utf8Size, c.utf8Size_le_four with
  | 0, _ | 1, _ => omega
  | 2, _ =>
      obtain rfl : k = 1 := by omega
      rw [String.utf8EncodeChar_eq_cons_cons hsize]
      simp [malformedLength]
  | 3, _ =>
      rw [String.utf8EncodeChar_eq_cons_cons_cons hsize]
      obtain rfl | rfl : k = 1 ∨ k = 2 := by omega
      · simp [malformedLength, three]
      · simp [malformedLength, three]
  | 4, _ =>
      rw [String.utf8EncodeChar_eq_cons_cons_cons_cons hsize]
      obtain rfl | rfl | rfl : k = 1 ∨ k = 2 ∨ k = 3 := by omega
      · simp [malformedLength, four]
      · simp [malformedLength, four]
      · simp [malformedLength, four]

/-- A cut character at the end is read as one U+FFFD. -/
theorem decode8_take {c : Char} {k : Nat} (hpos : 0 < k) (hk : k < c.utf8Size) :
    decode8 ((String.utf8EncodeChar c).take k) = [replacement] := by
  have hlen : ((String.utf8EncodeChar c).take k).length = k := by
    rw [List.length_take, String.length_utf8EncodeChar]
    omega
  have hne : (String.utf8EncodeChar c).take k ≠ [] := by
    intro hnil
    rw [hnil] at hlen
    simp at hlen
    omega
  have hnone : firstChar ((String.utf8EncodeChar c).take k) = none := by
    cases hd : firstChar ((String.utf8EncodeChar c).take k) with
    | none => rfl
    | some d =>
        -- the character read would also start the whole encoding
        obtain ⟨rest, hrest⟩ := encode_prefix_of_firstChar hd
        have hwhole : String.utf8EncodeChar c =
            String.utf8EncodeChar d ++ (rest ++ (String.utf8EncodeChar c).drop k) := by
          rw [← List.append_assoc, ← hrest, List.take_append_drop]
        have hdecode := firstChar_encode_append c []
        rw [List.append_nil, hwhole, firstChar_encode_append d] at hdecode
        obtain rfl : d = c := Option.some.inj hdecode
        have hle := congrArg List.length hrest
        rw [hlen, List.length_append, String.length_utf8EncodeChar] at hle
        omega
  rw [decode8_of_none hne hnone, malformedLength_take hpos hk, List.drop_eq_nil_of_le (by omega)]
  rfl

/-- **What a window decodes to.** -/
theorem decode8_window {head : List UInt8} {cs : List Char} {tail : List UInt8}
    (hhead : Stray head) (htail : CutEnd tail) :
    decode8 (head ++ (encode8 cs ++ tail)) =
      List.replicate head.length replacement ++
        (cs ++ if tail = [] then [] else [replacement]) := by
  rw [decode8_stray_append hhead.2, decode8_encode8_append]
  rcases htail with rfl | ⟨c, k, hpos, hk, rfl⟩
  · simp
  · have hne : (String.utf8EncodeChar c).take k ≠ [] := by
      simp [String.utf8EncodeChar_ne_nil]
      omega
    rw [decode8_take hpos hk, if_neg hne]

theorem encode8_append (cs ds : List Char) : encode8 (cs ++ ds) = encode8 cs ++ encode8 ds := by
  simp [encode8]

theorem encode8_replicate_replacement (k : Nat) :
    (encode8 (List.replicate k replacement)).length = 3 * k := by
  induction k with
  | zero => rfl
  | succ k ih =>
      have hstep : encode8 (List.replicate (k + 1) replacement) =
          String.utf8EncodeChar replacement ++ encode8 (List.replicate k replacement) := rfl
      have hthree : (String.utf8EncodeChar replacement).length = 3 := by decide
      rw [hstep, List.length_append, ih, hthree]
      omega

/-- Bytes a cut end is short of three. -/
theorem length_cutEnd_le {tail : List UInt8} (h : CutEnd tail) : tail.length ≤ 3 := by
  rcases h with rfl | ⟨c, k, _, hk, rfl⟩
  · simp
  · have hfour := c.utf8Size_le_four
    rw [List.length_take]
    omega

/-- Decoding and encoding again never makes a window shorter. -/
theorem length_le_recode {bs : List UInt8} (h : IsWindow bs) :
    bs.length ≤ (encode8 (decode8 bs)).length := by
  obtain ⟨head, cs, tail, rfl, hhead, htail⟩ := h
  rw [decode8_window hhead htail, encode8_append, encode8_append]
  have htail3 := length_cutEnd_le htail
  simp only [List.length_append, encode8_replicate_replacement]
  split
  · rename_i hnil
    simp [hnil, encode8]
    omega
  · have hone := encode8_replicate_replacement 1
    simp only [List.replicate_one] at hone
    omega

/-- The total weight of a byte string. -/
def weight (w : UInt8 → Nat) (bs : List UInt8) : Nat := (bs.map w).sum

theorem weight_append (w : UInt8 → Nat) (bs cs : List UInt8) :
    weight w (bs ++ cs) = weight w bs + weight w cs := by
  simp [weight]

/-- With weights of at least one, a byte string weighs at least its length. -/
theorem length_le_weight {w : UInt8 → Nat} (hw : ∀ b, 1 ≤ w b) (bs : List UInt8) :
    bs.length ≤ weight w bs := by
  induction bs with
  | nil => simp
  | cons b bs ih =>
      have hb := hw b
      simp only [weight, List.map_cons, List.sum_cons, List.length_cons] at ih ⊢
      omega

theorem weight_replicate_replacement {w : UInt8 → Nat}
    (hrep : weight w (String.utf8EncodeChar replacement) = 3) (k : Nat) :
    weight w (encode8 (List.replicate k replacement)) = 3 * k := by
  induction k with
  | zero => rfl
  | succ k ih =>
      have hstep : encode8 (List.replicate (k + 1) replacement) =
          String.utf8EncodeChar replacement ++ encode8 (List.replicate k replacement) := rfl
      rw [hstep, weight_append, ih, hrep]
      omega

/-- Decoding and encoding again makes a window heavier by at most eight, where
every byte weighs at least one and U+FFFD weighs three. -/
theorem weight_recode_le {w : UInt8 → Nat} (hw : ∀ b, 1 ≤ w b)
    (hrep : weight w (String.utf8EncodeChar replacement) = 3) {bs : List UInt8}
    (h : IsWindow bs) : weight w (encode8 (decode8 bs)) ≤ weight w bs + 8 := by
  obtain ⟨head, cs, tail, rfl, hhead, htail⟩ := h
  rw [decode8_window hhead htail, encode8_append, encode8_append]
  have hheadw := length_le_weight hw head
  have hhead3 := hhead.1
  simp only [weight_append, weight_replicate_replacement hrep]
  split
  · simp [encode8, weight]
    simp only [weight] at hheadw
    omega
  · rename_i hne
    have htailw := length_le_weight hw tail
    have hpos : 0 < tail.length := List.length_pos_iff.mpr hne
    have hone := weight_replicate_replacement hrep 1
    simp only [List.replicate_one] at hone
    omega

/-! ## Between the encodings -/

/-- Reading UTF-16 and writing UTF-8 gives at least one byte for every unit. -/
theorem length_le_encode8_scalars (bad : Char) (us : List UInt16) :
    us.length ≤ (encode8 (scalars bad us)).length := by
  have one (c : Char) : 1 ≤ (String.utf8EncodeChar c).length := by
    rw [String.length_utf8EncodeChar]
    exact c.utf8Size_pos
  fun_induction scalars bad us with
  | case1 => simp
  | case2 u => simpa [encode8] using one (lone bad u)
  | case3 u v rest hpair ih =>
      -- a surrogate pair is a character of at least two bytes
      have htwo : 2 ≤ (String.utf8EncodeChar (pair u v)).length := by
        simp only [isHigh, isLow, Bool.and_eq_true, decide_eq_true_eq] at hpair
        have hnat : (pair u v).toNat =
            0x10000 + (u.toNat - 0xD800) * 0x400 + (v.toNat - 0xDC00) := by
          unfold pair Char.ofNat
          rw [dif_pos (Or.inr ⟨by omega, by omega⟩)]
          rfl
        rw [String.length_utf8EncodeChar]
        unfold Char.utf8Size
        simp only [UInt32.le_iff_toNat_le]
        have hval : (pair u v).val.toNat = (pair u v).toNat := rfl
        split
        · rename_i hsmall
          have : (pair u v).toNat ≤ 127 := hsmall
          omega
        · split <;> first | omega | (split <;> omega)
      simp only [encode8, List.flatMap_cons, List.length_append, List.length_cons] at ih ⊢
      omega
  | case4 u v rest hpair ih =>
      have hone := one (lone bad u)
      simp only [encode8, List.flatMap_cons, List.length_append, List.length_cons] at ih ⊢
      omega

end Utf
