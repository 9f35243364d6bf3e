import Mathlib.Data.List.Basic
import Mathlib.Data.Vector.Basic

/-!
# Block-wise processing: chunks, electronic code book, block padding

* `chunks n xs` cuts a list every `n` elements; the last chunk may be shorter.
* `codeBook f xs` replaces every chunk of full length by its image under a map
  of blocks.  Undoing the map block by block undoes the whole
  (`codeBook_codeBook`).
* `pad` fills a byte string to the next block boundary with copies of the fill
  length, always adding at least one byte; `unpad` checks and removes the fill.
  `unpad_pad` is the round trip, `unpad_eq_some` says what a successful removal
  took away.

Lists whose length is a multiple of the block size are handled by
`blockInduction`: they are empty or one block in front of such a list.
-/

namespace Blocks

section Chunks

variable {α : Type}

/-- Cut every `n` elements, at most `fuel` times. -/
def chunksAux (n : Nat) : Nat → List α → List (List α)
  | 0, _ => []
  | _ + 1, [] => []
  | fuel + 1, x :: xs => (x :: xs).take n :: chunksAux n fuel ((x :: xs).drop n)

/-- Cut every `n` elements; the last chunk may be shorter. -/
def chunks (n : Nat) (xs : List α) : List (List α) :=
  chunksAux n xs.length xs

/-- The fuel is irrelevant once it covers the list. -/
theorem chunksAux_eq_chunks {n : Nat} (hn : 0 < n) {fuel : Nat} {xs : List α}
    (hfuel : xs.length ≤ fuel) : chunksAux n fuel xs = chunks n xs := by
  have equal : ∀ (m k : Nat) (ys : List α), ys.length ≤ m → ys.length ≤ k →
      chunksAux n m ys = chunksAux n k ys := by
    intro m
    induction m with
    | zero =>
        intro k ys hm _
        have hnil : ys = [] := List.eq_nil_of_length_eq_zero (by omega)
        subst ys
        cases k <;> rfl
    | succ m ih =>
        intro k ys hm hk
        cases ys with
        | nil => cases k <;> rfl
        | cons y ys =>
            cases k with
            | zero => simp at hk
            | succ k =>
                simp only [List.length_cons] at hm hk
                simp only [chunksAux]
                rw [ih k _ (by simp; omega) (by simp; omega)]
  exact equal fuel xs.length xs hfuel (Nat.le_refl _)

@[simp] theorem chunks_nil (n : Nat) : chunks n ([] : List α) = [] := rfl

/-- The first chunk of a non-empty list. -/
theorem chunks_of_ne_nil {n : Nat} (hn : 0 < n) {xs : List α} (hxs : xs ≠ []) :
    chunks n xs = xs.take n :: chunks n (xs.drop n) := by
  cases xs with
  | nil => exact absurd rfl hxs
  | cons x xs =>
      show (x :: xs).take n :: chunksAux n xs.length ((x :: xs).drop n) = _
      rw [chunksAux_eq_chunks hn (by simp; omega)]

/-- A full block in front of a list is its first chunk. -/
theorem chunks_block_append {n : Nat} (hn : 0 < n) {block rest : List α}
    (hblock : block.length = n) : chunks n (block ++ rest) = block :: chunks n rest := by
  have hne : block ++ rest ≠ [] := by
    intro hnil
    have hlen := congrArg List.length hnil
    simp only [List.length_append, List.length_nil] at hlen
    omega
  rw [chunks_of_ne_nil hn hne]
  simp [← hblock]

/-- A non-empty list of at most `n` elements is one chunk. -/
theorem chunks_of_length_le {n : Nat} {xs : List α} (hxs : xs ≠ [])
    (hlen : xs.length ≤ n) : chunks n xs = [xs] := by
  have hpos : 0 < xs.length := List.length_pos_iff.mpr hxs
  rw [chunks_of_ne_nil (by omega) hxs, List.take_of_length_le hlen,
    List.drop_eq_nil_of_le hlen, chunks_nil]

/-- The chunks in a row are the list. -/
theorem flatten_chunks {n : Nat} (hn : 0 < n) (xs : List α) : (chunks n xs).flatten = xs := by
  induction h : xs.length using Nat.strongRecOn generalizing xs with
  | ind m ih =>
      by_cases hxs : xs = []
      · subst xs
        rfl
      · have hpos := List.length_pos_iff.mpr hxs
        have hrest := ih (xs.drop n).length (by simp; omega) (xs.drop n) rfl
        rw [chunks_of_ne_nil hn hxs, List.flatten_cons, hrest, List.take_append_drop]

/-- Lists whose length is a multiple of `n`: empty, or a block in front of such
a list. -/
theorem blockInduction {n : Nat} {P : List α → Prop} (nil : P [])
    (block : ∀ (b rest : List α), b.length = n → n ∣ rest.length → P rest → P (b ++ rest)) :
    ∀ xs : List α, n ∣ xs.length → P xs := by
  intro xs hdvd
  obtain ⟨k, hk⟩ := hdvd
  induction k generalizing xs with
  | zero =>
      have hnil : xs = [] := List.eq_nil_of_length_eq_zero (by simpa using hk)
      exact hnil ▸ nil
  | succ k ih =>
      rw [Nat.mul_succ] at hk
      have htake : (xs.take n).length = n := by simp; omega
      have hdrop : (xs.drop n).length = n * k := by simp; omega
      have hstep := block (xs.take n) (xs.drop n) htake ⟨k, hdrop⟩ (ih _ hdrop)
      rwa [List.take_append_drop] at hstep

/-- Cutting at a block boundary cuts the chunk list. -/
theorem chunks_append {n : Nat} (hn : 0 < n) {xs ys : List α} (hdvd : n ∣ xs.length) :
    chunks n (xs ++ ys) = chunks n xs ++ chunks n ys := by
  revert hdvd
  apply blockInduction
  · rfl
  · intro b rest hb _ ih
    rw [List.append_assoc, chunks_block_append hn hb, chunks_block_append hn hb, ih,
      List.cons_append]

/-- Cutting commutes with writing `k` elements for each one. -/
theorem chunks_flatMap {β : Type} {k m : Nat} (hk : 0 < k) (hm : 0 < m) {g : α → List β}
    (hg : ∀ x, (g x).length = k) (xs : List α) :
    chunks (k * m) (xs.flatMap g) = (chunks m xs).map (List.flatMap g) := by
  have hkm : 0 < k * m := Nat.mul_pos hk hm
  have hlen (ys : List α) : (ys.flatMap g).length = k * ys.length := by
    induction ys with
    | nil => rfl
    | cons y ys ih => simp [List.flatMap_cons, hg y, ih, Nat.mul_succ, Nat.add_comm]
  induction h : xs.length using Nat.strongRecOn generalizing xs with
  | ind n ih =>
      by_cases hxs : xs = []
      · subst xs
        rfl
      by_cases hle : xs.length ≤ m
      · have hne : xs.flatMap g ≠ [] := by
          intro hnil
          have hpos := List.length_pos_iff.mpr hxs
          have hzero := congrArg List.length hnil
          rw [hlen, List.length_nil, Nat.mul_eq_zero] at hzero
          omega
        have hshort : (xs.flatMap g).length ≤ k * m := by
          rw [hlen]
          exact Nat.mul_le_mul_left k hle
        rw [chunks_of_length_le hxs hle, chunks_of_length_le hne hshort]
        rfl
      · have htake : (xs.take m).length = m := by simp; omega
        have hblock : ((xs.take m).flatMap g).length = k * m := by rw [hlen, htake]
        have hrest := ih (xs.drop m).length (by simp; omega) (xs.drop m) rfl
        rw [← List.take_append_drop m xs, List.flatMap_append, chunks_block_append hkm hblock,
          chunks_block_append hm htake, hrest, List.map_cons]

/-- No chunk is longer than `n`. -/
theorem length_le_of_mem_chunks {n : Nat} {xs chunk : List α} (h : chunk ∈ chunks n xs) :
    chunk.length ≤ n := by
  have hfuel : ∀ (fuel : Nat) (ys : List α), chunk ∈ chunksAux n fuel ys → chunk.length ≤ n := by
    intro fuel
    induction fuel with
    | zero =>
        intro ys hmem
        cases hmem
    | succ fuel ih =>
        intro ys hmem
        cases ys with
        | nil => cases hmem
        | cons y ys =>
            rcases List.mem_cons.mp hmem with rfl | hrest
            · exact List.length_take_le n _
            · exact ih _ hrest
  exact hfuel xs.length xs h

/-- The chunks of a list of whole blocks are lists of whole blocks, when the
chunk length is one too. -/
theorem dvd_length_of_mem_chunks {k m : Nat} (hm : 0 < m) (hkm : k ∣ m) {xs chunk : List α}
    (hxs : k ∣ xs.length) (h : chunk ∈ chunks m xs) : k ∣ chunk.length := by
  induction hn : xs.length using Nat.strongRecOn generalizing xs with
  | ind n ih =>
      by_cases hnil : xs = []
      · subst xs
        simp at h
      by_cases hle : xs.length ≤ m
      · rw [chunks_of_length_le hnil hle, List.mem_singleton] at h
        exact h ▸ hxs
      · rw [chunks_of_ne_nil hm hnil, List.mem_cons] at h
        rcases h with rfl | h
        · have htake : (xs.take m).length = m := by simp; omega
          exact htake.symm ▸ hkm
        · have hdrop : k ∣ (xs.drop m).length := by
            rw [List.length_drop]
            exact Nat.dvd_sub hxs hkm
          exact ih (xs.drop m).length (by simp; omega) hdrop h rfl

end Chunks

section CodeBook

variable {α : Type} {n : Nat}

/-- One block through a block map; a list of another length is left alone. -/
def applyBlock (f : List.Vector α n → List.Vector α n) (block : List α) : List α :=
  if h : block.length = n then (f ⟨block, h⟩).val else block

/-- Electronic code book mode: every block on its own through the map. -/
def codeBook (f : List.Vector α n → List.Vector α n) (xs : List α) : List α :=
  (chunks n xs).flatMap (applyBlock f)

theorem length_applyBlock (f : List.Vector α n → List.Vector α n) (block : List α) :
    (applyBlock f block).length = block.length := by
  unfold applyBlock
  split
  · rename_i h
    rw [(f ⟨block, h⟩).property, h]
  · rfl

theorem applyBlock_applyBlock {f g : List.Vector α n → List.Vector α n}
    (hgf : ∀ v, g (f v) = v) (block : List α) :
    applyBlock g (applyBlock f block) = block := by
  by_cases h : block.length = n
  · have hf : applyBlock f block = (f ⟨block, h⟩).val := dif_pos h
    rw [hf]
    unfold applyBlock
    rw [dif_pos (f ⟨block, h⟩).property]
    exact congrArg Subtype.val (hgf ⟨block, h⟩)
  · have hf : applyBlock f block = block := dif_neg h
    rw [hf]
    exact dif_neg h

theorem codeBook_block_append (hn : 0 < n) (f : List.Vector α n → List.Vector α n)
    {block rest : List α} (hblock : block.length = n) :
    codeBook f (block ++ rest) = applyBlock f block ++ codeBook f rest := by
  simp [codeBook, chunks_block_append hn hblock]

theorem codeBook_append (hn : 0 < n) (f : List.Vector α n → List.Vector α n)
    {xs ys : List α} (hdvd : n ∣ xs.length) :
    codeBook f (xs ++ ys) = codeBook f xs ++ codeBook f ys := by
  simp [codeBook, chunks_append hn hdvd]

theorem length_codeBook (hn : 0 < n) (f : List.Vector α n → List.Vector α n)
    {xs : List α} (hdvd : n ∣ xs.length) : (codeBook f xs).length = xs.length := by
  revert xs
  apply blockInduction
  · rfl
  · intro b rest hb _ ih
    rw [codeBook_block_append hn f hb, List.length_append, List.length_append,
      length_applyBlock, ih]

/-- **Code book mode is inverted block by block.** -/
theorem codeBook_codeBook (hn : 0 < n) {f g : List.Vector α n → List.Vector α n}
    (hgf : ∀ v, g (f v) = v) {xs : List α} (hdvd : n ∣ xs.length) :
    codeBook g (codeBook f xs) = xs := by
  revert xs
  apply blockInduction
  · rfl
  · intro b rest hb _ ih
    have hlen : (applyBlock f b).length = n := (length_applyBlock f b).trans hb
    rw [codeBook_block_append hn f hb, codeBook_block_append hn g hlen, ih,
      applyBlock_applyBlock hgf]

/-- A block-aligned prefix of an image is the image of the prefix. -/
theorem take_codeBook (hn : 0 < n) (f : List.Vector α n → List.Vector α n)
    {xs : List α} {k : Nat} (hk : n ∣ k) (hlen : k ≤ xs.length) :
    (codeBook f xs).take k = codeBook f (xs.take k) := by
  have htake : (xs.take k).length = k := by simp; omega
  have hdvd : n ∣ (xs.take k).length := htake.symm ▸ hk
  conv_lhs => rw [← List.take_append_drop k xs, codeBook_append hn f hdvd]
  exact List.take_left' ((length_codeBook hn f hdvd).trans htake)

/-- A block-aligned suffix of an image is the image of the suffix. -/
theorem drop_codeBook (hn : 0 < n) (f : List.Vector α n → List.Vector α n)
    {xs : List α} {k : Nat} (hk : n ∣ k) (hlen : k ≤ xs.length) :
    (codeBook f xs).drop k = codeBook f (xs.drop k) := by
  have htake : (xs.take k).length = k := by simp; omega
  have hdvd : n ∣ (xs.take k).length := htake.symm ▸ hk
  conv_lhs => rw [← List.take_append_drop k xs, codeBook_append hn f hdvd]
  exact List.drop_left' ((length_codeBook hn f hdvd).trans htake)

/-- Cutting an image into chunks of whole blocks gives the images of the chunks. -/
theorem chunks_codeBook {m : Nat} (hn : 0 < n) (hm : 0 < m) (hnm : n ∣ m)
    (f : List.Vector α n → List.Vector α n) {xs : List α} (hxs : n ∣ xs.length) :
    chunks m (codeBook f xs) = (chunks m xs).map (codeBook f) := by
  have hlen {ys : List α} (hys : n ∣ ys.length) := length_codeBook hn f hys
  induction hk : xs.length using Nat.strongRecOn generalizing xs with
  | ind k ih =>
      by_cases hnil : xs = []
      · subst xs
        rfl
      have hpos := List.length_pos_iff.mpr hnil
      have himage : codeBook f xs ≠ [] := List.length_pos_iff.mp (by rw [hlen hxs]; exact hpos)
      by_cases hle : xs.length ≤ m
      · rw [chunks_of_length_le hnil hle, chunks_of_length_le himage (by rw [hlen hxs]; exact hle)]
        rfl
      · have hdrop : n ∣ (xs.drop m).length := by
          rw [List.length_drop]
          exact Nat.dvd_sub hxs hnm
        rw [chunks_of_ne_nil hm himage, chunks_of_ne_nil hm hnil,
          take_codeBook hn f hnm (by omega), drop_codeBook hn f hnm (by omega),
          ih (xs.drop m).length (by simp; omega) hdrop rfl, List.map_cons]

end CodeBook

section Padding

/-- How many bytes `pad` adds: up to the next block boundary, never none. -/
def fill (n length : Nat) : Nat := n - length % n

/-- Fill up to the next block boundary with copies of the fill length. -/
def pad (n : Nat) (xs : List UInt8) : List UInt8 :=
  xs ++ List.replicate (fill n xs.length) (UInt8.ofNat (fill n xs.length))

/-- Check and remove the fill: the last byte says how many equal bytes end the
text.  The empty text has no fill to remove. -/
def unpad (n : Nat) (xs : List UInt8) : Option (List UInt8) :=
  match xs.getLast? with
  | none => some []
  | some v =>
      if 1 ≤ v.toNat ∧ v.toNat ≤ n ∧ v.toNat ≤ xs.length ∧
          (xs.drop (xs.length - v.toNat)).all (· = v) then
        some (xs.take (xs.length - v.toNat))
      else none

theorem fill_pos {n : Nat} (hn : 0 < n) (length : Nat) : 0 < fill n length := by
  have hmod := Nat.mod_lt length hn
  unfold fill
  omega

theorem fill_le (n length : Nat) : fill n length ≤ n := by
  unfold fill
  omega

/-- Padding reaches the block boundary after the text. -/
theorem length_pad {n : Nat} (hn : 0 < n) (xs : List UInt8) :
    (pad n xs).length = n * (xs.length / n + 1) := by
  have hmod := Nat.mod_lt xs.length hn
  have hdiv := Nat.div_add_mod xs.length n
  simp only [pad, fill, List.length_append, List.length_replicate]
  rw [Nat.mul_succ]
  omega

theorem dvd_length_pad {n : Nat} (hn : 0 < n) (xs : List UInt8) :
    n ∣ (pad n xs).length :=
  ⟨_, length_pad hn xs⟩

/-- Removing a fill that is there. -/
theorem unpad_append_replicate {n : Nat} (xs : List UInt8) {v : UInt8}
    (hpos : 0 < v.toNat) (hle : v.toNat ≤ n) :
    unpad n (xs ++ List.replicate v.toNat v) = some xs := by
  have hlast : (xs ++ List.replicate v.toNat v).getLast? = some v := by
    rw [List.getLast?_append, List.getLast?_replicate, if_neg (by omega)]
    rfl
  unfold unpad
  rw [hlast]
  simp only [List.length_append, List.length_replicate, Nat.add_sub_cancel,
    List.drop_left, List.take_left]
  rw [if_pos]
  refine ⟨hpos, hle, by omega, ?_⟩
  rw [List.all_eq_true]
  exact fun b hb => decide_eq_true (List.mem_replicate.mp hb).2

/-- **Round trip.**  Removing the fill gives the text back. -/
theorem unpad_pad {n : Nat} (hn : 0 < n) (hbyte : n < 256) (xs : List UInt8) :
    unpad n (pad n xs) = some xs := by
  have hpos := fill_pos hn xs.length
  have hle := fill_le n xs.length
  have hv : (UInt8.ofNat (fill n xs.length)).toNat = fill n xs.length :=
    UInt8.toNat_ofNat_of_lt' (by simp only [UInt8.size]; omega)
  have h := unpad_append_replicate (n := n) xs (v := UInt8.ofNat (fill n xs.length))
    (by omega) (by omega)
  rw [hv] at h
  exact h

/-- Removing a fill makes nothing longer. -/
theorem length_unpad_le {n : Nat} {xs ys : List UInt8} (h : unpad n xs = some ys) :
    ys.length ≤ xs.length := by
  unfold unpad at h
  split at h
  · rw [← Option.some.inj h]
    exact Nat.zero_le _
  · split at h
    · rw [← Option.some.inj h]
      exact (List.take_prefix _ _).length_le
    · cases h

/-- What a successful removal took away: a run of equal bytes as long as their
value. -/
theorem unpad_eq_some {n : Nat} {xs ys : List UInt8} (hxs : xs ≠ [])
    (h : unpad n xs = some ys) :
    ∃ v : UInt8, 0 < v.toNat ∧ v.toNat ≤ n ∧ xs = ys ++ List.replicate v.toNat v := by
  unfold unpad at h
  cases hlast : xs.getLast? with
  | none => exact absurd (List.getLast?_eq_none_iff.mp hlast) hxs
  | some v =>
      simp only [hlast] at h
      split at h
      · rename_i hfill
        obtain ⟨hpos, hle, hlen, hall⟩ := hfill
        rw [List.all_eq_true] at hall
        refine ⟨v, hpos, hle, ?_⟩
        have hrun : xs.drop (xs.length - v.toNat) = List.replicate v.toNat v :=
          List.eq_replicate_iff.mpr ⟨by simp; omega, fun b hb => of_decide_eq_true (hall b hb)⟩
        rw [← Option.some.inj h, ← hrun, List.take_append_drop]
      · cases h

end Padding

end Blocks
