import TrashClear.ZipUtil

/-!
# The two limits of an archive

When a limit is positive, a file is archived when its size is at most the limit of one
file and the total stays below the total limit (`taken`).  The total and its sum with the
next size are 32-bit ints, and both tests run when one limit is positive.

* `withinLimits_iff`: two positive limits are kept exactly when no such sum leaves the
  range of ints; by every directory, when the limits together do not
  (`withinLimits_forall_iff`).
* `independent_iff`: a limit that is not positive restricts nothing exactly when both
  tests agree on every file.
-/

namespace TrashClear.ZipUtil

open Java Run ZipOutputStream

/-! ## The files that pass both tests -/

section Taken

variable (fileSizeLimit totalSizeLimit : Int64)

/-- Both tests of a file, with the total `currentSize`. -/
def Takes (currentSize : Int32) (f : File) : Prop :=
  (available f).toInt ≤ fileSizeLimit.toInt ∧
    (currentSize + available f).toInt < totalSizeLimit.toInt

instance (currentSize : Int32) (f : File) :
    Decidable (Takes fileSizeLimit totalSizeLimit currentSize f) :=
  inferInstanceAs (Decidable (_ ∧ _))

/-- The files that pass both tests, from the total `currentSize` on. -/
def taken : Int32 → List File → List File
  | _, [] => []
  | currentSize, f :: fs =>
      if Takes fileSizeLimit totalSizeLimit currentSize f then
        f :: taken (currentSize + available f) fs
      else taken currentSize fs

variable {fileSizeLimit totalSizeLimit}

theorem needSizeLimit_iff : needSizeLimit fileSizeLimit totalSizeLimit = true ↔
    0 < fileSizeLimit.toInt ∨ 0 < totalSizeLimit.toInt := by
  have hzero : (0 : Int64).toInt = 0 := rfl
  simp only [needSizeLimit, Bool.or_eq_true, decide_eq_true_eq, gt_iff_lt,
    Int64.lt_iff_toInt_lt, hzero]
  exact or_comm

/-- With a limit, the tests decide, and their total is kept. -/
theorem check_of_limited (hlimit : needSizeLimit fileSizeLimit totalSizeLimit = true) (n : Nat)
    (p : Progress) (f : File) (i : Nat) :
    ((check fileSizeLimit totalSizeLimit n p f i).2 = true ↔
        Takes fileSizeLimit totalSizeLimit p.currentSize f) ∧
      (check fileSizeLimit totalSizeLimit n p f i).1.currentSize =
        if Takes fileSizeLimit totalSizeLimit p.currentSize f then p.currentSize + available f
        else p.currentSize := by
  unfold check Takes
  rw [if_pos hlimit]
  simp only [gt_iff_lt, Int64.lt_iff_toInt_lt, Int32.toInt_toInt64]
  by_cases hfile : fileSizeLimit.toInt < (available f).toInt
  · have hle : ¬ (available f).toInt ≤ fileSizeLimit.toInt := by omega
    simp [hfile, hle]
  · have hle : (available f).toInt ≤ fileSizeLimit.toInt := by omega
    by_cases htotal : (p.currentSize + available f).toInt < totalSizeLimit.toInt
    · simp only [hfile, htotal, hle, if_true, if_false, and_self]
    · simp only [hfile, htotal, if_false, and_false, Bool.false_eq_true, true_and]

/-- With a limit, the archived files are those that pass both tests. -/
theorem archived_of_limited (dir : Directory)
    (hlimit : needSizeLimit fileSizeLimit totalSizeLimit = true) :
    archived fileSizeLimit totalSizeLimit dir =
      taken fileSizeLimit totalSizeLimit 0 dir.listFiles := by
  have hadmitted (n : Nat) (xs : List (File × Nat)) (p : Progress) :
      admitted fileSizeLimit totalSizeLimit n p xs =
        taken fileSizeLimit totalSizeLimit p.currentSize (xs.map Prod.fst) := by
    induction xs generalizing p with
    | nil => rfl
    | cons x xs ih =>
        obtain ⟨htake, hsize⟩ := check_of_limited hlimit n p x.1 x.2
        rw [admitted_cons]
        simp only [htake, List.map_cons, taken, ih, hsize]
        by_cases h : Takes fileSizeLimit totalSizeLimit p.currentSize x.1
        · simp only [h, if_true]
        · simp only [h, if_false]
  rw [archived_eq, admittedFiles, hadmitted, List.zipIdx_map_fst]
  rfl

/-- Without a limit, all files are archived. -/
theorem archived_of_unlimited (dir : Directory)
    (hlimit : needSizeLimit fileSizeLimit totalSizeLimit = false) :
    archived fileSizeLimit totalSizeLimit dir = dir.listFiles := by
  have hadmitted (n : Nat) (xs : List (File × Nat)) (p : Progress) :
      admitted fileSizeLimit totalSizeLimit n p xs = xs.map Prod.fst := by
    induction xs generalizing p with
    | nil => rfl
    | cons x xs ih =>
        rw [admitted_cons]
        simp [check, hlimit, ih]
  rw [archived_eq, admittedFiles, hadmitted, List.zipIdx_map_fst]

end Taken

/-! ## Two positive limits -/

/-- Adding a size to a total wraps around once at most. -/
theorem toInt_add_available {currentSize : Int32} (h : 0 ≤ currentSize.toInt) (f : File) :
    (currentSize + available f).toInt =
      if currentSize.toInt + (available f).toInt < 2 ^ 31 then
        currentSize.toInt + (available f).toInt
      else currentSize.toInt + (available f).toInt - 2 ^ 32 := by
  have hlt := currentSize.toInt_lt
  have havailable := toInt_available f
  rw [Int32.toInt_add, Int.bmod_def]
  split <;> split <;> omega

/-- Every archived file keeps the limit of one file, and all of them together the total
limit. -/
structure WithinLimits (dir : Directory) (fileSizeLimit totalSizeLimit : Int32) : Prop where
  file : ∀ f ∈ archived fileSizeLimit.toInt64 totalSizeLimit.toInt64 dir,
    (f.size : Int) ≤ fileSizeLimit.toInt
  total : (((archived fileSizeLimit.toInt64 totalSizeLimit.toInt64 dir).map File.size).sum : Int) <
    totalSizeLimit.toInt

/-- The total of the files that two limits admit in turn, without wrap-around. -/
def exactTotal (fileSizeLimit totalSizeLimit : Int) : Nat → List File → Nat
  | total, [] => total
  | total, f :: fs =>
      if (f.size : Int) ≤ fileSizeLimit ∧ (total : Int) + f.size < totalSizeLimit then
        exactTotal fileSizeLimit totalSizeLimit (total + f.size) fs
      else exactTotal fileSizeLimit totalSizeLimit total fs

/-- No file whose size is within its limit comes, with the total of those admitted before
it, to the end of the ints. -/
def SumsInRange (fileSizeLimit totalSizeLimit : Int) (total : Nat) (fs : List File) : Prop :=
  ∀ before f after, fs = before ++ f :: after → (available f).toInt ≤ fileSizeLimit →
    (exactTotal fileSizeLimit totalSizeLimit total before : Int) + (available f).toInt < 2 ^ 31

/-- What holds at every place of a list holds at its head and at every place behind. -/
theorem forall_split_cons {α : Type} {P : List α → α → Prop} {x : α} {xs : List α} :
    (∀ before y after, x :: xs = before ++ y :: after → P before y) ↔
      P [] x ∧ ∀ before y after, xs = before ++ y :: after → P (x :: before) y := by
  constructor
  · intro h
    refine ⟨h [] x xs rfl, fun before y after hxs => ?_⟩
    exact h (x :: before) y after (by rw [hxs]; rfl)
  · intro h before y after hxs
    obtain ⟨hhead, hrest⟩ := h
    cases before with
    | nil =>
        obtain ⟨rfl, -⟩ := List.cons.inj hxs
        exact hhead
    | cons z before =>
        obtain ⟨rfl, htail⟩ := List.cons.inj hxs
        exact hrest before y after htail

section Step

variable {fileSizeLimit totalSizeLimit : Int64} {currentSize : Int32} {total : Nat} {f : File}

/-- A sum that is in range is tested as it is. -/
theorem takes_iff_of_range (hint : totalSizeLimit.toInt < 2 ^ 31)
    (hexact : currentSize.toInt = total)
    (hrange : (available f).toInt ≤ fileSizeLimit.toInt →
      (total : Int) + (available f).toInt < 2 ^ 31) :
    Takes fileSizeLimit totalSizeLimit currentSize f ↔
      (f.size : Int) ≤ fileSizeLimit.toInt ∧ (total : Int) + f.size < totalSizeLimit.toInt := by
  have havailable := toInt_available f
  have hnonneg : 0 ≤ currentSize.toInt := by omega
  have hsum := toInt_add_available hnonneg f
  unfold Takes
  by_cases hfile : (available f).toInt ≤ fileSizeLimit.toInt
  · rw [hexact, if_pos (hrange hfile)] at hsum
    rw [hsum]
    omega
  · omega

/-- The total of an archived file stays exact. -/
theorem exact_of_takes (hint : totalSizeLimit.toInt < 2 ^ 31)
    (hexact : currentSize.toInt = total)
    (hrange : (available f).toInt ≤ fileSizeLimit.toInt →
      (total : Int) + (available f).toInt < 2 ^ 31)
    (htakes : Takes fileSizeLimit totalSizeLimit currentSize f) :
    (currentSize + available f).toInt = ((total + f.size : Nat) : Int) := by
  have havailable := toInt_available f
  have hnonneg : 0 ≤ currentSize.toInt := by omega
  have hsum := toInt_add_available hnonneg f
  rw [hexact, if_pos (hrange htakes.1)] at hsum
  have hbelow := htakes.2
  rw [Nat.cast_add]
  omega

/-- A sum that is out of range is negative, and passes the test. -/
theorem takes_of_overflow (htotal : (total : Int) < totalSizeLimit.toInt)
    (hexact : currentSize.toInt = total) (hfile : (available f).toInt ≤ fileSizeLimit.toInt)
    (hrange : ¬ (total : Int) + (available f).toInt < 2 ^ 31) :
    Takes fileSizeLimit totalSizeLimit currentSize f := by
  have hlt := currentSize.toInt_lt
  have havailable := toInt_available f
  have hnonneg : 0 ≤ currentSize.toInt := by omega
  have hsum := toInt_add_available hnonneg f
  rw [hexact, if_neg hrange] at hsum
  exact ⟨hfile, by omega⟩

end Step

/-- **From a total that is exact**, the limits are kept exactly when no sum that is
tested reaches the end of the ints. -/
theorem taken_within_iff (fileSizeLimit : Int64) {totalSizeLimit : Int64}
    (hint : totalSizeLimit.toInt < 2 ^ 31) (fs : List File) {currentSize : Int32} {total : Nat}
    (hexact : currentSize.toInt = total) (htotal : (total : Int) < totalSizeLimit.toInt) :
    ((∀ f ∈ taken fileSizeLimit totalSizeLimit currentSize fs,
          (f.size : Int) ≤ fileSizeLimit.toInt) ∧
        (total : Int) + ((taken fileSizeLimit totalSizeLimit currentSize fs).map File.size).sum <
          totalSizeLimit.toInt) ↔
      SumsInRange fileSizeLimit.toInt totalSizeLimit.toInt total fs := by
  unfold SumsInRange
  induction fs generalizing currentSize total with
  | nil => simp [taken, htotal]
  | cons f fs ih =>
      have hstart : exactTotal fileSizeLimit.toInt totalSizeLimit.toInt total [] = total := rfl
      rw [forall_split_cons, hstart]
      by_cases hrange : (available f).toInt ≤ fileSizeLimit.toInt →
          (total : Int) + (available f).toInt < 2 ^ 31
      · have hiff := takes_iff_of_range hint hexact hrange
        by_cases htakes : Takes fileSizeLimit totalSizeLimit currentSize f
        · -- the total grows by the size of the file, and stays exact
          obtain ⟨hfile, hbelow⟩ := hiff.mp htakes
          have hgrown (before : List File) :
              exactTotal fileSizeLimit.toInt totalSizeLimit.toInt total (f :: before) =
                exactTotal fileSizeLimit.toInt totalSizeLimit.toInt (total + f.size) before :=
            if_pos ⟨hfile, hbelow⟩
          have hrest := ih (exact_of_takes hint hexact hrange htakes)
            (by rw [Nat.cast_add]; exact hbelow)
          simp only [hgrown, ← hrest]
          rw [taken, if_pos htakes, List.forall_mem_cons, List.map_cons, List.sum_cons,
            Nat.cast_add, Nat.cast_add, Int.add_assoc]
          exact ⟨fun h => ⟨hrange, h.1.2, h.2⟩, fun h => ⟨⟨hfile, h.2.1⟩, h.2.2⟩⟩
        · have hsame (before : List File) :
              exactTotal fileSizeLimit.toInt totalSizeLimit.toInt total (f :: before) =
                exactTotal fileSizeLimit.toInt totalSizeLimit.toInt total before :=
            if_neg fun h => htakes (hiff.mpr h)
          simp only [hsame, ← ih hexact htotal]
          rw [taken, if_neg htakes]
          exact ⟨fun h => ⟨hrange, h⟩, fun h => h.2⟩
      · -- the file is archived, and the total goes over its limit
        obtain ⟨hfile, hover⟩ := Classical.not_imp.mp hrange
        have havailable := toInt_available f
        rw [taken, if_pos (takes_of_overflow htotal hexact hfile hover), List.map_cons,
          List.sum_cons, Nat.cast_add]
        constructor
        · intro h
          have hbelow := h.2
          omega
        · intro h
          exact absurd h.1 hrange

/-- The limits are kept by what passes the tests. -/
theorem withinLimits_iff_sums (dir : Directory) (fileSizeLimit : Int32) {totalSizeLimit : Int32}
    (htotal : 0 < totalSizeLimit.toInt) :
    WithinLimits dir fileSizeLimit totalSizeLimit ↔
      SumsInRange fileSizeLimit.toInt totalSizeLimit.toInt 0 dir.listFiles := by
  have hlimit : needSizeLimit fileSizeLimit.toInt64 totalSizeLimit.toInt64 = true :=
    needSizeLimit_iff.mpr (Or.inr (by simpa using htotal))
  have hint : totalSizeLimit.toInt64.toInt < 2 ^ 31 := by simpa using totalSizeLimit.toInt_lt
  have hstart : (0 : Int32).toInt = ((0 : Nat) : Int) := rfl
  have hkept := taken_within_iff fileSizeLimit.toInt64 hint dir.listFiles hstart
    (by simpa using htotal)
  rw [← archived_of_limited dir hlimit] at hkept
  simp only [Int32.toInt_toInt64, Int.natCast_zero, Int.zero_add] at hkept
  rw [← hkept]
  exact ⟨fun h => ⟨h.file, h.total⟩, fun h => ⟨h.1, h.2⟩⟩

/-- **The limits are kept exactly when** no file whose size is within its limit comes, with
the exact total of those admitted before it, to the end of the ints. -/
theorem withinLimits_iff (dir : Directory) (fileSizeLimit : Int32) {totalSizeLimit : Int32}
    (htotal : 0 < totalSizeLimit) :
    WithinLimits dir fileSizeLimit totalSizeLimit ↔
      ∀ before f after, dir.listFiles = before ++ f :: after →
        (available f).toInt ≤ fileSizeLimit.toInt →
          (exactTotal fileSizeLimit.toInt totalSizeLimit.toInt 0 before : Int) +
            (available f).toInt < 2 ^ 31 :=
  withinLimits_iff_sums dir fileSizeLimit (Int32.lt_iff_toInt_lt.mp htotal)

/-- Two files of one byte. -/
def smallFiles : Directory := ⟨[⟨js "a", [0]⟩, ⟨js "b", [0]⟩], by decide⟩

theorem withinLimits_iff_small :
    (0 : Int32) < 2 ∧ (WithinLimits smallFiles 1 2 ↔
      ∀ before f after, smallFiles.listFiles = before ++ f :: after →
        (available f).toInt ≤ 1 → (exactTotal 1 2 0 before : Int) + (available f).toInt < 2 ^ 31) :=
  ⟨by decide, withinLimits_iff smallFiles 1 (by decide)⟩

/-- Two files of 2^30 bytes. -/
def bigFiles : Directory :=
  ⟨[⟨js "a", List.replicate (2 ^ 30) 0⟩, ⟨js "b", List.replicate (2 ^ 30) 0⟩], by
    show [js "a", js "b"].Nodup
    decide⟩

/-- The sum of two sizes of 2^30 is negative, and both files are archived. -/
theorem not_withinLimits_big : ¬ WithinLimits bigFiles 2147483647 2147483647 := by
  have hsize (name : JString) : (File.mk name (List.replicate (2 ^ 30) 0)).size = 2 ^ 30 :=
    List.length_replicate
  have havailable (name : JString) :
      available ⟨name, List.replicate (2 ^ 30) 0⟩ = 1073741824 := by
    unfold available
    rw [hsize]
    rfl
  have harchived : archived (2147483647 : Int32).toInt64 (2147483647 : Int32).toInt64 bigFiles =
      bigFiles.listFiles := by
    have hfirst (name : JString) : Takes (2147483647 : Int32).toInt64
        (2147483647 : Int32).toInt64 0 ⟨name, List.replicate (2 ^ 30) 0⟩ := by
      unfold Takes
      rw [havailable]
      decide
    have hsecond (name : JString) : Takes (2147483647 : Int32).toInt64
        (2147483647 : Int32).toInt64 (0 + 1073741824) ⟨name, List.replicate (2 ^ 30) 0⟩ := by
      unfold Takes
      rw [havailable]
      decide
    rw [archived_of_limited bigFiles (by decide)]
    unfold bigFiles
    rw [taken, if_pos (hfirst _), havailable, taken, if_pos (hsecond _), taken]
  intro h
  have htotal := h.total
  rw [harchived] at htotal
  unfold bigFiles at htotal
  simp only [List.map_cons, List.map_nil, List.sum_cons, List.sum_nil, hsize] at htotal
  revert htotal
  decide

/-! ## Limits that every directory keeps -/

/-- The total of what is admitted stays below the limit. -/
theorem exactTotal_lt {fileSizeLimit totalSizeLimit : Int} (fs : List File) {total : Nat}
    (htotal : (total : Int) < totalSizeLimit) :
    (exactTotal fileSizeLimit totalSizeLimit total fs : Int) < totalSizeLimit := by
  induction fs generalizing total with
  | nil => exact htotal
  | cons f fs ih =>
      unfold exactTotal
      by_cases hcounted : (f.size : Int) ≤ fileSizeLimit ∧ (total : Int) + f.size < totalSizeLimit
      · rw [if_pos hcounted]
        exact ih (by push_cast; exact hcounted.2)
      · rw [if_neg hcounted]
        exact ih htotal

/-- Files of one byte are admitted up to the limit. -/
theorem exactTotal_bytes {fileSizeLimit totalSizeLimit : Int} (hfile : 1 ≤ fileSizeLimit)
    {fs : List File} (hbytes : ∀ f ∈ fs, f.size = 1) {total : Nat}
    (htotal : (total : Int) + fs.length < totalSizeLimit) :
    exactTotal fileSizeLimit totalSizeLimit total fs = total + fs.length := by
  induction fs generalizing total with
  | nil => rfl
  | cons f fs ih =>
      obtain ⟨hf, hfs⟩ := List.forall_mem_cons.mp hbytes
      rw [List.length_cons] at htotal ⊢
      push_cast at htotal
      unfold exactTotal
      rw [if_pos ⟨by omega, by omega⟩, ih hfs (by push_cast; omega)]
      omega

/-- Numbers as names, `n` of them. -/
def numbers (n : Nat) : List JString :=
  (List.range n).map fun i => intToString (Int32.ofNat i)

theorem nodup_numbers {n : Nat} (h : n ≤ 2 ^ 31) : (numbers n).Nodup := by
  refine List.Nodup.map_on (fun i hi j hj heq => ?_) List.nodup_range
  have hval : Int32.ofNat i = Int32.ofNat j := by
    have hparse := congrArg parseInt heq
    rw [parseInt_intToString, parseInt_intToString] at hparse
    exact Except.ok.inj hparse
  have hint := congrArg Int32.toInt hval
  rw [Int32.toInt_ofNat_of_lt (by have hlt := List.mem_range.mp hi; omega),
    Int32.toInt_ofNat_of_lt (by have hlt := List.mem_range.mp hj; omega)] at hint
  exact Int.ofNat.inj hint

/-- As many files of one byte as the total limit admits, and one of the largest size that
the other limit admits. -/
def fullDirectory (fileSizeLimit totalSizeLimit : Int32) : Directory where
  listFiles := (numbers (totalSizeLimit.toInt - 1).toNat).map (fun name => ⟨name, [0]⟩) ++
    [⟨js "", List.replicate fileSizeLimit.toInt.toNat 0⟩]
  nodup := by
    have hle : (totalSizeLimit.toInt - 1).toNat ≤ 2 ^ 31 := by
      have hlt := totalSizeLimit.toInt_lt
      omega
    have hempty : js "" ∉ numbers (totalSizeLimit.toInt - 1).toNat := by
      intro hmem
      obtain ⟨i, _, hi⟩ := List.mem_map.mp hmem
      exact intToString_ne_nil _ hi
    rw [List.map_append, List.map_map]
    show ((numbers _).map id ++ [js ""]).Nodup
    rw [List.map_id, List.nodup_append]
    refine ⟨nodup_numbers hle, by simp, fun name hname name' hname' heq => ?_⟩
    rw [List.mem_singleton.mp hname'] at heq
    exact hempty (heq ▸ hname)

/-- **Two positive limits are kept by every directory exactly when** their sum is in the
range of ints, or its end. -/
theorem withinLimits_forall_iff {fileSizeLimit totalSizeLimit : Int32} (hfile : 0 < fileSizeLimit)
    (htotal : 0 < totalSizeLimit) :
    (∀ dir, WithinLimits dir fileSizeLimit totalSizeLimit) ↔
      fileSizeLimit.toInt + totalSizeLimit.toInt ≤ 2 ^ 31 := by
  have hfilepos : 0 < fileSizeLimit.toInt := Int32.lt_iff_toInt_lt.mp hfile
  have htotalpos : 0 < totalSizeLimit.toInt := Int32.lt_iff_toInt_lt.mp htotal
  constructor
  · intro h
    have hsums := (withinLimits_iff_sums _ fileSizeLimit htotalpos).mp
      (h (fullDirectory fileSizeLimit totalSizeLimit)) _ _ [] rfl
    have hlt := fileSizeLimit.toInt_lt
    have hlength : ((numbers (totalSizeLimit.toInt - 1).toNat).map
        fun name => (⟨name, [0]⟩ : File)).length = (totalSizeLimit.toInt - 1).toNat := by
      simp [numbers]
    have hbytes : ∀ f ∈ (numbers (totalSizeLimit.toInt - 1).toNat).map
        (fun name => (⟨name, [0]⟩ : File)), f.size = 1 := by
      intro f hf
      obtain ⟨name, _, rfl⟩ := List.mem_map.mp hf
      rfl
    have hsize : (⟨js "", List.replicate fileSizeLimit.toInt.toNat 0⟩ : File).size =
        fileSizeLimit.toInt.toNat := List.length_replicate
    have havailable := toInt_available ⟨js "", List.replicate fileSizeLimit.toInt.toNat 0⟩
    rw [hsize] at havailable
    rw [exactTotal_bytes (by omega) hbytes (by rw [hlength]; omega), hlength, havailable] at hsums
    have hreached := hsums (by omega)
    omega
  · intro h dir
    refine (withinLimits_iff_sums dir fileSizeLimit htotalpos).mpr ?_
    intro before f after _ hf
    have hbelow : (exactTotal fileSizeLimit.toInt totalSizeLimit.toInt 0 before : Int) <
        totalSizeLimit.toInt := exactTotal_lt before (by simpa using htotalpos)
    omega

/-! ## One positive limit -/

/-- The total of the archived files of a list. -/
def archivedTotal (fileSizeLimit totalSizeLimit : Int64) (dir : Directory) (fs : List File) : Nat :=
  ((fs.filter (· ∈ archived fileSizeLimit totalSizeLimit dir)).map File.size).sum

/-- A limit that is not positive restricts nothing: without a positive limit all files
are archived, with a positive limit of one file those of at most that size, and with a
positive total limit a file is left out only when the total would come to it. -/
structure Independent (dir : Directory) (fileSizeLimit totalSizeLimit : Int64) : Prop where
  neither : fileSizeLimit ≤ 0 → totalSizeLimit ≤ 0 →
    archived fileSizeLimit totalSizeLimit dir = dir.listFiles
  fileOnly : 0 < fileSizeLimit → totalSizeLimit ≤ 0 →
    archived fileSizeLimit totalSizeLimit dir =
      dir.listFiles.filter fun f => (f.size : Int) ≤ fileSizeLimit.toInt
  totalOnly : fileSizeLimit ≤ 0 → 0 < totalSizeLimit →
    ∀ before f after, dir.listFiles = before ++ f :: after →
      f ∉ archived fileSizeLimit totalSizeLimit dir →
        totalSizeLimit.toInt ≤ archivedTotal fileSizeLimit totalSizeLimit dir before + f.size

section OneLimit

variable {fileSizeLimit totalSizeLimit : Int64}

/-- Nothing is below a total limit that is not positive. -/
theorem taken_of_total_nonpos (h : totalSizeLimit.toInt ≤ 0) (fs : List File) :
    taken fileSizeLimit totalSizeLimit 0 fs = [] := by
  induction fs with
  | nil => rfl
  | cons f fs ih =>
      have htakes : ¬ Takes fileSizeLimit totalSizeLimit 0 f := by
        intro htakes
        have hnonneg : 0 ≤ (0 : Int32).toInt := by decide
        have hsum := toInt_add_available hnonneg f
        have hzero : (0 : Int32).toInt = 0 := rfl
        have havailable := toInt_available f
        have hlt := htakes.2
        rw [hzero] at hsum
        rw [if_pos (by omega)] at hsum
        omega
      rw [taken, if_neg htakes, ih]

/-- Only empty files are within a limit that is not positive. -/
theorem taken_of_file_nonpos (hfile : fileSizeLimit.toInt ≤ 0) (htotal : 0 < totalSizeLimit.toInt)
    (fs : List File) :
    taken fileSizeLimit totalSizeLimit 0 fs =
      fs.filter fun f => (f.size : Int) ≤ fileSizeLimit.toInt := by
  induction fs with
  | nil => rfl
  | cons f fs ih =>
      have havailable := toInt_available f
      by_cases hsize : (f.size : Int) ≤ fileSizeLimit.toInt
      · have hzero : available f = 0 := by
          apply Int32.toInt.inj
          show (available f).toInt = 0
          omega
        have htakes : Takes fileSizeLimit totalSizeLimit 0 f := by
          unfold Takes
          rw [hzero]
          exact ⟨by show (0 : Int) ≤ _; omega, htotal⟩
        rw [taken, if_pos htakes, hzero, List.filter_cons_of_pos (by simpa using hsize)]
        exact congrArg (f :: ·) ih
      · have htakes : ¬ Takes fileSizeLimit totalSizeLimit 0 f := by
          intro htakes
          have hle := htakes.1
          omega
        rw [taken, if_neg htakes, List.filter_cons_of_neg (by simpa using hsize), ih]

/-- With a limit of one file alone, nothing is archived. -/
theorem independent_fileOnly_iff (dir : Directory) (hfile : 0 < fileSizeLimit)
    (htotal : totalSizeLimit ≤ 0) :
    Independent dir fileSizeLimit totalSizeLimit ↔
      ∀ f ∈ dir.listFiles,
        ((f.size : Int) ≤ fileSizeLimit.toInt ↔ (f.size : Int) < totalSizeLimit.toInt) := by
  have hfile' : 0 < fileSizeLimit.toInt := Int64.lt_iff_toInt_lt.mp hfile
  have htotal' : totalSizeLimit.toInt ≤ 0 := Int64.le_iff_toInt_le.mp htotal
  have harchived : archived fileSizeLimit totalSizeLimit dir = [] := by
    rw [archived_of_limited dir (needSizeLimit_iff.mpr (Or.inl hfile')),
      taken_of_total_nonpos htotal']
  constructor
  · intro h f hf
    have hnone := h.fileOnly hfile htotal
    rw [harchived, eq_comm, List.filter_eq_nil_iff] at hnone
    have hsize : ¬ (f.size : Int) ≤ fileSizeLimit.toInt := by simpa using hnone f hf
    exact ⟨fun hle => absurd hle hsize, fun hlt => by omega⟩
  · intro h
    refine ⟨fun hnot => ?_, fun _ _ => ?_, fun hnot => ?_⟩
    · exact absurd (Int64.le_iff_toInt_le.mp hnot) (by show ¬ _ ≤ (0 : Int); omega)
    · rw [harchived, eq_comm, List.filter_eq_nil_iff]
      intro f hf
      have hagree := h f hf
      simp only [decide_eq_true_eq]
      omega
    · exact absurd (Int64.le_iff_toInt_le.mp hnot) (by show ¬ _ ≤ (0 : Int); omega)

/-- With a total limit alone, only empty files are archived. -/
theorem independent_totalOnly_iff (dir : Directory) (hfile : fileSizeLimit ≤ 0)
    (htotal : 0 < totalSizeLimit) :
    Independent dir fileSizeLimit totalSizeLimit ↔
      ∀ f ∈ dir.listFiles,
        ((f.size : Int) ≤ fileSizeLimit.toInt ↔ (f.size : Int) < totalSizeLimit.toInt) := by
  have hfile' : fileSizeLimit.toInt ≤ 0 := Int64.le_iff_toInt_le.mp hfile
  have htotal' : 0 < totalSizeLimit.toInt := Int64.lt_iff_toInt_lt.mp htotal
  have harchived : archived fileSizeLimit totalSizeLimit dir =
      dir.listFiles.filter fun f => (f.size : Int) ≤ fileSizeLimit.toInt := by
    rw [archived_of_limited dir (needSizeLimit_iff.mpr (Or.inr htotal')),
      taken_of_file_nonpos hfile' htotal']
  have hmem (f : File) : f ∈ archived fileSizeLimit totalSizeLimit dir ↔
      f ∈ dir.listFiles ∧ (f.size : Int) ≤ fileSizeLimit.toInt := by
    rw [harchived]
    simp
  have hempty (fs : List File) : archivedTotal fileSizeLimit totalSizeLimit dir fs = 0 := by
    refine List.sum_eq_zero fun n hn => ?_
    obtain ⟨f, hf, rfl⟩ := List.mem_map.mp hn
    have hle := ((hmem f).mp (by simpa using (List.mem_filter.mp hf).2)).2
    omega
  constructor
  · intro h f hf
    obtain ⟨before, after, hsplit⟩ := List.append_of_mem hf
    have hskipped := h.totalOnly hfile htotal before f after hsplit
    rw [hempty, hmem] at hskipped
    constructor
    · intro hle
      omega
    · intro hlt
      by_contra hout
      have hreached := hskipped fun hin => hout hin.2
      omega
  · intro h
    refine ⟨fun _ hnot => ?_, fun hnot => ?_, fun _ _ before f after hsplit hskipped => ?_⟩
    · exact absurd (Int64.le_iff_toInt_le.mp hnot) (by show ¬ _ ≤ (0 : Int); omega)
    · exact absurd (Int64.lt_iff_toInt_lt.mp hnot) (by show ¬ (0 : Int) < _; omega)
    · have hf : f ∈ dir.listFiles := by
        rw [hsplit]
        simp
      rw [hmem] at hskipped
      have hagree := h f hf
      have hout : ¬ (f.size : Int) ≤ fileSizeLimit.toInt := fun hle => hskipped ⟨hf, hle⟩
      rw [hempty]
      omega

/-- **The limits are independent exactly when** both are positive or neither is, or the
tests with them agree on every file. -/
theorem independent_iff (dir : Directory) (fileSizeLimit totalSizeLimit : Int64) :
    Independent dir fileSizeLimit totalSizeLimit ↔
      (0 < fileSizeLimit ∧ 0 < totalSizeLimit) ∨ (fileSizeLimit ≤ 0 ∧ totalSizeLimit ≤ 0) ∨
        ∀ f ∈ dir.listFiles,
          ((f.size : Int) ≤ fileSizeLimit.toInt ↔ (f.size : Int) < totalSizeLimit.toInt) := by
  have hpos (limit : Int64) : 0 < limit ↔ ¬ limit ≤ 0 := by
    rw [Int64.lt_iff_toInt_lt, Int64.le_iff_toInt_le]
    omega
  by_cases hfile : fileSizeLimit ≤ 0
  · by_cases htotal : totalSizeLimit ≤ 0
    · have hlimit : needSizeLimit fileSizeLimit totalSizeLimit = false := by
        rw [← Bool.not_eq_true, needSizeLimit_iff]
        have hfile' : fileSizeLimit.toInt ≤ 0 := Int64.le_iff_toInt_le.mp hfile
        have htotal' : totalSizeLimit.toInt ≤ 0 := Int64.le_iff_toInt_le.mp htotal
        omega
      refine ⟨fun _ => Or.inr (Or.inl ⟨hfile, htotal⟩), fun _ => ⟨fun _ _ => ?_, ?_, ?_⟩⟩
      · exact archived_of_unlimited dir hlimit
      · exact fun hnot => absurd hfile ((hpos _).mp hnot)
      · exact fun _ hnot => absurd htotal ((hpos _).mp hnot)
    · simp only [independent_totalOnly_iff dir hfile ((hpos _).mpr htotal), hpos, hfile, htotal,
        not_true, false_and, and_false, false_or]
  · by_cases htotal : totalSizeLimit ≤ 0
    · simp only [independent_fileOnly_iff dir ((hpos _).mpr hfile) htotal, hpos, hfile, htotal,
        not_true, false_and, and_false, false_or]
    · refine ⟨fun _ => Or.inl ⟨(hpos _).mpr hfile, (hpos _).mpr htotal⟩, fun _ => ⟨?_, ?_, ?_⟩⟩
      · exact fun hnot => absurd hnot hfile
      · exact fun _ hnot => absurd hnot htotal
      · exact fun hnot => absurd hnot hfile

/-- With a limit of five bytes for one file and no total limit, a file of one byte is not
archived. -/
theorem not_independent_fileOnly : ¬ Independent ⟨[⟨js "a", [0]⟩], by decide⟩ 5 0 := by
  have hnone : archived 5 0 ⟨[⟨js "a", [0]⟩], by decide⟩ = [] := by
    rw [archived_of_limited _ (by decide), taken_of_total_nonpos (by decide)]
  intro h
  have hall := h.fileOnly (by decide) (by decide)
  rw [hnone] at hall
  revert hall
  decide

end OneLimit

end TrashClear.ZipUtil
