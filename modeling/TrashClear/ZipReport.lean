import Mathlib.Algebra.Order.BigOperators.Group.List
import TrashClear.ZipLimits

/-!
# The report of an archive

`ZipUtil.zipDirWithSizeLimit` answers whether a file was left out, and with a limit that
is positive it writes a summary of all tests as the comment of the archive.

* `reportAgrees`: the answer and the summary agree with the entries of the archive.
* `placeholderRight_iff`: the summary is an entry of its own when the total of the
  archived files is 0, which says that there are none only when they are not all empty
  and their total does not wrap around to 0.
* `completes_iff`: the summary is a comment, which has at most 65535 bytes; a longer one
  ends the run before the stream is closed, and the temporary file of
  `ZipUtil.ZipDirGzip` stays behind.
-/

namespace TrashClear.ZipUtil

open Java Run ZipOutputStream

/-! ## The run with a limit -/

section Run

variable {fileSizeLimit totalSizeLimit : Int64}

/-- The entry that is written when the total is 0. -/
def placeholder (p : Progress) : List ZipEntry :=
  if p.currentSize = 0 then [summaryEntry p] else []

/-- What the end of an archive does: the summary as an entry when the total is 0, then as
the comment, then the close. -/
def finish (p : Progress) (out : ZipOutputStream) :
    EStateM.Result ZipException ZipOutputStream SizeLimitZipResult :=
  if p.currentSize = 0 ∧ out.hasEntry (js "common.txt") then
    .error .duplicateEntry out
  else if 0xFFFF < (getBytes p.sb).length then
    .error .illegalArgument { out with entries := out.entries ++ placeholder p }
  else
    .ok p.ret
      { out with
        entries := out.entries ++ placeholder p, comment := getBytes p.sb, closed := true }

/-- The end of an archive returns when the name of the placeholder is new and the summary
fits into a comment. -/
theorem finish_eq_ok {p : Progress} {out out' : ZipOutputStream} {ret : SizeLimitZipResult} :
    finish p out = .ok ret out' ↔
      ¬ (p.currentSize = 0 ∧ js "common.txt" ∈ out.entries.map ZipEntry.name) ∧
        (getBytes p.sb).length ≤ 0xFFFF ∧ p.ret = ret ∧
          { out with
            entries := out.entries ++ placeholder p, comment := getBytes p.sb, closed := true } =
              out' := by
  rw [← hasEntry_iff]
  unfold finish
  by_cases hname : p.currentSize = 0 ∧ out.hasEntry (js "common.txt") = true
  · simp [hname]
  · by_cases hlong : 0xFFFF < (getBytes p.sb).length
    · simp only [if_neg hname, if_pos hlong, reduceCtorEq, false_iff]
      intro h
      have hshort := h.2.1
      omega
    · have hshort : (getBytes p.sb).length ≤ 0xFFFF := by omega
      rw [if_neg hname, if_neg hlong, EStateM.Result.ok.injEq]
      exact ⟨fun h => ⟨hname, hshort, h⟩, fun h => h.2.2⟩

/-- A placeholder with a new name is written, and no name is refused. -/
theorem finish_of_new {p : Progress} {out : ZipOutputStream}
    (hnew : ¬ (p.currentSize = 0 ∧ js "common.txt" ∈ out.entries.map ZipEntry.name)) :
    (left (finish p out)).entries = out.entries ++ placeholder p ∧
      ∀ out', finish p out ≠ .error .duplicateEntry out' := by
  rw [← hasEntry_iff] at hnew
  unfold finish
  rw [if_neg hnew]
  by_cases hlong : 0xFFFF < (getBytes p.sb).length
  · rw [if_pos hlong]
    exact ⟨rfl, fun out' h => by cases h⟩
  · rw [if_neg hlong]
    exact ⟨rfl, fun out' h => by cases h⟩

/-- The comment is set before the close. -/
theorem run_setComment_close (p : Progress) {out : ZipOutputStream}
    (hcurrent : out.current = none) :
    (do setComment p.sb; close; return p.ret : Zip SizeLimitZipResult) out =
      if 0xFFFF < (getBytes p.sb).length then .error .illegalArgument out
      else .ok p.ret { out with comment := getBytes p.sb, closed := true } := by
  by_cases hlong : 0xFFFF < (getBytes p.sb).length
  · have hset : setComment p.sb out = .error .illegalArgument out := if_pos hlong
    rw [if_pos hlong]
    exact run_bind_error.mpr (Or.inl hset)
  · have hset : setComment p.sb out = .ok () { out with comment := getBytes p.sb } :=
      if_neg hlong
    have hclose : close { out with comment := getBytes p.sb } =
        .ok () { out with comment := getBytes p.sb, closed := true } := run_close hcurrent
    rw [if_neg hlong, run_bind_of_ok hset, run_bind_of_ok hclose]
    rfl

theorem run_finish (p : Progress) {out : ZipOutputStream} (hcurrent : out.current = none) :
    (do writeSummary p; close; return p.ret : Zip SizeLimitZipResult) out = finish p out := by
  have hnext {m : Zip Unit} {s : ZipOutputStream} (h : writeSummary p out = m s) :
      (do writeSummary p; close; return p.ret : Zip SizeLimitZipResult) out =
        (do m; close; return p.ret : Zip SizeLimitZipResult) s := run_bind_congr h
  unfold finish placeholder
  by_cases hzero : p.currentSize = 0
  · by_cases hname : js "common.txt" ∈ out.entries.map ZipEntry.name
    · rw [if_pos ⟨hzero, hasEntry_iff.mpr hname⟩]
      exact run_bind_error.mpr (Or.inl (writeSummary_of_duplicate hzero hcurrent hname))
    · have hboth : ¬ (p.currentSize = 0 ∧ out.hasEntry (js "common.txt") = true) :=
        fun h => hname (hasEntry_iff.mp h.2)
      rw [if_neg hboth, hnext (writeSummary_of_zero hzero hcurrent hname), if_pos hzero, hcurrent]
      exact run_setComment_close p rfl
  · have hboth : ¬ (p.currentSize = 0 ∧ out.hasEntry (js "common.txt") = true) :=
      fun h => hzero h.1
    rw [if_neg hboth, hnext (writeSummary_of_ne_zero hzero out), if_neg hzero, List.append_nil]
    exact run_setComment_close p hcurrent

/-- The stream after the loop. -/
def afterFiles (fileSizeLimit totalSizeLimit : Int64) (dir : Directory) : ZipOutputStream :=
  { opened with entries := (archived fileSizeLimit totalSizeLimit dir).map entryOf }

/-- **With a limit**, the end of the archive decides how the run ends. -/
theorem run_of_limited {dir : Directory} (hne : dir.listFiles ≠ [])
    (hlimit : needSizeLimit fileSizeLimit totalSizeLimit = true) :
    zipDirWithSizeLimit fileSizeLimit totalSizeLimit (some dir) opened =
      finish (finalProgress fileSizeLimit totalSizeLimit dir.listFiles)
        (afterFiles fileSizeLimit totalSizeLimit dir) := by
  have hfiles : dir.listFiles.length > 0 := List.length_pos_of_ne_nil hne
  unfold zipDirWithSizeLimit
  simp only [hfiles, if_true, hlimit]
  rw [run_bind_of_ok (run_zipFiles fileSizeLimit totalSizeLimit dir), ← archived_eq]
  exact run_finish _ rfl

/-- **Without a limit**, the archive is closed after the loop. -/
theorem run_of_unlimited {dir : Directory} (hne : dir.listFiles ≠ [])
    (hlimit : needSizeLimit fileSizeLimit totalSizeLimit = false) :
    zipDirWithSizeLimit fileSizeLimit totalSizeLimit (some dir) opened =
      .ok (finalProgress fileSizeLimit totalSizeLimit dir.listFiles).ret
        { afterFiles fileSizeLimit totalSizeLimit dir with closed := true } := by
  have hfiles : dir.listFiles.length > 0 := List.length_pos_of_ne_nil hne
  unfold zipDirWithSizeLimit
  simp only [hfiles, if_true, hlimit, Bool.false_eq_true, if_false]
  rw [run_bind_of_ok (run_zipFiles fileSizeLimit totalSizeLimit dir), ← archived_eq]
  have hclose : close (afterFiles fileSizeLimit totalSizeLimit dir) =
      .ok () { afterFiles fileSizeLimit totalSizeLimit dir with closed := true } := run_close rfl
  exact run_bind_of_ok hclose

end Run

/-! ## The answer and the summary -/

section Report

variable (fileSizeLimit totalSizeLimit : Int64)

/-- What the summary notes after the test of a file. -/
def mark (isArchived : Bool) (f : File) : JString :=
  if isArchived then js "\n"
  else if (available f).toInt64 > fileSizeLimit then js "[TOO BIG !!!]\n"
  else js "[Tatol BIG !!!]\n"

/-- The part of the summary about one listed file: a file that is left out is marked. -/
def segment (dir : Directory) (x : File × Nat) : JString :=
  summary dir.listFiles.length x.2 x.1 ++
    mark fileSizeLimit (x.1 ∈ archived fileSizeLimit totalSizeLimit dir) x.1

/-- One segment for each listed file, in the order of the listing. -/
def report (dir : Directory) : JString :=
  dir.listFiles.zipIdx.flatMap (segment fileSizeLimit totalSizeLimit dir)

/-- The answer, the entries and the summary say the same about which files were archived. -/
structure ReportAgrees (dir : Directory) (ret : SizeLimitZipResult) (out : ZipOutputStream) :
    Prop where
  ok : ret = .ok ↔ archived fileSizeLimit totalSizeLimit dir = dir.listFiles
  tooBig : ret = .tooBig ↔ ∃ f ∈ dir.listFiles, f ∉ archived fileSizeLimit totalSizeLimit dir
  entries : ∃ more,
    out.entries = (archived fileSizeLimit totalSizeLimit dir).map entryOf ++ more ∧
      (more = [] ∨
        more = [⟨js "common.txt", getBytes (report fileSizeLimit totalSizeLimit dir)⟩])
  summary : needSizeLimit fileSizeLimit totalSizeLimit = true →
    out.comment = getBytes (report fileSizeLimit totalSizeLimit dir)

variable {fileSizeLimit totalSizeLimit}

/-- One test notes its file, with the mark of its outcome. -/
theorem check_sb (hlimit : needSizeLimit fileSizeLimit totalSizeLimit = true) (n : Nat)
    (p : Progress) (f : File) (i : Nat) :
    (check fileSizeLimit totalSizeLimit n p f i).1.sb = p.sb ++
      (summary n i f ++ mark fileSizeLimit (check fileSizeLimit totalSizeLimit n p f i).2 f) := by
  unfold check mark
  rw [if_pos hlimit]
  by_cases hfile : (available f).toInt64 > fileSizeLimit
  · simp [hfile]
  · by_cases htotal : (p.currentSize + available f).toInt64 < totalSizeLimit
    · simp [hfile, htotal]
    · simp [hfile, htotal]

/-- A file that fails its test changes the answer. -/
theorem check_ret (n : Nat) (p : Progress) (f : File) (i : Nat) :
    (check fileSizeLimit totalSizeLimit n p f i).1.ret =
      if (check fileSizeLimit totalSizeLimit n p f i).2 then p.ret else .tooBig := by
  unfold check
  by_cases hlimit : needSizeLimit fileSizeLimit totalSizeLimit
  · rw [if_pos hlimit]
    by_cases hfile : (available f).toInt64 > fileSizeLimit
    · simp [hfile]
    · by_cases htotal : (p.currentSize + available f).toInt64 < totalSizeLimit
      · simp [hfile, htotal]
      · simp [hfile, htotal]
  · rw [if_neg hlimit, if_pos rfl]

/-- **The summary** has a segment for each file, marked by what the tests admit. -/
theorem progress_sb (hlimit : needSizeLimit fileSizeLimit totalSizeLimit = true) (n : Nat)
    (xs : List (File × Nat)) (p : Progress) (hnodup : (xs.map Prod.fst).Nodup) :
    (progress fileSizeLimit totalSizeLimit n p xs).sb = p.sb ++ xs.flatMap fun x =>
      summary n x.2 x.1 ++
        mark fileSizeLimit (x.1 ∈ admitted fileSizeLimit totalSizeLimit n p xs) x.1 := by
  induction xs generalizing p with
  | nil => simp [progress]
  | cons x xs ih =>
      obtain ⟨hx, hrest⟩ := List.nodup_cons.mp hnodup
      -- the files behind are not the first one, so only their own tests decide about them
      have hother : ∀ y ∈ xs, (y.1 ∈ admitted fileSizeLimit totalSizeLimit n p (x :: xs) ↔
          y.1 ∈ admitted fileSizeLimit totalSizeLimit n
            (check fileSizeLimit totalSizeLimit n p x.1 x.2).1 xs) := by
        intro y hy
        have hne : y.1 ≠ x.1 := fun heq => hx (heq ▸ List.mem_map_of_mem hy)
        rw [admitted_cons]
        by_cases htake : (check fileSizeLimit totalSizeLimit n p x.1 x.2).2
        · simp [htake, hne]
        · simp [htake]
      have hfirst : x.1 ∈ admitted fileSizeLimit totalSizeLimit n p (x :: xs) ↔
          (check fileSizeLimit totalSizeLimit n p x.1 x.2).2 = true := by
        have hout : x.1 ∉ admitted fileSizeLimit totalSizeLimit n
            (check fileSizeLimit totalSizeLimit n p x.1 x.2).1 xs :=
          fun hmem => hx ((admitted_sublist _ _ _).subset hmem)
        rw [admitted_cons]
        by_cases htake : (check fileSizeLimit totalSizeLimit n p x.1 x.2).2
        · simp [htake]
        · simp [htake, hout]
      have hsegments : (xs.flatMap fun y => summary n y.2 y.1 ++ mark fileSizeLimit
            (y.1 ∈ admitted fileSizeLimit totalSizeLimit n p (x :: xs)) y.1) =
          xs.flatMap fun y => summary n y.2 y.1 ++ mark fileSizeLimit
            (y.1 ∈ admitted fileSizeLimit totalSizeLimit n
              (check fileSizeLimit totalSizeLimit n p x.1 x.2).1 xs) y.1 := by
        refine List.flatMap_congr fun y hy => ?_
        simp only [hother y hy]
      rw [progress_cons, ih _ hrest, check_sb hlimit, List.flatMap_cons, hsegments,
        List.append_assoc]
      simp only [hfirst, Bool.decide_eq_true]

/-- **The answer** is that of the start when every file is admitted. -/
theorem progress_ret (n : Nat) (xs : List (File × Nat)) (p : Progress) :
    (progress fileSizeLimit totalSizeLimit n p xs).ret =
      if admitted fileSizeLimit totalSizeLimit n p xs = xs.map Prod.fst then p.ret
      else .tooBig := by
  induction xs generalizing p with
  | nil => rfl
  | cons x xs ih =>
      rw [progress_cons, ih, check_ret, admitted_cons]
      by_cases htake : (check fileSizeLimit totalSizeLimit n p x.1 x.2).2
      · simp [htake]
      · -- fewer files are admitted than there are
        have hshort : admitted fileSizeLimit totalSizeLimit n
            (check fileSizeLimit totalSizeLimit n p x.1 x.2).1 xs ≠ x.1 :: xs.map Prod.fst := by
          intro heq
          have hsub : (x.1 :: xs.map Prod.fst).Sublist (xs.map Prod.fst) :=
            heq ▸ admitted_sublist n _ xs
          exact absurd hsub.length_le (by simp)
        simp [htake, hshort]

/-- The summary after the loop. -/
theorem finalProgress_sb (dir : Directory)
    (hlimit : needSizeLimit fileSizeLimit totalSizeLimit = true) :
    (finalProgress fileSizeLimit totalSizeLimit dir.listFiles).sb =
      report fileSizeLimit totalSizeLimit dir := by
  have hnodup : (dir.listFiles.zipIdx.map Prod.fst).Nodup := by
    rw [List.zipIdx_map_fst]
    exact List.Nodup.of_map File.name dir.nodup
  unfold report segment
  rw [archived_eq]
  exact progress_sb hlimit _ _ .start hnodup

/-- The answer after the loop. -/
theorem finalProgress_ret (dir : Directory) :
    (finalProgress fileSizeLimit totalSizeLimit dir.listFiles).ret =
      if archived fileSizeLimit totalSizeLimit dir = dir.listFiles then .ok else .tooBig := by
  have hret : (finalProgress fileSizeLimit totalSizeLimit dir.listFiles).ret =
      if admittedFiles fileSizeLimit totalSizeLimit dir.listFiles =
        dir.listFiles.zipIdx.map Prod.fst then .ok else .tooBig := progress_ret _ _ .start
  rwa [List.zipIdx_map_fst, ← archived_eq] at hret

/-- All files are archived when each is. -/
theorem archived_eq_listFiles_iff (dir : Directory) :
    archived fileSizeLimit totalSizeLimit dir = dir.listFiles ↔
      ∀ f ∈ dir.listFiles, f ∈ archived fileSizeLimit totalSizeLimit dir := by
  constructor
  · intro h f hf
    rwa [h]
  · intro h
    exact List.filter_eq_self.mpr fun f hf => (List.mem_filter.mp (h f hf)).2

/-- A run that answers `ok` or `tooBig` agrees with the archive on what it leaves. -/
theorem ReportAgrees.of_entries {dir : Directory} {out : ZipOutputStream} {more : List ZipEntry}
    (hentries : out.entries = (archived fileSizeLimit totalSizeLimit dir).map entryOf ++ more)
    (hmore : more = [] ∨
      more = [⟨js "common.txt", getBytes (report fileSizeLimit totalSizeLimit dir)⟩])
    (hcomment : needSizeLimit fileSizeLimit totalSizeLimit = true →
      out.comment = getBytes (report fileSizeLimit totalSizeLimit dir)) :
    ReportAgrees fileSizeLimit totalSizeLimit dir
      (finalProgress fileSizeLimit totalSizeLimit dir.listFiles).ret out := by
  have hall : archived fileSizeLimit totalSizeLimit dir = dir.listFiles ↔
      ∀ f ∈ dir.listFiles, f ∈ archived fileSizeLimit totalSizeLimit dir :=
    archived_eq_listFiles_iff dir
  rw [finalProgress_ret]
  refine ⟨?_, ?_, ⟨more, hentries, hmore⟩, hcomment⟩
  · by_cases h : archived fileSizeLimit totalSizeLimit dir = dir.listFiles
    · simp [h]
    · simp [h]
  · by_cases h : archived fileSizeLimit totalSizeLimit dir = dir.listFiles
    · simp [h]
    · rw [if_neg h]
      rw [hall] at h
      simpa using Classical.not_forall.mp h

/-- **The report agrees with the archive** of every directory that is not empty. -/
theorem reportAgrees {dir : Directory} (hne : dir.listFiles ≠ []) {ret : SizeLimitZipResult}
    {out : ZipOutputStream}
    (hrun : zipDirWithSizeLimit fileSizeLimit totalSizeLimit (some dir) opened = .ok ret out) :
    ReportAgrees fileSizeLimit totalSizeLimit dir ret out := by
  by_cases hlimit : needSizeLimit fileSizeLimit totalSizeLimit = true
  · have hsb := finalProgress_sb dir hlimit
    rw [run_of_limited hne hlimit] at hrun
    obtain ⟨-, -, rfl, rfl⟩ := finish_eq_ok.mp hrun
    refine ReportAgrees.of_entries rfl ?_ fun _ => by rw [← hsb]
    unfold placeholder
    by_cases hzero : (finalProgress fileSizeLimit totalSizeLimit dir.listFiles).currentSize = 0
    · rw [if_pos hzero, summaryEntry, hsb]
      exact Or.inr rfl
    · rw [if_neg hzero]
      exact Or.inl rfl
  · rw [run_of_unlimited hne (by simpa using hlimit)] at hrun
    obtain ⟨rfl, rfl⟩ := EStateM.Result.ok.inj hrun
    exact ReportAgrees.of_entries (List.append_nil _).symm (Or.inl rfl) fun h => absurd h hlimit

/-- The second of two files of one byte is over the total limit. -/
theorem reportAgrees_small : ∃ ret out,
    zipDirWithSizeLimit 1 2 (some smallFiles) opened = .ok ret out ∧
      ReportAgrees 1 2 smallFiles ret out :=
  ⟨_, _, rfl, reportAgrees (by decide) rfl⟩

end Report

/-! ## The placeholder of an archive without files -/

section Placeholder

variable (fileSizeLimit totalSizeLimit : Int64)

/-- The summary is an entry exactly when nothing was archived, and no name is used twice. -/
structure PlaceholderRight (dir : Directory) : Prop where
  written : (left (zipDirWithSizeLimit fileSizeLimit totalSizeLimit (some dir) opened)).entries =
      (archived fileSizeLimit totalSizeLimit dir).map entryOf ++
        [⟨js "common.txt", getBytes (report fileSizeLimit totalSizeLimit dir)⟩] ↔
    archived fileSizeLimit totalSizeLimit dir = []
  distinct : ∀ out, zipDirWithSizeLimit fileSizeLimit totalSizeLimit (some dir) opened ≠
    .error .duplicateEntry out

/-- The sizes of the files that pass both tests. -/
def takenSizes (fs : List File) : List Int :=
  (taken fileSizeLimit totalSizeLimit 0 fs).map fun f => (available f).toInt

variable {fileSizeLimit totalSizeLimit}

/-- Nothing is taken when no file passes the tests on its own. -/
theorem taken_eq_nil_iff (currentSize : Int32) (fs : List File) :
    taken fileSizeLimit totalSizeLimit currentSize fs = [] ↔
      ∀ f ∈ fs, ¬ Takes fileSizeLimit totalSizeLimit currentSize f := by
  induction fs with
  | nil => simp [taken]
  | cons f fs ih =>
      rw [taken, List.forall_mem_cons, ← ih]
      by_cases h : Takes fileSizeLimit totalSizeLimit currentSize f
      · simp [h]
      · simp [h]

/-- The total counts the sizes of the files that are taken, modulo 2^32. -/
theorem progress_currentSize (hlimit : needSizeLimit fileSizeLimit totalSizeLimit = true) (n : Nat)
    (xs : List (File × Nat)) (p : Progress) :
    (progress fileSizeLimit totalSizeLimit n p xs).currentSize =
      p.currentSize + Int32.ofInt
        ((taken fileSizeLimit totalSizeLimit p.currentSize (xs.map Prod.fst)).map
          fun f => (available f).toInt).sum := by
  induction xs generalizing p with
  | nil => simp [progress, taken]
  | cons x xs ih =>
      obtain ⟨-, hsize⟩ := check_of_limited hlimit n p x.1 x.2
      rw [progress_cons, ih, hsize, List.map_cons, taken]
      by_cases h : Takes fileSizeLimit totalSizeLimit p.currentSize x.1
      · simp only [if_pos h, List.map_cons, List.sum_cons, Int32.ofInt_add, Int32.ofInt_toInt]
        rw [Int32.add_assoc]
      · simp only [if_neg h]

/-- The total is 0 when the sizes add up to a multiple of 2^32. -/
theorem finalProgress_currentSize_eq_zero (dir : Directory)
    (hlimit : needSizeLimit fileSizeLimit totalSizeLimit = true) :
    (finalProgress fileSizeLimit totalSizeLimit dir.listFiles).currentSize = 0 ↔
      (2 ^ 32 : Int) ∣ (takenSizes fileSizeLimit totalSizeLimit dir.listFiles).sum := by
  have hsize := progress_currentSize hlimit dir.listFiles.length dir.listFiles.zipIdx .start
  rw [List.zipIdx_map_fst] at hsize
  have htotal : (finalProgress fileSizeLimit totalSizeLimit dir.listFiles).currentSize =
      Int32.ofInt (takenSizes fileSizeLimit totalSizeLimit dir.listFiles).sum :=
    hsize.trans (Int32.zero_add _)
  have hzero : (0 : Int32).toInt = 0 := rfl
  rw [htotal, ← Int32.toInt_inj, Int32.toInt_ofInt, hzero]
  exact Int.dvd_iff_bmod_eq_zero.symm

/-- **The placeholder is right exactly when** no file passes the tests on its own, or the
sizes of those that pass do not add up to a multiple of 2^32. -/
theorem placeholderRight_iff {dir : Directory} (hne : dir.listFiles ≠ [])
    (hpositive : 0 < fileSizeLimit.toInt ∨ 0 < totalSizeLimit.toInt) :
    PlaceholderRight fileSizeLimit totalSizeLimit dir ↔
      (∀ f ∈ dir.listFiles, ¬ Takes fileSizeLimit totalSizeLimit 0 f) ∨
        ¬ (2 ^ 32 : Int) ∣ (takenSizes fileSizeLimit totalSizeLimit dir.listFiles).sum := by
  have hlimit : needSizeLimit fileSizeLimit totalSizeLimit = true := needSizeLimit_iff.mpr hpositive
  have hrun := run_of_limited hne hlimit
  have hsb := finalProgress_sb dir hlimit
  have hnone : archived fileSizeLimit totalSizeLimit dir = [] ↔
      ∀ f ∈ dir.listFiles, ¬ Takes fileSizeLimit totalSizeLimit 0 f := by
    rw [archived_of_limited dir hlimit, taken_eq_nil_iff]
  rw [← hnone, ← finalProgress_currentSize_eq_zero dir hlimit]
  by_cases hzero : (finalProgress fileSizeLimit totalSizeLimit dir.listFiles).currentSize = 0
  · by_cases hname : js "common.txt" ∈
        (afterFiles fileSizeLimit totalSizeLimit dir).entries.map ZipEntry.name
    · -- the name of the placeholder was used, so something was archived
      have hsome : archived fileSizeLimit totalSizeLimit dir ≠ [] := by
        intro hnil
        rw [afterFiles, hnil] at hname
        simp at hname
      have hthrow : zipDirWithSizeLimit fileSizeLimit totalSizeLimit (some dir) opened =
          .error .duplicateEntry (afterFiles fileSizeLimit totalSizeLimit dir) :=
        hrun.trans (if_pos ⟨hzero, hasEntry_iff.mpr hname⟩)
      simp only [hsome, hzero, not_true, or_self, iff_false]
      exact fun h => h.distinct _ hthrow
    · obtain ⟨hentries, hdistinct⟩ := finish_of_new (fun h => hname h.2)
      rw [placeholder, if_pos hzero, summaryEntry, hsb, ← hrun] at hentries
      simp only [hzero, not_true, or_false]
      refine ⟨fun h => h.written.mp hentries, fun h => ⟨⟨fun _ => h, fun _ => hentries⟩, ?_⟩⟩
      rw [hrun]
      exact hdistinct
  · -- a total that is not 0 comes from a file, and there is no placeholder
    have hsome : archived fileSizeLimit totalSizeLimit dir ≠ [] := by
      intro hnil
      have htaken := (archived_of_limited dir hlimit).symm.trans hnil
      rw [finalProgress_currentSize_eq_zero dir hlimit, takenSizes, htaken] at hzero
      simp at hzero
    obtain ⟨hentries, hdistinct⟩ := finish_of_new (fun h => hzero h.1)
    rw [placeholder, if_neg hzero, List.append_nil, ← hrun] at hentries
    simp only [hzero, not_false_eq_true, or_true, iff_true]
    refine ⟨⟨fun hwritten => ?_, fun h => absurd h hsome⟩, ?_⟩
    · have hlength := congrArg List.length (hentries.symm.trans hwritten)
      simp [afterFiles] at hlength
    · rw [hrun]
      exact hdistinct

/-- A small file, and one that is too big for a limit of 10 bytes. -/
def twoSizes : Directory := ⟨[⟨js "a", [0]⟩, ⟨js "b", List.replicate 20 0⟩], by decide⟩

/-- One of the files is archived, and there is no placeholder. -/
theorem placeholderRight_iff_sizes : PlaceholderRight 10 100 twoSizes :=
  (placeholderRight_iff (by decide) (by decide)).mpr (Or.inr (by decide))

/-- One empty file. -/
def emptyFile : Directory := ⟨[⟨js "a", []⟩], by decide⟩

/-- An empty file is archived, and the placeholder is written behind it. -/
theorem not_placeholderRight_empty : ¬ PlaceholderRight 10 10 emptyFile := by
  intro h
  have hnone := h.written.mp rfl
  revert hnone
  decide

end Placeholder

/-! ## The temporary archive -/

/-- The files that `zipDirGzip` writes, while they exist: the temporary archive, and the
archive in the new gzip file. -/
structure Archives where
  temp : Option ZipOutputStream
  gzip : Option ZipOutputStream
  deriving DecidableEq, Repr

/-- `zipDirWithSizeLimit` on the temporary file, which is opened for a directory with files. -/
def zipToTemp (fileSizeLimit totalSizeLimit : Int64) (dirTobeZip : Option Directory) :
    EStateM ZipException Archives SizeLimitZipResult := fun files =>
  let run := zipDirWithSizeLimit fileSizeLimit totalSizeLimit dirTobeZip opened
  let opens := dirTobeZip.any fun dir => dir.listFiles.length > 0
  attempt (answer run) (if opens then { files with temp := some (left run) } else files)

/-- The temporary archive, when it exists, is compressed. -/
def gzipOneFile : EStateM ZipException Archives Unit :=
  modify fun files => if files.temp.isSome then { files with gzip := files.temp } else files

/-- Archive a directory into a temporary file, compress that, and delete it. -/
def zipDirGzip (fileSizeLimit totalSizeLimit : Int32) (dirTobeZip : Option Directory) :
    EStateM ZipException Archives SizeLimitZipResult := do
  modify fun files => { files with temp := none }
  let ret ← zipToTemp fileSizeLimit.toInt64 totalSizeLimit.toInt64 dirTobeZip
  if ret = .notFound then return ret
  gzipOneFile
  modify fun files => { files with temp := none }
  return ret

section Completes

variable (fileSizeLimit totalSizeLimit : Int64)

/-- The archive is closed, and `zipDirGzip` with these limits removes its temporary file. -/
structure Completes (dir : Directory) : Prop where
  returns : ∃ ret out, zipDirWithSizeLimit fileSizeLimit totalSizeLimit (some dir) opened =
    .ok ret out ∧ (dir.listFiles ≠ [] → out.closed = true)
  removes : ∀ fileLimit totalLimit : Int32, fileLimit.toInt64 = fileSizeLimit →
    totalLimit.toInt64 = totalSizeLimit → ∀ files, ∃ ret files',
      zipDirGzip fileLimit totalLimit (some dir) files = .ok ret files' ∧ files'.temp = none

/-- The bytes that the summary has about one listed file. -/
def noteLength (dir : Directory) (x : File × Nat) : Nat :=
  (getBytes (summary dir.listFiles.length x.2 x.1 ++ mark fileSizeLimit
    (x.1 ∈ taken fileSizeLimit totalSizeLimit 0 dir.listFiles) x.1)).length

variable {fileSizeLimit totalSizeLimit}

/-- The summary is as long as its parts. -/
theorem length_report (dir : Directory)
    (hlimit : needSizeLimit fileSizeLimit totalSizeLimit = true) :
    (getBytes (report fileSizeLimit totalSizeLimit dir)).length =
      (dir.listFiles.zipIdx.map (noteLength fileSizeLimit totalSizeLimit dir)).sum := by
  have hparts := getBytes_flatMap (f := segment fileSizeLimit totalSizeLimit dir)
    dir.listFiles.zipIdx fun x _ => ⟨0x5B, _, rfl, by decide⟩
  have hlengths : (dir.listFiles.zipIdx.map fun x =>
        (getBytes (segment fileSizeLimit totalSizeLimit dir x)).length) =
      dir.listFiles.zipIdx.map (noteLength fileSizeLimit totalSizeLimit dir) := by
    refine List.map_congr_left fun x _ => ?_
    unfold segment noteLength
    rw [archived_of_limited dir hlimit]
  unfold report
  rw [hparts, List.length_flatMap, hlengths]

/-- The answer for a directory with files. -/
theorem ret_ne_notFound {dir : Directory} (hne : dir.listFiles ≠ []) {ret : SizeLimitZipResult}
    {out : ZipOutputStream}
    (hrun : zipDirWithSizeLimit fileSizeLimit totalSizeLimit (some dir) opened = .ok ret out) :
    ret ≠ .notFound := by
  have hret : (finalProgress fileSizeLimit totalSizeLimit dir.listFiles).ret = ret := by
    by_cases hlimit : needSizeLimit fileSizeLimit totalSizeLimit = true
    · rw [run_of_limited hne hlimit] at hrun
      exact (finish_eq_ok.mp hrun).2.2.1
    · rw [run_of_unlimited hne (by simpa using hlimit)] at hrun
      exact (EStateM.Result.ok.inj hrun).1
  rw [← hret, finalProgress_ret]
  split <;> decide

/-- An old temporary archive is deleted first. -/
theorem run_deleteTemp (files : Archives) :
    (modify fun files => { files with temp := none } : EStateM ZipException Archives Unit) files =
      .ok () { files with temp := none } := rfl

/-- The temporary archive of a directory with files, however its run ends. -/
theorem run_zipToTemp {dir : Directory} (hne : dir.listFiles ≠ []) (files : Archives) :
    zipToTemp fileSizeLimit totalSizeLimit (some dir) files =
      attempt (answer (zipDirWithSizeLimit fileSizeLimit totalSizeLimit (some dir) opened))
        { files with
          temp := some (left
            (zipDirWithSizeLimit fileSizeLimit totalSizeLimit (some dir) opened)) } := by
  have hpos : 0 < dir.listFiles.length := List.length_pos_of_ne_nil hne
  simp [zipToTemp, hpos]

/-- A run that returns leaves no temporary file. -/
theorem run_zipDirGzip {fileLimit totalLimit : Int32} {dir : Directory} {ret : SizeLimitZipResult}
    {out : ZipOutputStream}
    (hrun : zipDirWithSizeLimit fileLimit.toInt64 totalLimit.toInt64 (some dir) opened =
      .ok ret out) (files : Archives) :
    ∃ files', zipDirGzip fileLimit totalLimit (some dir) files = .ok ret files' ∧
      files'.temp = none := by
  by_cases hne : dir.listFiles = []
  · have hret : ret = .notFound := by
      simp only [zipDirWithSizeLimit, hne] at hrun
      exact (EStateM.Result.ok.inj hrun).1.symm
    subst hret
    refine ⟨{ files with temp := none }, ?_, rfl⟩
    have hzip : zipToTemp fileLimit.toInt64 totalLimit.toInt64 (some dir)
        { files with temp := none } = .ok .notFound { files with temp := none } := by
      simp [zipToTemp, hrun, hne, answer, attempt]
    rw [zipDirGzip, run_bind_of_ok (run_deleteTemp files), run_bind_of_ok hzip]
    rfl
  · have hnot := ret_ne_notFound hne hrun
    refine ⟨{ temp := none, gzip := some out }, ?_, rfl⟩
    have hzip : zipToTemp fileLimit.toInt64 totalLimit.toInt64 (some dir)
        { files with temp := none } = .ok ret { files with temp := some out } := by
      rw [run_zipToTemp hne, hrun]
      rfl
    rw [zipDirGzip, run_bind_of_ok (run_deleteTemp files), run_bind_of_ok hzip, if_neg hnot]
    rfl

/-- A run that throws leaves the temporary file as it is. -/
theorem run_zipDirGzip_error {fileLimit totalLimit : Int32} {dir : Directory}
    (hne : dir.listFiles ≠ []) {e : ZipException} {out : ZipOutputStream}
    (hrun : zipDirWithSizeLimit fileLimit.toInt64 totalLimit.toInt64 (some dir) opened =
      .error e out) (files : Archives) :
    zipDirGzip fileLimit totalLimit (some dir) files =
      .error e { files with temp := some out } := by
  have hzip : zipToTemp fileLimit.toInt64 totalLimit.toInt64 (some dir)
      { files with temp := none } = .error e { files with temp := some out } := by
    rw [run_zipToTemp hne, hrun]
    rfl
  rw [zipDirGzip, run_bind_of_ok (run_deleteTemp files)]
  exact run_bind_error.mpr (Or.inl hzip)

/-- **An archive with a limit is completed exactly when** the notes about all listed files
have at most 65535 bytes, and no archived file has the name of the placeholder while the
sizes of the archived files add up to a multiple of 2^32. -/
theorem completes_iff (dir : Directory)
    (hpositive : 0 < fileSizeLimit.toInt ∨ 0 < totalSizeLimit.toInt) :
    Completes fileSizeLimit totalSizeLimit dir ↔
      (dir.listFiles.zipIdx.map (noteLength fileSizeLimit totalSizeLimit dir)).sum ≤ 65535 ∧
        ¬ ((2 ^ 32 : Int) ∣ (takenSizes fileSizeLimit totalSizeLimit dir.listFiles).sum ∧
          js "common.txt" ∈
            (taken fileSizeLimit totalSizeLimit 0 dir.listFiles).map File.name) := by
  have hlimit : needSizeLimit fileSizeLimit totalSizeLimit = true := needSizeLimit_iff.mpr hpositive
  have hnames : (afterFiles fileSizeLimit totalSizeLimit dir).entries.map ZipEntry.name =
      (taken fileSizeLimit totalSizeLimit 0 dir.listFiles).map File.name := by
    rw [← archived_of_limited dir hlimit, afterFiles, List.map_map]
    rfl
  rw [← length_report dir hlimit, ← finalProgress_currentSize_eq_zero dir hlimit, ← hnames,
    ← finalProgress_sb dir hlimit]
  constructor
  · intro h
    obtain ⟨ret, out, hrun, -⟩ := h.returns
    by_cases hne : dir.listFiles = []
    · refine ⟨?_, fun hname => ?_⟩
      · simp [finalProgress, progress, hne, Progress.start, getBytes, Utf.scalars, Utf.encode8]
      · have hnone := hname.2
        rw [hnames, hne] at hnone
        simp [taken] at hnone
    · rw [run_of_limited hne hlimit] at hrun
      obtain ⟨hnew, hshort, -⟩ := finish_eq_ok.mp hrun
      exact ⟨hshort, hnew⟩
  · intro h
    have hreturns : ∃ ret out,
        zipDirWithSizeLimit fileSizeLimit totalSizeLimit (some dir) opened = .ok ret out ∧
          (dir.listFiles ≠ [] → out.closed = true) := by
      by_cases hne : dir.listFiles = []
      · refine ⟨.notFound, opened, ?_, fun hnot => absurd hne hnot⟩
        simp only [zipDirWithSizeLimit, hne]
        rfl
      · exact ⟨_, _, (run_of_limited hne hlimit).trans (finish_eq_ok.mpr ⟨h.2, h.1, rfl, rfl⟩),
          fun _ => rfl⟩
    refine ⟨hreturns, fun fileLimit totalLimit hfile htotal files => ?_⟩
    obtain ⟨ret, out, hrun, -⟩ := hreturns
    rw [← hfile, ← htotal] at hrun
    obtain ⟨files', hgzip, htemp⟩ := run_zipDirGzip hrun files
    exact ⟨ret, files', hgzip, htemp⟩

/-- The notes about two files are short. -/
theorem completes_iff_sizes : Completes 10 100 twoSizes :=
  (completes_iff twoSizes (by decide)).mpr ⟨by decide, by decide⟩

/-- Files of one byte whose names are numbers. -/
def manyFiles : Directory where
  listFiles := (numbers 7000).map fun name => ⟨name, [0]⟩
  nodup := by
    rw [List.map_map]
    show ((numbers 7000).map id).Nodup
    rw [List.map_id]
    exact nodup_numbers (by omega)

/-- The summary has at least ten units about each of them. -/
theorem length_segment_manyFiles {x : File × Nat} (hx : x ∈ manyFiles.listFiles.zipIdx) :
    10 ≤ (segment fileSizeLimit totalSizeLimit manyFiles x).length := by
  have hname : x.1.name ≠ [] := by
    have hmem : x.1 ∈ manyFiles.listFiles := by
      rw [← List.zipIdx_map_fst 0 manyFiles.listFiles]
      exact List.mem_map_of_mem hx
    simp only [manyFiles, numbers, List.map_map, List.mem_map] at hmem
    obtain ⟨i, -, hfile⟩ := hmem
    rw [← hfile]
    exact intToString_ne_nil _
  have hmark (isArchived : Bool) : mark fileSizeLimit isArchived x.1 ≠ [] := by
    unfold mark
    split
    · decide
    · split <;> decide
  have hone {s : JString} (h : s ≠ []) : 1 ≤ s.length := List.length_pos_of_ne_nil h
  have hnumber (i : Int32) : 1 ≤ (intToString i).length := hone (intToString_ne_nil i)
  have hindex := hnumber (Int32.ofNat x.2)
  have hcount := hnumber (Int32.ofNat manyFiles.listFiles.length)
  have hsize := hnumber (available x.1)
  have hlast := hone (hmark (x.1 ∈ archived fileSizeLimit totalSizeLimit manyFiles))
  have hname := hone hname
  have hliteral : (js "[").length = 1 ∧ (js "/").length = 1 ∧ (js "]").length = 1 ∧
      (js "(").length = 1 ∧ (js ")").length = 1 := by decide
  simp only [segment, summary, List.length_append]
  omega

/-- A summary of 7000 files is too long for a comment. -/
theorem not_completes_many : ¬ Completes 2147483647 2147483647 manyFiles := by
  have hlength : manyFiles.listFiles.length = 7000 := by simp [manyFiles, numbers]
  have hne : manyFiles.listFiles ≠ [] := by
    intro hnil
    rw [hnil] at hlength
    cases hlength
  have hlong : 7000 * 10 ≤ (report 2147483647 2147483647 manyFiles).length := by
    have hsum := List.card_nsmul_le_sum
      (manyFiles.listFiles.zipIdx.map fun x =>
        (segment 2147483647 2147483647 manyFiles x).length) 10 fun n hn => by
          obtain ⟨x, hx, rfl⟩ := List.mem_map.mp hn
          exact length_segment_manyFiles hx
    rw [List.length_map, List.length_zipIdx, hlength] at hsum
    unfold report
    rw [List.length_flatMap]
    exact hsum
  intro h
  obtain ⟨ret, out, hrun, -⟩ := h.returns
  rw [run_of_limited hne (by decide)] at hrun
  have hshort := (finish_eq_ok.mp hrun).2.1
  rw [finalProgress_sb _ (by decide)] at hshort
  have hbytes := length_le_getBytes (report 2147483647 2147483647 manyFiles)
  omega

end Completes

end TrashClear.ZipUtil
