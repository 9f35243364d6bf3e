import TrashClear.Java.Zip
import TrashClear.Library.Blocks

/-!
# Archiving a directory

`ZipUtil.zipDirWithSizeLimit` archives the files of a directory one by one.  With a limit
that is positive each file is tested before it is archived (`check`), and a summary of
the tests becomes the comment of the archive, and an entry of its own when the total
stayed 0.

`run_zipFiles` is the loop: it never throws, and what it archives is what the tests
admit (`admitted`).  `archived` are the files that it put into the stream, and
`entries_zipDirWithSizeLimit` says what follows them.
-/

namespace TrashClear.ZipUtil

open Java Run Blocks ZipOutputStream

inductive SizeLimitZipResult
  | ok
  | tooBig
  | notFound
  deriving DecidableEq, Repr

/-- The variables of the loop. -/
structure Progress where
  sb : JString
  ret : SizeLimitZipResult
  currentSize : Int32
  deriving DecidableEq, Repr

def Progress.start : Progress := ⟨[], .ok, 0⟩

variable (fileSizeLimit totalSizeLimit : Int64)

def needSizeLimit : Bool := totalSizeLimit > 0 || fileSizeLimit > 0

/-- What is noted of file `i` of `n` before its test. -/
def summary (n i : Nat) (currentFile : File) : JString :=
  js "[" ++ intToString (Int32.ofNat i) ++ js "/" ++ intToString (Int32.ofNat n) ++ js "]" ++
    currentFile.name ++ js "(" ++ intToString (available currentFile) ++ js ")"

/-- The test of file `i` of `n`, and whether the file is to be archived. -/
def check (n : Nat) (p : Progress) (currentFile : File) (i : Nat) : Progress × Bool :=
  if needSizeLimit fileSizeLimit totalSizeLimit then
    let fsize := available currentFile
    let sb := p.sb ++ summary n i currentFile
    if fsize.toInt64 > fileSizeLimit then
      ({ p with sb := sb ++ js "[TOO BIG !!!]\n", ret := .tooBig }, false)
    else if (p.currentSize + fsize).toInt64 < totalSizeLimit then
      ({ p with sb := sb ++ js "\n", currentSize := p.currentSize + fsize }, true)
    else
      ({ p with sb := sb ++ js "[Tatol BIG !!!]\n", ret := .tooBig }, false)
  else (p, true)

/-- The entry of one file, copied 1024 bytes at a time. -/
def zipFile (currentFile : File) : Zip Unit := do
  putNextEntry currentFile.name
  (chunks 1024 currentFile.content).forM write
  closeEntry

/-- One turn of the loop. -/
def turn (n : Nat) (p : Progress) (x : File × Nat) : Zip Progress := do
  let r := check fileSizeLimit totalSizeLimit n p x.1 x.2
  if r.2 then zipFile x.1
  return r.1

/-- The loop over the files. -/
def zipFiles (lists : List File) : Zip Progress :=
  lists.zipIdx.foldlM (turn fileSizeLimit totalSizeLimit lists.length) .start

/-- The summary is an entry when the total stayed 0, and the comment of the archive. -/
def writeSummary (p : Progress) : Zip Unit := do
  if p.currentSize = 0 then
    putNextEntry (js "common.txt")
    write (getBytes p.sb)
    closeEntry
  setComment p.sb

/-- Archive a directory; none when it does not exist or is not a directory. -/
def zipDirWithSizeLimit (dirTobeZip : Option Directory) : Zip SizeLimitZipResult :=
  match dirTobeZip with
  | none => return .notFound
  | some dir =>
      if dir.listFiles.length > 0 then do
        let p ← zipFiles fileSizeLimit totalSizeLimit dir.listFiles
        if needSizeLimit fileSizeLimit totalSizeLimit then writeSummary p
        close
        return p.ret
      else return .notFound

/-! ## The loop -/

/-- The entry that holds a file. -/
def entryOf (f : File) : ZipEntry := ⟨f.name, f.content⟩

/-- The files that pass their tests, from the progress `p` on. -/
def admitted (n : Nat) : Progress → List (File × Nat) → List File
  | _, [] => []
  | p, x :: xs =>
      let r := check fileSizeLimit totalSizeLimit n p x.1 x.2
      if r.2 then x.1 :: admitted n r.1 xs else admitted n r.1 xs

/-- The progress after tests. -/
def progress (n : Nat) (p : Progress) (xs : List (File × Nat)) : Progress :=
  xs.foldl (fun p x => (check fileSizeLimit totalSizeLimit n p x.1 x.2).1) p

theorem admitted_cons (n : Nat) (p : Progress) (x : File × Nat) (xs : List (File × Nat)) :
    admitted fileSizeLimit totalSizeLimit n p (x :: xs) =
      if (check fileSizeLimit totalSizeLimit n p x.1 x.2).2 then
        x.1 :: admitted fileSizeLimit totalSizeLimit n
          (check fileSizeLimit totalSizeLimit n p x.1 x.2).1 xs
      else admitted fileSizeLimit totalSizeLimit n
        (check fileSizeLimit totalSizeLimit n p x.1 x.2).1 xs := rfl

theorem progress_cons (n : Nat) (p : Progress) (x : File × Nat) (xs : List (File × Nat)) :
    progress fileSizeLimit totalSizeLimit n p (x :: xs) =
      progress fileSizeLimit totalSizeLimit n
        (check fileSizeLimit totalSizeLimit n p x.1 x.2).1 xs := rfl

/-- A file with a new name gets an entry with its content. -/
theorem run_zipFile {out : ZipOutputStream} {f : File} (hcurrent : out.current = none)
    (hname : f.name ∉ out.entries.map ZipEntry.name) :
    zipFile f out = .ok () { out with entries := out.entries ++ [entryOf f], current := none } := by
  rw [zipFile, run_bind_of_ok (run_putNextEntry hcurrent hname),
    run_bind_of_ok (run_forM_write _ rfl), flatten_chunks (by omega)]
  rfl

variable {fileSizeLimit totalSizeLimit}

/-- **The loop** archives the files that pass their tests. -/
theorem run_turns (n : Nat) (xs : List (File × Nat)) (p : Progress) {out : ZipOutputStream}
    (hcurrent : out.current = none)
    (hnodup : (out.entries.map ZipEntry.name ++ xs.map fun x => x.1.name).Nodup) :
    xs.foldlM (turn fileSizeLimit totalSizeLimit n) p out =
      .ok (progress fileSizeLimit totalSizeLimit n p xs) { out with
        entries := out.entries ++ (admitted fileSizeLimit totalSizeLimit n p xs).map entryOf } := by
  induction xs generalizing p out with
  | nil => simp [progress, admitted, pure, EStateM.pure]
  | cons x xs ih =>
      rw [List.foldlM_cons, admitted_cons, progress_cons]
      by_cases htake : (check fileSizeLimit totalSizeLimit n p x.1 x.2).2
      · have hname : x.1.name ∉ out.entries.map ZipEntry.name := by
          intro hmem
          exact (List.nodup_append.mp hnodup).2.2 _ hmem _ (by simp) rfl
        have hturn : turn fileSizeLimit totalSizeLimit n p x out =
            .ok (check fileSizeLimit totalSizeLimit n p x.1 x.2).1
              { out with entries := out.entries ++ [entryOf x.1], current := none } := by
          unfold turn
          rw [if_pos htake, run_bind_of_ok (run_zipFile hcurrent hname)]
          rfl
        rw [run_bind_of_ok hturn, ih _ rfl (by simpa [entryOf] using hnodup), if_pos htake]
        simp [hcurrent]
      · have hturn : turn fileSizeLimit totalSizeLimit n p x out =
            .ok (check fileSizeLimit totalSizeLimit n p x.1 x.2).1 out := by
          unfold turn
          rw [if_neg htake]
          rfl
        have hrest : (out.entries.map ZipEntry.name ++ xs.map fun x => x.1.name).Nodup := by
          refine hnodup.sublist (List.Sublist.append_left ?_ _)
          exact List.sublist_cons_self _ _
        rw [run_bind_of_ok hturn, ih _ hcurrent hrest, if_neg htake]

/-! ## The whole archive -/

/-- The files that pass their tests are listed ones, in the same order. -/
theorem admitted_sublist (n : Nat) (p : Progress) (xs : List (File × Nat)) :
    (admitted fileSizeLimit totalSizeLimit n p xs).Sublist (xs.map Prod.fst) := by
  induction xs generalizing p with
  | nil => exact List.Sublist.slnil
  | cons x xs ih =>
      rw [admitted_cons]
      by_cases htake : (check fileSizeLimit totalSizeLimit n p x.1 x.2).2
      · rw [if_pos htake]
        exact (ih _).cons_cons _
      · rw [if_neg htake]
        exact (ih _).cons _

variable (fileSizeLimit totalSizeLimit)

/-- The listed files that pass their tests. -/
def admittedFiles (lists : List File) : List File :=
  admitted fileSizeLimit totalSizeLimit lists.length .start lists.zipIdx

/-- The progress after all tests. -/
def finalProgress (lists : List File) : Progress :=
  progress fileSizeLimit totalSizeLimit lists.length .start lists.zipIdx

/-- **The loop over a directory** never throws. -/
theorem run_zipFiles (dir : Directory) :
    zipFiles fileSizeLimit totalSizeLimit dir.listFiles opened =
      .ok (finalProgress fileSizeLimit totalSizeLimit dir.listFiles) { opened with
        entries := (admittedFiles fileSizeLimit totalSizeLimit dir.listFiles).map entryOf } := by
  have hnames : (dir.listFiles.zipIdx.map fun x => x.1.name) = dir.listFiles.map File.name := by
    have hcomp : (dir.listFiles.zipIdx.map fun x => x.1.name) =
        (dir.listFiles.zipIdx.map Prod.fst).map File.name := by
      rw [List.map_map]
      rfl
    rw [hcomp, List.zipIdx_map_fst]
  exact run_turns _ _ _ rfl (by simpa [opened, hnames] using dir.nodup)

/-- The files of a directory whose entries the loop puts into the archive. -/
def archived (dir : Directory) : List File :=
  dir.listFiles.filter fun f =>
    (left (zipFiles fileSizeLimit totalSizeLimit dir.listFiles opened)).hasEntry f.name

/-- Files with different names are told apart by their names. -/
theorem filter_name_mem {files fs : List File} (hnodup : (files.map File.name).Nodup)
    (hsub : fs.Sublist files) : files.filter (fun f => f.name ∈ fs.map File.name) = fs := by
  induction hsub with
  | slnil => rfl
  | @cons fs files f hsub ih =>
      obtain ⟨hf, hnodup⟩ := List.nodup_cons.mp hnodup
      have hout : f.name ∉ fs.map File.name := fun hmem => hf ((hsub.map _).subset hmem)
      rw [List.filter_cons_of_neg (by simpa using hout)]
      exact ih hnodup
  | @cons_cons fs files f hsub ih =>
      obtain ⟨hf, hnodup⟩ := List.nodup_cons.mp hnodup
      rw [List.filter_cons_of_pos (by simp)]
      have hrest : files.filter (fun g => g.name ∈ (f :: fs).map File.name) =
          files.filter (fun g => g.name ∈ fs.map File.name) := by
        refine List.filter_congr fun g hg => ?_
        have hne : g.name ≠ f.name := by
          intro heq
          exact hf (heq ▸ List.mem_map_of_mem hg)
        simp [hne]
      rw [hrest, ih hnodup]

/-- **The archived files are those that pass their tests.** -/
theorem archived_eq (dir : Directory) :
    archived fileSizeLimit totalSizeLimit dir =
      admittedFiles fileSizeLimit totalSizeLimit dir.listFiles := by
  have hsub : (admittedFiles fileSizeLimit totalSizeLimit dir.listFiles).Sublist
      dir.listFiles := by
    have hsub : (admittedFiles fileSizeLimit totalSizeLimit dir.listFiles).Sublist
        (dir.listFiles.zipIdx.map Prod.fst) := admitted_sublist _ _ _
    rwa [List.zipIdx_map_fst] at hsub
  unfold archived
  rw [run_zipFiles]
  simp only [left, hasEntry, List.map_map]
  exact filter_name_mem dir.nodup hsub

/-- The entry that holds a summary. -/
def summaryEntry (p : Progress) : ZipEntry := ⟨js "common.txt", getBytes p.sb⟩

/-- A total that is not 0 adds no entry. -/
theorem writeSummary_of_ne_zero {p : Progress} (h : p.currentSize ≠ 0) (out : ZipOutputStream) :
    writeSummary p out = setComment p.sb out := by
  rw [writeSummary, if_neg h]

/-- A total of 0 adds the summary. -/
theorem writeSummary_of_zero {p : Progress} (h : p.currentSize = 0) {out : ZipOutputStream}
    (hcurrent : out.current = none) (hname : js "common.txt" ∉ out.entries.map ZipEntry.name) :
    writeSummary p out = setComment p.sb
      { out with entries := out.entries ++ [summaryEntry p], current := none } := by
  rw [writeSummary, if_pos h, run_bind_of_ok (run_putNextEntry hcurrent hname)]
  rfl

/-- The name of the summary may have been used. -/
theorem writeSummary_of_duplicate {p : Progress} (h : p.currentSize = 0) {out : ZipOutputStream}
    (hcurrent : out.current = none) (hname : js "common.txt" ∈ out.entries.map ZipEntry.name) :
    writeSummary p out = .error .duplicateEntry out := by
  rw [writeSummary, if_pos h]
  exact run_bind_error.mpr (Or.inl (run_putNextEntry_duplicate hcurrent hname))

/-- The end of an archive adds at most one entry. -/
theorem left_writeSummary (p : Progress) {out : ZipOutputStream} (hcurrent : out.current = none) :
    ∃ more bytes, left (writeSummary p out) =
        { out with entries := out.entries ++ more, comment := bytes } ∧
      (more = [] ∨ more = [summaryEntry p]) := by
  by_cases hzero : p.currentSize = 0
  · by_cases hname : js "common.txt" ∈ out.entries.map ZipEntry.name
    · rw [writeSummary_of_duplicate hzero hcurrent hname]
      exact ⟨[], out.comment, by simp [left], Or.inl rfl⟩
    · rw [writeSummary_of_zero hzero hcurrent hname]
      obtain ⟨bytes, hbytes⟩ := left_setComment p.sb
        { out with entries := out.entries ++ [summaryEntry p], current := none }
      exact ⟨[summaryEntry p], bytes, by rw [hbytes, hcurrent], Or.inr rfl⟩
  · rw [writeSummary_of_ne_zero hzero]
    obtain ⟨bytes, hbytes⟩ := left_setComment p.sb out
    exact ⟨[], bytes, by simp [hbytes], Or.inl rfl⟩

/-- What is done last adds no entry. -/
theorem entries_closing {m : Zip Unit} {out : ZipOutputStream} (r : SizeLimitZipResult)
    (hcurrent : (left (m out)).current = none) :
    (left ((do m; close; return r) out)).entries = (left (m out)).entries := by
  cases hrun : m out with
  | error e s =>
      have hbind : (do m; close; return r : Zip SizeLimitZipResult) out = .error e s :=
        run_bind_error.mpr (Or.inl hrun)
      rw [hbind]
      rfl
  | ok _ s =>
      have hclose : close s = .ok () { s with closed := true } :=
        run_close (by simpa [hrun, left] using hcurrent)
      have hleft : left (EStateM.Result.ok () s : EStateM.Result ZipException _ _) = s := rfl
      rw [run_bind_of_ok hrun, run_bind_of_ok hclose, hleft]
      rfl

/-- **The archive of a directory** holds the archived files with their contents, and
after them at most the summary. -/
theorem entries_zipDirWithSizeLimit (dir : Directory) :
    ∃ more, (left (zipDirWithSizeLimit fileSizeLimit totalSizeLimit (some dir) opened)).entries =
        (archived fileSizeLimit totalSizeLimit dir).map entryOf ++ more ∧
      (more = [] ∨ more =
        [summaryEntry (finalProgress fileSizeLimit totalSizeLimit dir.listFiles)]) := by
  rw [archived_eq]
  unfold zipDirWithSizeLimit
  by_cases hfiles : dir.listFiles.length > 0
  · simp only [hfiles, if_true]
    rw [run_bind_of_ok (run_zipFiles fileSizeLimit totalSizeLimit dir)]
    by_cases hlimit : needSizeLimit fileSizeLimit totalSizeLimit
    · have hcurrent : ({ opened with entries :=
          (admittedFiles fileSizeLimit totalSizeLimit dir.listFiles).map entryOf } :
            ZipOutputStream).current = none := rfl
      obtain ⟨more, bytes, hleft, hmore⟩ := left_writeSummary
        (finalProgress fileSizeLimit totalSizeLimit dir.listFiles) hcurrent
      refine ⟨more, ?_, hmore⟩
      rw [if_pos hlimit, entries_closing _ (by rw [hleft]; rfl), hleft]
    · rw [if_neg hlimit, run_bind_of_ok (run_close rfl)]
      exact ⟨[], by simp [left, pure, EStateM.pure], Or.inl rfl⟩
  · have hnil : dir.listFiles = [] := List.eq_nil_of_length_eq_zero (by omega)
    simp only [hnil]
    exact ⟨[], rfl, Or.inl rfl⟩

end TrashClear.ZipUtil
