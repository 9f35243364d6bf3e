import TrashClear.Java.Files
import TrashClear.Library.Blocks

/-!
# Copying and deleting files

`FileUtil.copyFile`, `copyDirectiory` and `del`.  The recursions take the number of
nested calls that may be made; a call below the last one is `Stop.unfinished`.

`copyFile_outcome` says how one copy can end, and nothing behind it looks into `copyFile`.
-/

namespace TrashClear.FileUtil

open Java Disk Run Blocks Files

/-! ## The functions -/

/-- The loop of `copyFile`: a read and a write for each piece, and the read that ends it. -/
def copyPieces (sourceFile targetFile : JPath) : List UInt8 → List (List UInt8) → Files Unit
  | copied, [] => transfer sourceFile targetFile copied
  | copied, b :: pieces => do
      transfer sourceFile targetFile copied
      transfer sourceFile targetFile (copied ++ b)
      copyPieces sourceFile targetFile (copied ++ b) pieces

/-- What `copyFile` does with its open streams, 5120 bytes at a time. -/
def copyContent (sourceFile targetFile : JPath) (content : List UInt8) : Files Unit := do
  copyPieces sourceFile targetFile [] (chunks 5120 content)
  -- the flush, and the close of either stream
  transfer sourceFile targetFile content
  transfer sourceFile targetFile content
  transfer sourceFile targetFile content

/-- Copy a file, unless there is something at its target. -/
def copyFile (sourceFile targetFile : JPath) : Files Unit := do
  if ← fileExists targetFile then return
  let content ← openInput sourceFile
  openOutput targetFile
  copyContent sourceFile targetFile content

/-- What `copyDirectiory` does with one entry. -/
def copyEntry (copyDir : JPath → JPath → Files Unit) (sourceDir targetDir : JPath)
    (name : JString) : Files Unit := do
  if ← isFile (sourceDir ++ [name]) then
    copyFile (sourceDir ++ [name]) (targetDir ++ [name])
  if ← isDirectory (sourceDir ++ [name]) then
    copyDir (sourceDir ++ [name]) (targetDir ++ [name])

/-- Copy a directory into another one, which is made first. -/
def copyDirectiory (order : Order) : Nat → JPath → JPath → Files Unit
  | 0, _, _ => throw .unfinished
  | depth + 1, sourceDir, targetDir => do
      mkdirs targetDir
      let file ← listFiles order sourceDir
      file.forM (copyEntry (copyDirectiory order depth) sourceDir targetDir)

/-- What `del` does with one entry. -/
def delEntry (delDir : JPath → Files Unit) (filepath : JPath) (name : JString) : Files Unit := do
  if ← isDirectory (filepath ++ [name]) then delDir (filepath ++ [name])
  delete (filepath ++ [name])

/-- Delete what is in a directory, and the directory when there was nothing in it. -/
def del (order : Order) : Nat → JPath → Files Unit
  | 0, _ => throw .unfinished
  | depth + 1, filepath => do
      if (← fileExists filepath) && (← isDirectory filepath) then
        if (← listFiles order filepath).length = 0 then delete filepath
        else do
          let delFile ← listFiles order filepath
          delFile.forM (delEntry (del order depth) filepath)

/-! ## One copy -/

section CopyFile

variable {sourceFile targetFile : JPath}

/-- How a copy ends. -/
inductive CopyOutcome (sourceFile targetFile : JPath) (m : Machine) :
    EStateM.Result Stop Machine Unit → Prop
  | skipped : m.files.lookup targetFile ≠ none → CopyOutcome sourceFile targetFile m (.ok () m)
  | notOpened (p : JPath) (m' : Machine) : m'.files = m.files →
      CopyOutcome sourceFile targetFile m (.error (.io (.fileNotFound p)) m')
  | copied (content : List UInt8) (m' : Machine) : m.files.lookup targetFile = none →
      m.files.lookup sourceFile = some (.file content) →
      m.files.Writes targetFile content m'.files →
      CopyOutcome sourceFile targetFile m (.ok () m')
  | interrupted (content : List UInt8) (n : Nat) (m' : Machine) :
      m.files.lookup targetFile = none →
      m.files.lookup sourceFile = some (.file content) → n ≤ content.length →
      m.files.Writes targetFile (content.take n) m'.files →
      CopyOutcome sourceFile targetFile m (.error (.io (.transfer sourceFile targetFile n)) m')

/-- The loop copies all pieces, or is interrupted. -/
theorem transfers_copyPieces {files : Tree} {content : List UInt8} (hopen : files.Open targetFile)
    (pieces : List (List UInt8)) {copied : List UInt8}
    (hpieces : copied ++ pieces.flatten = content)
    {m : Machine} {before : List UInt8} (hm : files.Writes targetFile before m.files) :
    Transfers files sourceFile targetFile content content
      (copyPieces sourceFile targetFile copied pieces m) := by
  induction pieces generalizing copied before m with
  | nil =>
      rw [List.flatten_nil, List.append_nil] at hpieces
      subst hpieces
      exact transfers_transfer hopen List.prefix_rfl hm
  | cons b pieces ih =>
      rw [List.flatten_cons, ← List.append_assoc] at hpieces
      have hpiece : copied ++ b <+: content := ⟨_, hpieces⟩
      have hcopied : copied <+: content := (List.prefix_append copied b).trans hpiece
      unfold copyPieces
      apply (transfers_transfer hopen hcopied hm).bind
      intro m' hm'
      apply (transfers_transfer hopen hpiece hm').bind
      intro m'' hm''
      exact ih hpieces hm''

theorem transfers_copyContent {files : Tree} {content : List UInt8}
    (hopen : files.Open targetFile) {m : Machine} {before : List UInt8}
    (hm : files.Writes targetFile before m.files) :
    Transfers files sourceFile targetFile content content
      (copyContent sourceFile targetFile content m) := by
  have hpieces : [] ++ (chunks 5120 content).flatten = content := flatten_chunks (by omega) _
  unfold copyContent
  apply (transfers_copyPieces hopen _ hpieces hm).bind
  intro m' hm'
  apply (transfers_transfer hopen List.prefix_rfl hm').bind
  intro m' hm'
  apply (transfers_transfer hopen List.prefix_rfl hm').bind
  intro m' hm'
  exact transfers_transfer hopen List.prefix_rfl hm'

/-- **How a copy ends.** -/
theorem copyFile_outcome (sourceFile targetFile : JPath) (m : Machine) :
    CopyOutcome sourceFile targetFile m (copyFile sourceFile targetFile m) := by
  rw [copyFile, run_bind_of_ok (run_fileExists targetFile m)]
  by_cases hexists : m.files.lookup targetFile = none
  · rw [hexists, Option.isSome_none, if_neg Bool.false_ne_true]
    obtain ⟨faults, hinput | ⟨content, hcontent, hinput⟩⟩ := openInput_cases sourceFile m
    · rw [run_bind_of_error hinput]
      exact .notOpened _ _ rfl
    · rw [run_bind_of_ok hinput]
      obtain ⟨faults', houtput | ⟨hopen, houtput⟩⟩ :=
        openOutput_cases targetFile { m with faults := faults }
      · rw [run_bind_of_error houtput]
        exact .notOpened _ _ rfl
      · rw [run_bind_of_ok houtput]
        have hrest : Transfers m.files sourceFile targetFile content content
            (copyContent sourceFile targetFile content
              { files := m.files.put targetFile (.file []), faults := faults' }) :=
          transfers_copyContent hopen (FileSystem.writes_put hopen [])
        generalize copyContent sourceFile targetFile content
          { files := m.files.put targetFile (.file []), faults := faults' } = result at hrest ⊢
        cases hrest with
        | done m' hwrites => exact .copied content m' hexists hcontent hwrites
        | failed n m' hn hwrites => exact .interrupted content n m' hexists hcontent hn hwrites
  · have hsome : (m.files.lookup targetFile).isSome = true := Option.isSome_iff_ne_none.mpr hexists
    rw [if_pos hsome]
    exact .skipped hexists

/-- A copy that returns leaves its source as it is. -/
theorem copyFile_source {m m' : Machine} (hrun : copyFile sourceFile targetFile m = .ok () m')
    {entry : Entry (List UInt8)} (hsource : m.files.lookup sourceFile = some entry) :
    m'.files.lookup sourceFile = some entry := by
  have houtcome := copyFile_outcome sourceFile targetFile m
  rw [hrun] at houtcome
  cases houtcome with
  | skipped => exact hsource
  | copied content _ hnone _ hwrites =>
      have hne : sourceFile ≠ targetFile := by
        intro heq
        rw [heq, hnone] at hsource
        cases hsource
      rw [hwrites, if_neg hne, hsource]

end CopyFile

/-! ## One entry of a directory -/

section CopyEntry

variable {copyDir : JPath → JPath → Files Unit} {sourceDir targetDir : JPath} {name : JString}
  {m : Machine}

theorem run_copyEntry_dir (h : m.files.lookup (sourceDir ++ [name]) = some .dir) :
    copyEntry copyDir sourceDir targetDir name m =
      copyDir (sourceDir ++ [name]) (targetDir ++ [name]) m := by
  unfold copyEntry
  rw [run_bind_of_ok (run_isFile _ m), h]
  show (isDirectory (sourceDir ++ [name]) >>= _) m = _
  rw [run_bind_of_ok (run_isDirectory _ m), h]
  rfl

theorem run_copyEntry_file {content : List UInt8}
    (h : m.files.lookup (sourceDir ++ [name]) = some (.file content)) :
    copyEntry copyDir sourceDir targetDir name m =
      copyFile (sourceDir ++ [name]) (targetDir ++ [name]) m := by
  unfold copyEntry
  rw [run_bind_of_ok (run_isFile _ m), h]
  show (copyFile (sourceDir ++ [name]) (targetDir ++ [name]) >>= _) m = _
  cases hrun : copyFile (sourceDir ++ [name]) (targetDir ++ [name]) m with
  | error e m' => rw [run_bind_of_error hrun]
  | ok _ m' =>
      -- it is still a file, so it is not copied as a directory
      rw [run_bind_of_ok hrun]
      show (isDirectory (sourceDir ++ [name]) >>= _) m' = _
      rw [run_bind_of_ok (run_isDirectory _ m'), copyFile_source hrun h]
      rfl

end CopyEntry

end TrashClear.FileUtil
