import TrashClear.Java.Text
import TrashClear.Library.Run

/-!
# Zip streams

`ZipOutputStream` with the entries that were written to it, the bytes of its file, and the
regular files of a directory.  An entry is put, written and closed; a second one of the
same name is refused, and so is a comment of more than 65535 bytes.
-/

namespace Java

open Run

/-- The exceptions of a zip stream. -/
inductive ZipException
  | duplicateEntry
  | noCurrentEntry
  | illegalArgument
  deriving DecidableEq, Repr

structure ZipEntry where
  name : JString
  data : List UInt8
  deriving DecidableEq, Repr

/-- The entries that are complete, the one that is being written, the comment, and
whether the stream was closed. -/
structure ZipOutputStream where
  entries : List ZipEntry
  current : Option ZipEntry
  comment : List UInt8
  closed : Bool
  deriving DecidableEq, Repr

/-- Programs over a zip stream. -/
abbrev Zip := EStateM ZipException ZipOutputStream

namespace ZipOutputStream

/-- A new stream. -/
def opened : ZipOutputStream := ⟨[], none, [], false⟩

/-- The name was used for an entry. -/
def hasEntry (out : ZipOutputStream) (name : JString) : Bool :=
  name ∈ out.entries.map ZipEntry.name

theorem hasEntry_iff {out : ZipOutputStream} {name : JString} :
    out.hasEntry name = true ↔ name ∈ out.entries.map ZipEntry.name := by
  simp [hasEntry]

def closeEntry : Zip Unit := fun out =>
  match out.current with
  | none => .ok () out
  | some e => .ok () { out with entries := out.entries ++ [e], current := none }

/-- The entry before is closed first; a name that was used is refused. -/
def putNextEntry (name : JString) : Zip Unit := do
  closeEntry
  let out ← get
  if out.hasEntry name then throw .duplicateEntry
  else set { out with current := some ⟨name, []⟩ }

def write (buf : List UInt8) : Zip Unit := fun out =>
  match out.current with
  | none => .error .noCurrentEntry out
  | some e => .ok () { out with current := some { e with data := e.data ++ buf } }

def setComment (comment : JString) : Zip Unit := fun out =>
  if 0xFFFF < (getBytes comment).length then .error .illegalArgument out
  else .ok () { out with comment := getBytes comment }

def close : Zip Unit := do
  closeEntry
  modify fun out => { out with closed := true }

/-- The entries that are complete when the one that is being written is. -/
def written (out : ZipOutputStream) : List ZipEntry := out.entries ++ out.current.toList

theorem written_of_none {out : ZipOutputStream} (hcurrent : out.current = none) :
    written out = out.entries := by
  rw [written, hcurrent, Option.toList_none, List.append_nil]

theorem run_closeEntry (out : ZipOutputStream) :
    closeEntry out = .ok () { out with entries := written out, current := none } := by
  obtain ⟨entries, current, comment, closed⟩ := out
  cases current with
  | none => simp [closeEntry, written]
  | some e => rfl

/-- A new name ends the entry before. -/
theorem run_putNextEntry_of_new {out : ZipOutputStream} {name : JString}
    (hname : name ∉ (written out).map ZipEntry.name) :
    putNextEntry name out =
      .ok () { out with entries := written out, current := some ⟨name, []⟩ } := by
  unfold putNextEntry
  rw [run_bind_of_ok (run_closeEntry out), run_get_bind, if_neg (hasEntry_iff.not.mpr hname)]
  rfl

/-- Whatever name is accepted becomes the name of the next entry. -/
theorem putNextEntry_ok {out out' : ZipOutputStream} {name : JString}
    (hrun : putNextEntry name out = .ok () out') :
    out' = { out with entries := written out, current := some ⟨name, []⟩ } := by
  unfold putNextEntry at hrun
  rw [run_bind_of_ok (run_closeEntry out), run_get_bind] at hrun
  split at hrun
  · cases hrun
  · exact (EStateM.Result.ok.inj hrun).2.symm

/-- A new entry can be put when its name was not used. -/
theorem run_putNextEntry {out : ZipOutputStream} {name : JString} (hcurrent : out.current = none)
    (hname : name ∉ out.entries.map ZipEntry.name) :
    putNextEntry name out = .ok () { out with current := some ⟨name, []⟩ } := by
  have hwritten := written_of_none hcurrent
  rw [run_putNextEntry_of_new (by rwa [hwritten]), hwritten]

/-- A name that was used is refused. -/
theorem run_putNextEntry_duplicate {out : ZipOutputStream} {name : JString}
    (hcurrent : out.current = none) (hname : name ∈ out.entries.map ZipEntry.name) :
    putNextEntry name out = .error .duplicateEntry out := by
  have hclose : closeEntry out = .ok () out := by simp [closeEntry, hcurrent]
  rw [putNextEntry, run_bind_of_ok hclose, run_get_bind,
    if_pos (hasEntry_iff.mpr hname)]
  rfl

/-- Only the comment changes. -/
theorem left_setComment (comment : JString) (out : ZipOutputStream) :
    ∃ bytes, left (setComment comment out) = { out with comment := bytes } := by
  unfold setComment
  by_cases hlong : 0xFFFF < (getBytes comment).length
  · rw [if_pos hlong]
    exact ⟨out.comment, rfl⟩
  · rw [if_neg hlong]
    exact ⟨getBytes comment, rfl⟩

theorem run_close_written (out : ZipOutputStream) : close out =
    .ok () { out with entries := written out, current := none, closed := true } := by
  rw [close, run_bind_of_ok (run_closeEntry out)]
  rfl

/-- Closing the stream adds no entry when none is being written. -/
theorem run_close {out : ZipOutputStream} (hcurrent : out.current = none) :
    close out = .ok () { out with closed := true } := by
  rw [run_close_written, written_of_none hcurrent, ← hcurrent]

theorem run_write {out : ZipOutputStream} {e : ZipEntry} (hcurrent : out.current = some e)
    (buf : List UInt8) :
    write buf out = .ok () { out with current := some { e with data := e.data ++ buf } } := by
  simp [write, hcurrent]

/-- Bytes that are written in pieces are written in a row. -/
theorem run_forM_write (pieces : List (List UInt8)) {out : ZipOutputStream} {e : ZipEntry}
    (hcurrent : out.current = some e) :
    pieces.forM write out =
      .ok () { out with current := some { e with data := e.data ++ pieces.flatten } } := by
  induction pieces generalizing out e with
  | nil => simp [← hcurrent, pure, EStateM.pure]
  | cons piece pieces ih =>
      have hcons : (piece :: pieces).forM write =
          (write piece >>= fun _ => pieces.forM write) := rfl
      rw [hcons, run_bind_of_ok (run_write hcurrent piece), ih rfl]
      simp

end ZipOutputStream

/-- What the file of a stream holds while it is written.  Nothing is taken back, and closing
the stream adds the directory of the archive. -/
structure ZipFormat where
  bytes : ZipOutputStream → List UInt8
  length_put : ∀ name out out', ZipOutputStream.putNextEntry name out = .ok () out' →
    (bytes out).length ≤ (bytes out').length
  length_write : ∀ buf out out', ZipOutputStream.write buf out = .ok () out' →
    (bytes out).length ≤ (bytes out').length
  length_close : ∀ out out', ZipOutputStream.close out = .ok () out' → out.closed = false →
    (bytes out).length < (bytes out').length

/-! ## Directories -/

/-- A regular file. -/
structure File where
  name : JString
  content : List UInt8
  deriving DecidableEq, Repr

def File.size (f : File) : Nat := f.content.length

/-- `available()` on a new `FileInputStream`: the size, up to the largest int. -/
def available (f : File) : Int32 := Int32.ofNat (min f.size (2 ^ 31 - 1))

theorem toInt_available (f : File) : (available f).toInt = min f.size (2 ^ 31 - 1) := by
  unfold available
  rw [Int32.toInt_ofNat_of_lt (by omega)]

/-- A directory of regular files, in the order of `listFiles()`. -/
structure Directory where
  listFiles : List File
  nodup : (listFiles.map File.name).Nodup

end Java
