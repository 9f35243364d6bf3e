import TrashClear.SecurityUtil
import TrashClear.TextFiles

/-!
# Encrypting and decrypting files

`DES_encrypt` and `DES_decrypt` of files, as programs whose stream operations may fail.
Their `finally` blocks differ: encryption flushes its writer there, decryption before.

* `desEncryptFile_exact`: when encryption returns, and that its file is cut off where the
  flush failed.
* `desDecryptFile_exact`: when decryption returns; its file is complete then.
-/

namespace TrashClear

open Java Blocks Run Files Disk

/-! ## The functions -/

namespace SecurityUtil

section Programs

variable (jca : Provider) (buffers : Buffers) (code : JString → JString) (file outFile : JPath)

/-- What is in the file when `text` was written but not flushed. -/
def letThrough (text : JString) : List UInt8 :=
  getBytes (text.take (buffers.through text.length))

/-- The loop, when `text` was written: a read, a write, and the read that ends it. -/
def codeLoop (text : JString) : List (List UInt8) → Files JString
  | [] => do
      transfer file outFile (letThrough buffers text)
      return text
  | buff :: rest => do
      transfer file outFile (letThrough buffers text)
      transfer file outFile (letThrough buffers (text ++ code (newString buff)))
      codeLoop (text ++ code (newString buff)) rest

/-- What can be read from a file that is open.  Nothing, when it was emptied since. -/
def remaining : Files (List UInt8) := do
  match (← get).files.lookup file with
  | some (.file content) => return content
  | _ => return []

/-- The streams are open: the loop over the file. -/
def codeFile : Files JString := do
  codeLoop buffers code file outFile [] (chunks 1024 (← remaining file))

/-- The closes of a `finally` block after an exception, which is thrown again. -/
def closeAfter {α : Type} (e : Stop) : Files α := do
  let _ ← caught (transfer file outFile buffers.afterFailure)
  throw e

/-- The closes of a `finally` block behind the flush: the second one is left out when the
first one fails. -/
def closeBoth : Files Unit := do
  if (← fault).isNone then
    let _ ← fault

/-- Both streams are open: encryption flushes its writer in the `finally` block. -/
def encryptOpened (key : JString) : Files JPath := do
  match ← recorded (codeFile buffers (desEncrypt jca · key) file outFile) with
  | .error e => closeAfter buffers file outFile e
  | .ok text => do
      let flushed ← caught (transfer file outFile (getBytes text))
      if flushed.isSome then closeBoth
      return outFile

/-- Encrypt a file.  In the `finally` block the writer is null if either stream was not
opened. -/
def desEncryptFile (key : JString) : Files JPath := do
  match ← caught (openInput file) with
  | none => throw .nullPointer
  | some _ =>
      match ← caught (openOutput outFile) with
      | none => throw .nullPointer
      | some () => encryptOpened jca buffers file outFile key

/-- The loop of the decryption, and the flush behind it. -/
def decryptText (key : JString) : Files Unit := do
  let text ← codeFile buffers (desDecrypt jca · key) file outFile
  transfer file outFile (getBytes text)

/-- Both streams are open. -/
def decryptOpened (key : JString) : Files JPath := do
  match ← recorded (decryptText jca buffers file outFile key) with
  | .error e => closeAfter buffers file outFile e
  | .ok () => do
      closeBoth
      return outFile

/-- The `finally` block when the output was not opened: behind the close of the reader the
writer is null, and when that close fails the first exception is thrown again. -/
def closeReader : Files JPath := do
  if (← fault).isNone then throw .nullPointer else throw (.io (.fileNotFound outFile))

/-- Decrypt a file.  In the `finally` block a reader that is null throws. -/
def desDecryptFile (key : JString) : Files JPath := do
  match ← caught (openInput file) with
  | none => throw .nullPointer
  | some _ =>
      match ← caught (openOutput outFile) with
      | none => closeReader outFile
      | some () => decryptOpened jca buffers file outFile key

end Programs

/-! ## Operations in a row -/

/-- None of the next `k` operations fails. -/
def Quiet (k : Nat) (faults : List (Option Nat)) : Prop := ∀ item ∈ faults.take k, item = none

theorem quiet_zero (faults : List (Option Nat)) : Quiet 0 faults :=
  fun item hitem => absurd hitem (by simp)

theorem quiet_succ {k : Nat} {faults : List (Option Nat)} :
    Quiet (k + 1) faults ↔ faults.headD none = none ∧ Quiet k faults.tail := by
  unfold Quiet
  cases faults with
  | nil => simp
  | cons item faults => simp

theorem run_fault_head (m : Machine) :
    fault m = .ok (m.faults.headD none) { m with faults := m.faults.tail } := by
  obtain ⟨files, faults⟩ := m
  cases faults <;> rfl

section Runs

variable {files : Tree} {faults : List (Option Nat)} {source target : JPath}
  {accepted : List UInt8}

theorem run_transfer_none (h : faults.headD none = none) :
    transfer source target accepted ⟨files, faults⟩ =
      .ok () ⟨files.put target (.file accepted), faults.tail⟩ := by
  rw [transfer, run_bind_of_ok (run_fault_head _), h]
  rfl

theorem run_transfer_cut {n : Nat} (h : faults.headD none = some n) :
    transfer source target accepted ⟨files, faults⟩ =
      .error (.io (.transfer source target (accepted.take n).length))
        ⟨files.put target (.file (accepted.take n)), faults.tail⟩ := by
  rw [transfer, run_bind_of_ok (run_fault_head _), h]
  rfl

theorem run_transfer_some {n : Nat} {d : List UInt8} {files' : Tree} (source : JPath)
    (accepted : List UInt8) (hopen : files.Open target) (hm : files.Writes target d files')
    (h : faults.headD none = some n) :
    ∃ k d' files'' faults', files.Writes target d' files'' ∧
      transfer source target accepted ⟨files', faults⟩ =
        .error (.io (.transfer source target k)) ⟨files'', faults'⟩ :=
  ⟨_, _, _, _, hm.put hopen (accepted.take n), run_transfer_cut h⟩

theorem run_openInput_none {p : JPath} {content : List UInt8}
    (hfile : files.lookup p = some (.file content)) (h : faults.headD none = none) :
    openInput p ⟨files, faults⟩ = .ok content ⟨files, faults.tail⟩ := by
  rw [openInput, run_bind_of_ok (run_fault_head _), run_get_bind]
  simp only [h, hfile]
  rfl

theorem run_openInput_some {p : JPath} {n : Nat} (h : faults.headD none = some n) :
    openInput p ⟨files, faults⟩ = .error (.io (.fileNotFound p)) ⟨files, faults.tail⟩ := by
  rw [openInput, run_bind_of_ok (run_fault_head _), run_get_bind]
  simp only [h]
  rfl

theorem run_openOutput_none {p : JPath} (h : faults.headD none = none ∧ files.Open p) :
    openOutput p ⟨files, faults⟩ = .ok () ⟨files.put p (.file []), faults.tail⟩ := by
  rw [openOutput, run_bind_of_ok (run_fault_head _), run_get_bind, if_pos h]
  rfl

theorem run_openOutput_some {p : JPath} (h : ¬ (faults.headD none = none ∧ files.Open p)) :
    openOutput p ⟨files, faults⟩ = .error (.io (.fileNotFound p)) ⟨files, faults.tail⟩ := by
  rw [openOutput, run_bind_of_ok (run_fault_head _), run_get_bind, if_neg h]
  rfl

end Runs

variable {buffers : Buffers} {code : JString → JString} {file outFile : JPath} {files : Tree}

/-- **The loop** returns the coded text when none of its operations fails; else it throws.
Only its target changes. -/
theorem run_codeLoop (buffers : Buffers) (code : JString → JString) (file : JPath)
    (hopen : files.Open outFile) (pieces : List (List UInt8)) (text : JString) {d : List UInt8}
    {files' : Tree} (hm : files.Writes outFile d files') (faults : List (Option Nat)) :
    (Quiet (2 * pieces.length + 1) faults ∧ ∃ d' files'', files.Writes outFile d' files'' ∧
        codeLoop buffers code file outFile text pieces ⟨files', faults⟩ =
          .ok (text ++ pieces.flatMap fun buff => code (newString buff))
            ⟨files'', faults.drop (2 * pieces.length + 1)⟩) ∨
      (¬ Quiet (2 * pieces.length + 1) faults ∧
        ∃ k d' files'' faults', files.Writes outFile d' files'' ∧
          codeLoop buffers code file outFile text pieces ⟨files', faults⟩ =
            .error (.io (.transfer file outFile k)) ⟨files'', faults'⟩) := by
  induction pieces generalizing text d files' faults with
  | nil =>
      cases hhead : faults.headD none with
      | none =>
          refine Or.inl ⟨quiet_succ.mpr ⟨hhead, quiet_zero _⟩, _, _,
            hm.put hopen (letThrough buffers text), ?_⟩
          rw [codeLoop, run_bind_of_ok (run_transfer_none hhead), List.flatMap_nil,
            List.append_nil, List.length_nil, Nat.mul_zero, Nat.zero_add, List.drop_one]
          rfl
      | some n =>
          obtain ⟨k, d', files'', faults', hleft, hrun⟩ := run_transfer_some file
            (letThrough buffers text) hopen hm hhead
          refine Or.inr ⟨fun h => ?_, k, d', files'', faults', hleft, ?_⟩
          · rw [(quiet_succ.mp h).1] at hhead
            cases hhead
          · rw [codeLoop, run_bind_of_error hrun]
  | cons buff rest ih =>
      have hcount : 2 * (buff :: rest).length + 1 = 2 * rest.length + 1 + 1 + 1 := by
        rw [List.length_cons]
        omega
      have hm' := hm.put hopen (letThrough buffers text)
      rw [hcount, quiet_succ, quiet_succ]
      cases hread : faults.headD none with
      | some n =>
          obtain ⟨k, d', files'', faults', hleft, hrun⟩ := run_transfer_some file
            (letThrough buffers text) hopen hm hread
          refine Or.inr ⟨fun h => ?_, k, d', files'', faults', hleft, ?_⟩
          · cases h.1
          · rw [codeLoop, run_bind_of_error hrun]
      | none =>
          cases hwrite : faults.tail.headD none with
          | some n =>
              obtain ⟨k, d', files'', faults', hleft, hrun⟩ := run_transfer_some file
                (letThrough buffers (text ++ code (newString buff))) hopen hm' hwrite
              refine Or.inr ⟨fun h => ?_, k, d', files'', faults', hleft, ?_⟩
              · cases h.2.1
              · rw [codeLoop, run_bind_of_ok (run_transfer_none hread), run_bind_of_error hrun]
          | none =>
              rw [codeLoop, run_bind_of_ok (run_transfer_none hread),
                run_bind_of_ok (run_transfer_none hwrite), List.flatMap_cons, ← List.append_assoc]
              have hrest := ih (text ++ code (newString buff))
                (hm'.put hopen (letThrough buffers (text ++ code (newString buff))))
                faults.tail.tail
              simpa only [true_and, List.drop_tail] using hrest

/-- What a program reads from `file` that has emptied `outFile`. -/
def readable (file outFile : JPath) (content : List UInt8) : List UInt8 :=
  if file = outFile then [] else content

/-- How many operations the loop has: every piece is read and written, and one read meets
the end. -/
def loopLength (plain : List UInt8) : Nat := 2 * (chunks 1024 plain).length + 1

/-- How many operations come before the flush. -/
def operations (plain : List UInt8) : Nat := 2 + loopLength plain

/-- How a program that codes `file` ends: it returns when none of the operations that `quiet`
speaks of fails, and a stream that was not opened is `masked` by another exception or
`reported`. -/
structure CodesFile (outFile : JPath) (files : Tree) (quiet masked reported : Prop)
    (written : List UInt8) (result : EStateM.Result Stop Machine JPath) : Prop where
  returns : (∃ m, result = .ok outFile m) ↔ quiet
  masks : (∃ m, result = .error .nullPointer m) ↔ masked
  reports : (∃ m, result = .error (.io (.fileNotFound outFile)) m) ↔ reported
  complete : ∀ a m, result = .ok a m → files.Writes outFile written m.files
  unchanged : masked ∨ reported → ∀ e m, result = .error e m → m.files = files
  failed : ∀ e m, result = .error e m → m.files = files ∨ ∃ d, files.Writes outFile d m.files

section Ends

variable {quiet masked reported : Prop} {written : List UInt8}
  {result : EStateM.Result Stop Machine JPath} {m : Machine}

theorem codesFile_of_returned (hrun : result = .ok outFile m) (hquiet : quiet)
    (hmasked : ¬ masked) (hreported : ¬ reported) (h : files.Writes outFile written m.files) :
    CodesFile outFile files quiet masked reported written result := by
  subst hrun
  exact {
    returns := ⟨fun _ => hquiet, fun _ => ⟨m, rfl⟩⟩
    masks := iff_of_false (fun hnull => by cases hnull.choose_spec) hmasked
    reports := iff_of_false (fun hio => by cases hio.choose_spec) hreported
    complete := fun a m' hok => by
      cases hok
      exact h
    unchanged := fun hor => absurd hor (not_or.mpr ⟨hmasked, hreported⟩)
    failed := nofun }

/-- A stream was not opened, and the `finally` block threw on null. -/
theorem codesFile_of_masked (hrun : result = .error .nullPointer m) (hquiet : ¬ quiet)
    (hmasked : masked) (hreported : ¬ reported) (h : m.files = files) :
    CodesFile outFile files quiet masked reported written result := by
  subst hrun
  have hfiles : ∀ e m', .error .nullPointer m = (.error e m' : EStateM.Result Stop Machine JPath) →
      m'.files = files := by
    intro e m' herror
    cases herror
    exact h
  exact {
    returns := iff_of_false (fun hok => by cases hok.choose_spec) hquiet
    masks := ⟨fun _ => hmasked, fun _ => ⟨m, rfl⟩⟩
    reports := iff_of_false (fun hio => by cases hio.choose_spec) hreported
    complete := nofun
    unchanged := fun _ => hfiles
    failed := fun e m' herror => Or.inl (hfiles e m' herror) }

/-- The output was not opened, and its exception was thrown again. -/
theorem codesFile_of_reported (hrun : result = .error (.io (.fileNotFound outFile)) m)
    (hquiet : ¬ quiet) (hmasked : ¬ masked) (hreported : reported) (h : m.files = files) :
    CodesFile outFile files quiet masked reported written result := by
  subst hrun
  have hfiles : ∀ e m', .error (.io (.fileNotFound outFile)) m =
      (.error e m' : EStateM.Result Stop Machine JPath) → m'.files = files := by
    intro e m' herror
    cases herror
    exact h
  exact {
    returns := iff_of_false (fun hok => by cases hok.choose_spec) hquiet
    masks := iff_of_false (fun hnull => by cases hnull.choose_spec) hmasked
    reports := ⟨fun _ => hreported, fun _ => ⟨m, rfl⟩⟩
    complete := nofun
    unchanged := fun _ => hfiles
    failed := fun e m' herror => Or.inl (hfiles e m' herror) }

/-- A read or a write failed. -/
theorem codesFile_of_failed {k : Nat} {d : List UInt8}
    (hrun : result = .error (.io (.transfer file outFile k)) m) (hquiet : ¬ quiet)
    (hmasked : ¬ masked) (hreported : ¬ reported) (h : files.Writes outFile d m.files) :
    CodesFile outFile files quiet masked reported written result := by
  subst hrun
  exact {
    returns := iff_of_false (fun hok => by cases hok.choose_spec) hquiet
    masks := iff_of_false (fun hnull => by cases hnull.choose_spec) hmasked
    reports := iff_of_false (fun hio => by cases hio.choose_spec) hreported
    complete := nofun
    unchanged := fun hor => absurd hor (not_or.mpr ⟨hmasked, hreported⟩)
    failed := fun e m' herror => by
      cases herror
      exact Or.inr ⟨d, h⟩ }

end Ends

/-- The closes after an exception write to their file alone. -/
theorem run_closeAfter (buffers : Buffers) (file : JPath) (e : Stop) (hopen : files.Open outFile)
    {d : List UInt8} {m : Machine} (hm : files.Writes outFile d m.files) :
    ∃ d' m', files.Writes outFile d' m'.files ∧
      (closeAfter buffers file outFile e : Files JPath) m = .error e m' := by
  obtain ⟨files', faults⟩ := m
  cases hhead : faults.headD none with
  | none =>
      refine ⟨_, ⟨_, faults.tail⟩, hm.put hopen buffers.afterFailure, ?_⟩
      rw [closeAfter, run_bind_of_ok (run_caught_of_ok (run_transfer_none hhead))]
      rfl
  | some n =>
      obtain ⟨e', d', files'', faults', hleft, hrun⟩ :=
        run_transfer_some file buffers.afterFailure hopen hm hhead
      refine ⟨d', ⟨files'', faults'⟩, hleft, ?_⟩
      rw [closeAfter, run_bind_of_ok (run_caught_of_error hrun)]
      rfl

/-- The closes behind the flush change nothing. -/
theorem run_closeBoth (m : Machine) :
    ∃ faults, closeBoth m = .ok () { m with faults := faults } := by
  cases hhead : m.faults.headD none with
  | none =>
      refine ⟨m.faults.tail.tail, ?_⟩
      rw [closeBoth, run_bind_of_ok (run_fault_head m), hhead, Option.isNone_none, if_pos rfl,
        run_bind_of_ok (run_fault_head _)]
      rfl
  | some n =>
      refine ⟨m.faults.tail, ?_⟩
      rw [closeBoth, run_bind_of_ok (run_fault_head m), hhead]
      rfl

/-- The loop over a file whose streams are open. -/
theorem run_codeFile (buffers : Buffers) (code : JString → JString) {content : List UInt8}
    (hfile : files.lookup file = some (.file content)) (hopen : files.Open outFile)
    (faults : List (Option Nat)) :
    (Quiet (loopLength (readable file outFile content)) faults ∧
        ∃ d files', files.Writes outFile d files' ∧
          codeFile buffers code file outFile ⟨files.put outFile (.file []), faults⟩ =
            .ok ((chunks 1024 (readable file outFile content)).flatMap fun buff =>
                code (newString buff))
              ⟨files', faults.drop (loopLength (readable file outFile content))⟩) ∨
      (¬ Quiet (loopLength (readable file outFile content)) faults ∧
        ∃ k d files' faults', files.Writes outFile d files' ∧
          codeFile buffers code file outFile ⟨files.put outFile (.file []), faults⟩ =
            .error (.io (.transfer file outFile k)) ⟨files', faults'⟩) := by
  have hlookup : (files.put outFile (.file [])).lookup file =
      some (.file (readable file outFile content)) := by
    rw [FileSystem.lookup_put hopen, readable]
    by_cases h : file = outFile
    · rw [if_pos h, if_pos h]
    · rw [if_neg h, if_neg h, hfile]
  have hremaining : remaining file ⟨files.put outFile (.file []), faults⟩ =
      .ok (readable file outFile content) ⟨files.put outFile (.file []), faults⟩ := by
    rw [remaining, run_get_bind]
    simp only [hlookup]
    rfl
  rw [codeFile, run_bind_of_ok hremaining]
  exact run_codeLoop buffers code file hopen _ [] (FileSystem.writes_put hopen []) faults

/-- What is on the disk when a flush of all bytes fails, or does not. -/
def cutOff (bytes : List UInt8) : Option Nat → List UInt8
  | none => bytes
  | some n => bytes.take n

/-- Texts are written one behind the other. -/
theorem getBytes_flatMap {α : Type} {f : α → JString} {xs : List α} (h : ∀ x, Utf.IsText (f x)) :
    getBytes (xs.flatMap f) = xs.flatMap fun x => getBytes (f x) := by
  induction xs with
  | nil => rfl
  | cons x xs ih =>
      obtain ⟨cs, hcs⟩ := h x
      rw [List.flatMap_cons, List.flatMap_cons, ← ih, hcs, getBytes_encode16]
      unfold getBytes
      rw [Utf.scalars_encode16_append, Utf.encode8_append]

variable {jca : Provider} {key : JString} {content : List UInt8}

theorem getBytes_encrypted (plain : List UInt8) :
    getBytes ((chunks 1024 plain).flatMap fun buff => desEncrypt jca (newString buff) key) =
      encryptFile jca plain key := by
  refine getBytes_flatMap fun buff => ?_
  have hascii : ∀ u ∈ desEncrypt jca (newString buff) key, u < 0x80 :=
    fun u hu => lt_of_isLowerHex (isLowerHex_desEncrypt jca _ key u hu)
  exact ⟨_, (newString_getBytes_ascii hascii).symm⟩

/-- What a decryption answers is a text. -/
theorem isText_desDecrypt (encrypted key : JString) :
    Utf.IsText (desDecrypt jca encrypted key) := by
  unfold desDecrypt
  rw [desKeySpec_md5, ok_bind]
  cases hexStringToBytes encrypted with
  | error e => exact ⟨[], rfl⟩
  | ok data =>
      rw [ok_bind]
      cases decryptFinal (jca.des (keyBlock jca key)) data with
      | error e => exact ⟨[], rfl⟩
      | ok plain => exact ⟨_, rfl⟩

theorem getBytes_decrypted (encrypted : List UInt8) :
    getBytes ((chunks 1024 encrypted).flatMap fun buff => desDecrypt jca (newString buff) key) =
      decryptFile jca encrypted key :=
  getBytes_flatMap fun buff => isText_desDecrypt (newString buff) key

/-- The first two operations, and those behind them. -/
theorem quiet_two_add {k : Nat} {faults : List (Option Nat)} : Quiet (2 + k) faults ↔
    (faults.headD none = none ∧ faults.tail.headD none = none) ∧ Quiet k faults.tail.tail := by
  rw [Nat.add_comm, quiet_succ, quiet_succ, and_assoc]

/-- The last operation, and those before it. -/
theorem quiet_add_one {k : Nat} {faults : List (Option Nat)} :
    Quiet (k + 1) faults ↔ Quiet k faults ∧ (faults.drop k).headD none = none := by
  induction k generalizing faults with
  | zero =>
      rw [quiet_succ, List.drop_zero]
      exact ⟨fun h => ⟨quiet_zero _, h.1⟩, fun h => ⟨h.2, quiet_zero _⟩⟩
  | succ k ih => rw [quiet_succ, ih, quiet_succ, List.drop_tail, and_assoc]

theorem quiet_two {faults : List (Option Nat)} :
    Quiet 2 faults ↔ faults.headD none = none ∧ faults.tail.headD none = none := by
  rw [← Nat.add_zero 2, quiet_two_add]
  exact ⟨fun h => h.1, fun h => ⟨h, quiet_zero _⟩⟩

theorem drop_tail_tail (k : Nat) (faults : List (Option Nat)) :
    faults.tail.tail.drop k = faults.drop (2 + k) := by
  rw [List.drop_tail, List.drop_tail, Nat.add_comm 2 k]

/-- **Encryption** returns when nothing fails before the flush.  It does so when the flush
fails, too, and then the file is cut off.  A stream that cannot be opened is never
reported as such. -/
theorem desEncryptFile_exact (hfile : files.lookup file = some (.file content))
    (faults : List (Option Nat)) :
    CodesFile outFile files
      (files.Open outFile ∧ Quiet (operations (readable file outFile content)) faults)
      (¬ (files.Open outFile ∧ Quiet 2 faults)) False
      (cutOff (encryptFile jca (readable file outFile content) key)
        ((faults.drop (operations (readable file outFile content))).headD none))
      (desEncryptFile jca buffers file outFile key ⟨files, faults⟩) := by
  unfold operations
  rw [quiet_two_add, quiet_two]
  by_cases hin : faults.headD none = none
  · have hread := run_caught_of_ok (run_openInput_none hfile hin)
    by_cases hout : faults.tail.headD none = none ∧ files.Open outFile
    · obtain ⟨hhead, hopen⟩ := hout
      have hopened : desEncryptFile jca buffers file outFile key ⟨files, faults⟩ =
          encryptOpened jca buffers file outFile key
            ⟨files.put outFile (.file []), faults.tail.tail⟩ := by
        rw [desEncryptFile, run_bind_of_ok hread]
        show (caught (openOutput outFile) >>= _) _ = _
        rw [run_bind_of_ok (run_caught_of_ok (run_openOutput_none ⟨hhead, hopen⟩))]
      rw [hopened, encryptOpened]
      rcases run_codeFile buffers (desEncrypt jca · key) hfile hopen faults.tail.tail with
        ⟨hquiet, d, files', hm, hrun⟩ | ⟨hfault, k, d, files', faults', hm, hrun⟩
      · rw [run_bind_of_ok (run_recorded_of_ok hrun)]
        show CodesFile _ _ _ _ _ _ ((caught (transfer file outFile (getBytes _)) >>= _) _)
        rw [getBytes_encrypted, drop_tail_tail]
        generalize encryptFile jca (readable file outFile content) key = encrypted
        generalize faults.drop (2 + loopLength (readable file outFile content)) = later
        cases hflush : later.headD none with
        | none =>
            rw [run_bind_of_ok (run_caught_of_ok (run_transfer_none hflush))]
            obtain ⟨faults', hclose⟩ := run_closeBoth
              ⟨files'.put outFile (.file encrypted), later.tail⟩
            have hend : (closeBoth >>= fun _ => pure outFile : Files JPath)
                ⟨files'.put outFile (.file encrypted), later.tail⟩ =
                  .ok outFile ⟨files'.put outFile (.file encrypted), faults'⟩ := by
              rw [run_bind_of_ok hclose]
              rfl
            exact codesFile_of_returned hend ⟨hopen, ⟨hin, hhead⟩, hquiet⟩
              (fun h => h ⟨hopen, hin, hhead⟩) not_false (hm.put hopen encrypted)
        | some n =>
            rw [run_bind_of_ok (run_caught_of_error (run_transfer_cut hflush))]
            exact codesFile_of_returned rfl ⟨hopen, ⟨hin, hhead⟩, hquiet⟩
              (fun h => h ⟨hopen, hin, hhead⟩) not_false (hm.put hopen (encrypted.take n))
      · obtain ⟨d', m', hm', hclose⟩ :=
          run_closeAfter buffers file (.io (.transfer file outFile k)) hopen
            (m := ⟨files', faults'⟩) hm
        rw [run_bind_of_ok (run_recorded_of_error hrun)]
        exact codesFile_of_failed hclose (fun h => hfault h.2.2)
          (fun h => h ⟨hopen, hin, hhead⟩) not_false hm'
    · have hrun : desEncryptFile jca buffers file outFile key ⟨files, faults⟩ =
          .error .nullPointer ⟨files, faults.tail.tail⟩ := by
        rw [desEncryptFile, run_bind_of_ok hread]
        show (caught (openOutput outFile) >>= _) _ = _
        rw [run_bind_of_ok (run_caught_of_error (run_openOutput_some hout))]
        rfl
      exact codesFile_of_masked hrun (fun h => hout ⟨h.2.1.2, h.1⟩) (fun h => hout ⟨h.2.2, h.1⟩)
        not_false rfl
  · obtain ⟨n, hn⟩ := Option.ne_none_iff_exists'.mp hin
    have hrun : desEncryptFile jca buffers file outFile key ⟨files, faults⟩ =
        .error .nullPointer ⟨files, faults.tail⟩ := by
      rw [desEncryptFile, run_bind_of_ok (run_caught_of_error (run_openInput_some hn))]
      rfl
    exact codesFile_of_masked hrun (fun h => hin h.2.1.1) (fun h => hin h.2.1) not_false rfl

/-- A file of one byte in a directory `a`. -/
def oneByteFile : Tree := (FileSystem.empty.mkdirs [js "a"]).put [js "a", js "f"] (.file [65])

/-- The operation behind the loop over one piece fails: the flush. -/
def flushFault : List (Option Nat) := [none, none, none, none, none, some 0]

/-- The flush fails with nothing on the disk, and encryption returns. -/
theorem desEncryptFile_exact_cut :
    ∃ m, desEncryptFile plainProvider ⟨fun _ => 0, []⟩ [js "a", js "f"] [js "a", js "g"] (js "k")
          ⟨oneByteFile, flushFault⟩ = .ok [js "a", js "g"] m ∧
      oneByteFile.Writes [js "a", js "g"] [] m.files := by
  have hfile : oneByteFile.lookup [js "a", js "f"] = some (.file [65]) := rfl
  have hexact : CodesFile [js "a", js "g"] oneByteFile _ _ _ _
      (desEncryptFile plainProvider ⟨fun _ => 0, []⟩ [js "a", js "f"] [js "a", js "g"] (js "k")
        ⟨oneByteFile, flushFault⟩) := desEncryptFile_exact hfile flushFault
  have hquiet : Quiet (operations (readable [js "a", js "f"] [js "a", js "g"] [65]))
      flushFault := by
    unfold Quiet
    decide
  obtain ⟨m, hrun⟩ := hexact.returns.mpr ⟨by decide, hquiet⟩
  exact ⟨m, hrun, hexact.complete _ m hrun⟩

/-- The loop of the decryption and its flush, over a file whose streams are open. -/
theorem run_decryptText (hfile : files.lookup file = some (.file content))
    (hopen : files.Open outFile) (faults : List (Option Nat)) :
    (Quiet (loopLength (readable file outFile content) + 1) faults ∧
        ∃ files' faults',
          files.Writes outFile (decryptFile jca (readable file outFile content) key) files' ∧
          decryptText jca buffers file outFile key ⟨files.put outFile (.file []), faults⟩ =
            .ok () ⟨files', faults'⟩) ∨
      (¬ Quiet (loopLength (readable file outFile content) + 1) faults ∧
        ∃ k d files' faults', files.Writes outFile d files' ∧
          decryptText jca buffers file outFile key ⟨files.put outFile (.file []), faults⟩ =
            .error (.io (.transfer file outFile k)) ⟨files', faults'⟩) := by
  rw [quiet_add_one, decryptText]
  rcases run_codeFile buffers (desDecrypt jca · key) hfile hopen faults with
    ⟨hquiet, d, files', hm, hrun⟩ | ⟨hfault, k, d, files', faults', hm, hrun⟩
  · rw [run_bind_of_ok hrun, getBytes_decrypted]
    generalize faults.drop (loopLength (readable file outFile content)) = later
    cases hflush : later.headD none with
    | none => exact Or.inl ⟨⟨hquiet, rfl⟩, _, _, hm.put hopen _, run_transfer_none hflush⟩
    | some n =>
        refine Or.inr ⟨fun h => ?_, run_transfer_some file _ hopen hm hflush⟩
        cases h.2
  · rw [run_bind_of_error hrun]
    exact Or.inr ⟨fun h => hfault h.1, k, d, files', faults', hm, rfl⟩

/-- **Decryption** returns when nothing fails up to the flush, and then the file is complete.
An output that cannot be opened is reported exactly when the close of the input fails. -/
theorem desDecryptFile_exact (hfile : files.lookup file = some (.file content))
    (faults : List (Option Nat)) :
    CodesFile outFile files
      (files.Open outFile ∧ Quiet (operations (readable file outFile content) + 1) faults)
      (¬ faults.headD none = none ∨
        ¬ (faults.tail.headD none = none ∧ files.Open outFile) ∧
          faults.tail.tail.headD none = none)
      (faults.headD none = none ∧ ¬ (faults.tail.headD none = none ∧ files.Open outFile) ∧
        ¬ faults.tail.tail.headD none = none)
      (decryptFile jca (readable file outFile content) key)
      (desDecryptFile jca buffers file outFile key ⟨files, faults⟩) := by
  unfold operations
  rw [Nat.add_assoc, quiet_two_add]
  by_cases hin : faults.headD none = none
  · have hread := run_caught_of_ok (run_openInput_none hfile hin)
    by_cases hout : faults.tail.headD none = none ∧ files.Open outFile
    · have hmasked : ¬ (¬ faults.headD none = none ∨
          ¬ (faults.tail.headD none = none ∧ files.Open outFile) ∧
            faults.tail.tail.headD none = none) :=
        fun h => h.elim (fun h => h hin) fun h => h.1 hout
      have hopened : desDecryptFile jca buffers file outFile key ⟨files, faults⟩ =
          decryptOpened jca buffers file outFile key
            ⟨files.put outFile (.file []), faults.tail.tail⟩ := by
        rw [desDecryptFile, run_bind_of_ok hread]
        show (caught (openOutput outFile) >>= _) _ = _
        rw [run_bind_of_ok (run_caught_of_ok (run_openOutput_none hout))]
      obtain ⟨hhead, hopen⟩ := hout
      rw [hopened, decryptOpened]
      rcases run_decryptText hfile hopen faults.tail.tail with
        ⟨hquiet, files', faults', hm, hrun⟩ | ⟨hfault, k, d, files', faults', hm, hrun⟩
      · obtain ⟨faults'', hclose⟩ := run_closeBoth ⟨files', faults'⟩
        have hend : (closeBoth >>= fun _ => pure outFile : Files JPath) ⟨files', faults'⟩ =
            .ok outFile ⟨files', faults''⟩ := by
          rw [run_bind_of_ok hclose]
          rfl
        rw [run_bind_of_ok (run_recorded_of_ok hrun)]
        exact codesFile_of_returned hend ⟨hopen, ⟨hin, hhead⟩, hquiet⟩ hmasked
          (fun h => h.2.1 ⟨hhead, hopen⟩) hm
      · obtain ⟨d', m', hm', hclose⟩ :=
          run_closeAfter buffers file (.io (.transfer file outFile k)) hopen
            (m := ⟨files', faults'⟩) hm
        rw [run_bind_of_ok (run_recorded_of_error hrun)]
        exact codesFile_of_failed hclose (fun h => hfault h.2.2) hmasked
          (fun h => h.2.1 ⟨hhead, hopen⟩) hm'
    · have hnot : ¬ (files.Open outFile ∧
          (faults.headD none = none ∧ faults.tail.headD none = none) ∧
            Quiet (loopLength (readable file outFile content) + 1)
              faults.tail.tail) :=
        fun h => hout ⟨h.2.1.2, h.1⟩
      have hclosing : desDecryptFile jca buffers file outFile key ⟨files, faults⟩ =
          closeReader outFile ⟨files, faults.tail.tail⟩ := by
        rw [desDecryptFile, run_bind_of_ok hread]
        show (caught (openOutput outFile) >>= _) _ = _
        rw [run_bind_of_ok (run_caught_of_error (run_openOutput_some hout))]
      rw [hclosing, closeReader, run_bind_of_ok (run_fault_head _)]
      cases hclose : faults.tail.tail.headD none with
      | none =>
          exact codesFile_of_masked rfl hnot (Or.inr ⟨hout, rfl⟩) (fun h => h.2.2 rfl) rfl
      | some n =>
          refine codesFile_of_reported rfl hnot (fun h => ?_) ⟨hin, hout, nofun⟩ rfl
          rcases h with h | h
          · exact h hin
          · cases h.2
  · obtain ⟨n, hn⟩ := Option.ne_none_iff_exists'.mp hin
    have hrun : desDecryptFile jca buffers file outFile key ⟨files, faults⟩ =
        .error .nullPointer ⟨files, faults.tail⟩ := by
      rw [desDecryptFile, run_bind_of_ok (run_caught_of_error (run_openInput_some hn))]
      rfl
    exact codesFile_of_masked hrun (fun h => hin h.2.1.1) (Or.inl hin) (fun h => hin h.1) rfl

/-- Decryption does not return when this flush fails. -/
theorem desDecryptFile_exact_cut :
    ¬ ∃ m, desDecryptFile plainProvider ⟨fun _ => 0, []⟩ [js "a", js "f"] [js "a", js "g"]
      (js "k") ⟨oneByteFile, flushFault⟩ = .ok [js "a", js "g"] m := by
  have hfile : oneByteFile.lookup [js "a", js "f"] = some (.file [65]) := rfl
  have hexact : CodesFile [js "a", js "g"] oneByteFile _ _ _ _
      (desDecryptFile plainProvider ⟨fun _ => 0, []⟩ [js "a", js "f"] [js "a", js "g"] (js "k")
        ⟨oneByteFile, flushFault⟩) := desDecryptFile_exact hfile flushFault
  have hnot : ¬ Quiet (operations (readable [js "a", js "f"] [js "a", js "g"] [65]) + 1)
      flushFault := by
    unfold Quiet
    decide
  exact fun h => hnot (hexact.returns.mp h).2

end SecurityUtil

end TrashClear
