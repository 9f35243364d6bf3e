import TrashClear.Java.Gzip
import TrashClear.Java.Process
import TrashClear.Library.Blocks

/-!
# Gzip files

`ZipUtil.GzipOneFile` compresses a file in pieces of 32768 bytes, `ZipUtil.GZip` an array
in pieces of 4096, and `ZipUtil.unGzipFile` unpacks a stream into a file.  The programs are
processes: what is on the disk can be looked at after each of their operations.

* `safe_gzipOneFile`, `safe_unGzipFile` say what one program does, whatever fails;
  `safe_gzipOneFile_clear` and `safe_unGzipFile_clear` are the undisturbed runs.
* `unGzipFile_of_stopped`, `unpack_of_stopped`: what can be unpacked after a compression
  that was stopped.
* `unGzipFile_gzipOneFile`: the round trip.
-/

namespace TrashClear.Gzip

open Java Disk Run Blocks Files Watch Process

variable (gzip : GzipFormat)

/-! ## The functions -/

/-- The bytes of a stream that have left its buffers after `k` operations. -/
abbrev Sent := Nat → Nat

/-- The loop of `_gzipFile`: a read and a write for each piece, and the read that ends it. -/
def gzipPieces (sent : Sent) (resFile zipFile : JPath) (stream : List UInt8) :
    Nat → List (List UInt8) → Process Unit
  | k, [] => op (transfer resFile zipFile (stream.take (sent k)))
  | k, _ :: pieces => do
      op (transfer resFile zipFile (stream.take (sent k)))
      op (transfer resFile zipFile (stream.take (sent (k + 1))))
      gzipPieces sent resFile zipFile stream (k + 1) pieces

/-- `GzipOneFile` when its output is open. -/
def gzipOpened (sent : Sent) (srcFile zipFile : JPath) : Process Unit := do
  let content ← op (openInput srcFile)
  let pieces := chunks 32768 content
  let stream := gzip.compress pieces
  gzipPieces sent srcFile zipFile stream 0 pieces
  -- the close of the input, the flush, and the close of the output
  op (transfer srcFile zipFile (stream.take (sent pieces.length)))
  op (transfer srcFile zipFile (stream.take (sent (pieces.length + 1))))
  op (transfer srcFile zipFile stream)

/-- Compress one file. -/
def gzipOneFile (sent : Sent) (srcFile zipFile : JPath) : Process Unit := do
  if ← op (fileExists srcFile) then
    op (openOutput zipFile)
    gzipOpened gzip sent srcFile zipFile

/-- Compress an array; null is answered by null. -/
def gZip (input : Option (List UInt8)) : Option (List UInt8) :=
  input.map fun input => gzip.compress (chunks 4096 input)

/-- The loop of `unGzipFile`, and the read that ends it or throws. -/
def unGzipPieces (destFile : JPath) : List UInt8 → List (List UInt8) → Process Unit
  | written, [] => op (transfer destFile destFile written)
  | written, buf :: rest => do
      op (transfer destFile destFile written)
      op (transfer destFile destFile (written ++ buf))
      unGzipPieces destFile (written ++ buf) rest

/-- Unpack a stream into a file.  An exception ends it, and is printed. -/
def unGzipFile (inputStream : List UInt8) (destFile : JPath) : Process Unit := do
  -- the header is read before the file is opened
  if (← op fault).isNone && gzip.opens inputStream then
    let _ ← caught do
      op (openOutput destFile)
      unGzipPieces destFile [] (gzip.reads inputStream).1

/-! ## What one program does -/

/-- The files are as they were. -/
def Untouched (files t : Tree) : Prop := ∀ q, t.lookup q = files.lookup q

/-- The files are as they were, or `target` was opened and holds the beginning of `all`. -/
def Partly (files : Tree) (target : JPath) (all : List UInt8) (t : Tree) : Prop :=
  Untouched files t ∨ files.Open target ∧ Begun files target all t

theorem Untouched.isOpen {files t : Tree} {p : JPath} (h : Untouched files t) :
    t.Open p ↔ files.Open p := by
  unfold FileSystem.Open
  rw [h, h]

/-- A file that is opened in untouched files. -/
theorem Untouched.writes {files t : Tree} {p : JPath} (h : Untouched files t)
    (hopen : t.Open p) (c : List UInt8) : files.Writes p c (t.put p (.file c)) := by
  intro q
  rw [FileSystem.writes_put hopen c q, h]

theorem Partly.of_writes {files t : Tree} {target : JPath} {c all : List UInt8}
    (hopen : files.Open target) (hbegins : c <+: all) (h : files.Writes target c t) :
    Partly files target all t :=
  Or.inr ⟨hopen, c, hbegins, h⟩

/-- Opening a file of untouched files for writing. -/
theorem safe_openOutput_untouched (files : Tree) (target : JPath) (all : List UInt8) :
    Safe (On (Partly files target all)) (On (Untouched files)) (op (openOutput target))
      (fun _ => On fun t => files.Open target ∧ files.Writes target [] t)
      (On (Partly files target all)) := by
  refine (safe_openOutput (R := fun t => files.Open target ∧ files.Writes target [] t)
    (fun t h => Or.inl h) ?_).weaken (fun _ h => h) (fun _ h => h) (fun _ _ h => h)
      (fun _ h => Or.inl h)
  intro t ht hopen
  have hfiles := ht.isOpen.mp hopen
  have hwrites := ht.writes hopen []
  exact ⟨Partly.of_writes hfiles List.nil_prefix hwrites, hfiles, hwrites⟩

section Compress

variable {sent : Sent} {srcFile zipFile : JPath} {files : Tree}

/-- The loop passes on the beginning of its stream. -/
theorem safe_gzipPieces {stream : List UInt8} (hopen : files.Open zipFile)
    (pieces : List (List UInt8)) (k : Nat) :
    Safe (On (Begun files zipFile stream)) (On (Begun files zipFile stream))
      (gzipPieces sent srcFile zipFile stream k pieces)
      (fun _ => On (Begun files zipFile stream)) (On (Begun files zipFile stream)) := by
  have hsent (n : Nat) : stream.take (sent n) <+: stream := List.take_prefix _ _
  induction pieces generalizing k with
  | nil =>
      exact (safe_transfer hopen (hsent k)).weaken (fun _ h => h) (fun _ h => h)
        (fun _ _ h => .of_writes (hsent k) h) (fun _ h => h)
  | cons piece pieces ih =>
      apply safe_transfer_then hopen (hsent k)
      apply safe_transfer_then hopen (hsent (k + 1))
      exact ih (k + 1)

theorem safe_gzipOpened {content : List UInt8} (hne : srcFile ≠ zipFile)
    (hsrc : files.lookup srcFile = some (.file content)) (hopen : files.Open zipFile) :
    let stream := gzip.compress (chunks 32768 content)
    Safe (On (Begun files zipFile stream)) (On (files.Writes zipFile []))
      (gzipOpened gzip sent srcFile zipFile) (fun _ => On (files.Writes zipFile stream))
      (On (Begun files zipFile stream)) := by
  intro stream
  have hsent (n : Nat) : stream.take (sent n) <+: stream := List.take_prefix _ _
  have hempty : ∀ t, files.Writes zipFile [] t → Begun files zipFile stream t :=
    fun _ h => .of_writes List.nil_prefix h
  unfold gzipOpened
  have hread (read : List UInt8) (m : Machine)
      (h : On (fun t => files.Writes zipFile [] t ∧ t.lookup srcFile = some (.file read)) m) :
      read = content ∧ On (Begun files zipFile stream) m := by
    obtain ⟨hwrites, hread⟩ := h
    rw [hwrites, if_neg hne, hsrc] at hread
    cases hread
    exact ⟨rfl, hempty m.files hwrites⟩
  refine ((safe_openInput hempty).weaken (fun _ h => h) (fun _ h => h) hread
    (fun m h => hempty m.files h)).bind fun read => ?_
  refine safe_of_forall fun hcontent => ?_
  subst hcontent
  refine (safe_gzipPieces hopen _ 0).bind fun _ => ?_
  apply safe_transfer_then hopen (hsent _)
  apply safe_transfer_then hopen (hsent _)
  exact safe_transfer hopen List.prefix_rfl

/-- **Compressing a file**: at any time nothing has happened yet, or the new file holds the
beginning of the stream; when it returns, all of it. -/
theorem safe_gzipOneFile {content : List UInt8} (hne : srcFile ≠ zipFile)
    (hsrc : files.lookup srcFile = some (.file content)) :
    let stream := gzip.compress (chunks 32768 content)
    Safe (On (Partly files zipFile stream)) (On (Untouched files))
      (gzipOneFile gzip sent srcFile zipFile)
      (fun _ => On fun t => files.Open zipFile ∧ files.Writes zipFile stream t)
      (On (Partly files zipFile stream)) := by
  intro stream
  unfold gzipOneFile
  have hfound (found : Bool) (m : Machine)
      (h : On (fun t => Untouched files t ∧ found = (t.lookup srcFile).isSome) m) :
      found = true ∧ On (Untouched files) m := by
    obtain ⟨hfiles, hfound⟩ := h
    rw [hfiles, hsrc] at hfound
    exact ⟨hfound, hfiles⟩
  refine ((safe_fileExists fun _ h => Or.inl h).weaken (fun _ h => h) (fun _ h => h) hfound
    (fun _ h => h)).bind fun found => ?_
  refine safe_of_forall fun hexists => ?_
  rw [if_pos hexists]
  refine (safe_openOutput_untouched files zipFile stream).bind fun _ => ?_
  refine safe_of_forall fun hopen => ?_
  exact (safe_gzipOpened gzip hne hsrc hopen).weaken (fun _ h => h)
    (fun _ h => Or.inr ⟨hopen, h⟩) (fun _ _ h => ⟨hopen, h⟩) (fun _ h => Or.inr ⟨hopen, h⟩)

end Compress

section Unpack

variable {destFile : JPath} {files : Tree}

/-- The loop writes what it reads. -/
theorem safe_unGzipPieces {data : List UInt8} (hopen : files.Open destFile)
    (rest : List (List UInt8)) {written : List UInt8} (hdata : written ++ rest.flatten = data) :
    Safe (On (Begun files destFile data)) (On (Begun files destFile data))
      (unGzipPieces destFile written rest) (fun _ => On (files.Writes destFile data))
      (On (Begun files destFile data)) := by
  induction rest generalizing written with
  | nil =>
      rw [List.flatten_nil, List.append_nil] at hdata
      rw [unGzipPieces, hdata]
      exact safe_transfer hopen List.prefix_rfl
  | cons buf rest ih =>
      rw [List.flatten_cons, ← List.append_assoc] at hdata
      have hbuf : written ++ buf <+: data := ⟨_, hdata⟩
      apply safe_transfer_then hopen ((List.prefix_append written buf).trans hbuf)
      apply safe_transfer_then hopen hbuf
      exact ih hdata

/-- **Unpacking a stream**: at any time, and at the end, nothing has happened yet, or the file
holds the beginning of what can be read. -/
theorem safe_unGzipFile (inputStream : List UInt8) :
    let data := (gzip.reads inputStream).1.flatten
    Safe (On (Partly files destFile data)) (On (Untouched files))
      (unGzipFile gzip inputStream destFile) (fun _ => On (Partly files destFile data))
      (fun _ => False) := by
  intro data
  unfold unGzipFile
  refine (safe_fault (P := Untouched files) fun _ h => Or.inl h).bind fun item => ?_
  by_cases hheader : item.isNone && gzip.opens inputStream
  · rw [if_pos hheader]
    have hbody : Safe (On (Partly files destFile data)) (On (Untouched files))
        (do
          op (openOutput destFile)
          unGzipPieces destFile [] (gzip.reads inputStream).1)
        (fun _ => On (Partly files destFile data)) (On (Partly files destFile data)) := by
      refine (safe_openOutput_untouched files destFile data).bind fun _ => ?_
      refine safe_of_forall fun hopen => ?_
      have hpartly (c : List UInt8) (hc : c <+: data) (m : Machine)
          (h : On (files.Writes destFile c) m) : On (Partly files destFile data) m :=
        .of_writes hopen hc h
      exact (safe_unGzipPieces hopen _ (List.nil_append data)).weaken
        (fun _ h => .of_writes List.nil_prefix h) (fun _ h => Or.inr ⟨hopen, h⟩)
        (fun _ m h => hpartly data List.prefix_rfl m h) (fun _ h => Or.inr ⟨hopen, h⟩)
    have hcaught := hbody.caught (Q := fun _ => On (Partly files destFile data))
      (T := fun _ => False)
      (fun _ _ h => h) (fun _ h => h)
    exact hcaught.bind fun _ => safe_pure fun _ h => h
  · rw [if_neg hheader]
    exact safe_pure fun _ h => Or.inl h

end Unpack

/-! ## Undisturbed runs -/

section Undisturbed

variable {sent : Sent} {srcFile zipFile destFile : JPath} {files : Tree}

theorem safe_gzipPieces_clear {stream : List UInt8} (hopen : files.Open zipFile)
    (pieces : List (List UInt8)) (k : Nat) :
    Safe (fun _ => True) (Clear (Begun files zipFile stream))
      (gzipPieces sent srcFile zipFile stream k pieces)
      (fun _ => Clear (Begun files zipFile stream)) (fun _ => False) := by
  have hsent (n : Nat) : stream.take (sent n) <+: stream := List.take_prefix _ _
  induction pieces generalizing k with
  | nil =>
      exact (safe_transfer_clear hopen).weaken (fun _ h => h) (fun _ h => h)
        (fun _ _ h => ⟨h.1, .of_writes (hsent k) h.2⟩) (fun _ h => h)
  | cons piece pieces ih =>
      apply safe_transfer_clear_then hopen (hsent k)
      apply safe_transfer_clear_then hopen (hsent (k + 1))
      exact ih (k + 1)

theorem safe_gzipOneFile_clear {content : List UInt8} (hne : srcFile ≠ zipFile)
    (hsrc : files.lookup srcFile = some (.file content)) (hopen : files.Open zipFile) :
    let stream := gzip.compress (chunks 32768 content)
    Safe (fun _ => True) (Clear (· = files)) (gzipOneFile gzip sent srcFile zipFile)
      (fun _ => Clear (files.Writes zipFile stream)) (fun _ => False) := by
  intro stream
  have hsent (n : Nat) : stream.take (sent n) <+: stream := List.take_prefix _ _
  have hempty := FileSystem.writes_put hopen ([] : List UInt8)
  unfold gzipOneFile
  refine (safe_op_clear (Q := fun found t => found = true ∧ t = files) fun t ht =>
    ⟨_, t, run_fileExists srcFile _, by simp [ht, hsrc], ht⟩).bind fun found => ?_
  refine safe_of_clear fun hfound => ?_
  rw [if_pos hfound]
  refine (safe_op_clear (Q := fun _ t => t = files.put zipFile (.file [])) fun t ht =>
    ⟨(), _, run_openOutput_clear (ht ▸ hopen), by rw [ht]⟩).bind fun _ => ?_
  unfold gzipOpened
  refine (safe_op_clear (Q := fun read t => read = content ∧ Begun files zipFile stream t)
    fun t ht => ⟨content, t, run_openInput_clear ?_, rfl, ?_⟩).bind fun read => ?_
  · rw [ht, hempty, if_neg hne, hsrc]
  · rw [ht]
    exact .of_writes List.nil_prefix hempty
  · refine safe_of_clear fun hread => ?_
    subst hread
    refine (safe_gzipPieces_clear hopen _ 0).bind fun _ => ?_
    apply safe_transfer_clear_then hopen (hsent _)
    apply safe_transfer_clear_then hopen (hsent _)
    exact safe_transfer_clear hopen

theorem safe_unGzipPieces_clear {data : List UInt8} (hopen : files.Open destFile)
    (rest : List (List UInt8)) {written : List UInt8} (hdata : written ++ rest.flatten = data) :
    Safe (fun _ => True) (Clear (Begun files destFile data)) (unGzipPieces destFile written rest)
      (fun _ => Clear (files.Writes destFile data)) (fun _ => False) := by
  induction rest generalizing written with
  | nil =>
      rw [List.flatten_nil, List.append_nil] at hdata
      rw [unGzipPieces, hdata]
      exact safe_transfer_clear hopen
  | cons buf rest ih =>
      rw [List.flatten_cons, ← List.append_assoc] at hdata
      have hbuf : written ++ buf <+: data := ⟨_, hdata⟩
      apply safe_transfer_clear_then hopen ((List.prefix_append written buf).trans hbuf)
      apply safe_transfer_clear_then hopen hbuf
      exact ih hdata

theorem safe_unGzipFile_clear {inputStream : List UInt8} (hheader : gzip.opens inputStream = true)
    (hopen : files.Open destFile) :
    Safe (fun _ => True) (Clear (· = files)) (unGzipFile gzip inputStream destFile)
      (fun _ => Clear (files.Writes destFile (gzip.reads inputStream).1.flatten))
      (fun _ => False) := by
  unfold unGzipFile
  have hfault : Safe (fun _ => True) (Clear (· = files)) (op fault)
      (fun item => Clear fun t => item = none ∧ t = files) (fun _ => False) :=
    safe_op_clear fun t ht => ⟨none, t, rfl, rfl, ht⟩
  refine hfault.bind fun item => ?_
  refine safe_of_clear fun hitem => ?_
  rw [if_pos (by rw [hitem, hheader]; rfl)]
  have hopened : Safe (fun _ => True) (Clear (· = files)) (op (openOutput destFile))
      (fun _ => Clear (Begun files destFile (gzip.reads inputStream).1.flatten))
      (fun _ => False) := by
    refine safe_op_clear fun t ht => ⟨(), _, run_openOutput_clear (ht ▸ hopen), ?_⟩
    rw [ht]
    exact .of_writes List.nil_prefix (FileSystem.writes_put hopen [])
  have hbody := hopened.bind fun _ => safe_unGzipPieces_clear hopen _ (List.nil_append _)
  have hcaught := hbody.caught
    (Q := fun _ => Clear (files.Writes destFile (gzip.reads inputStream).1.flatten))
    (T := fun _ => False) (fun _ _ h => h) (fun _ h => h.elim)
  exact hcaught.bind fun _ => safe_pure fun _ h => h

end Undisturbed

/-! ## Round trip -/

/-- One file of two bytes. -/
def twoBytes : Tree := FileSystem.empty.put [js "a"] (.file [1, 2])

section RoundTrip

variable {sent : Sent} {srcFile zipFile destFile : JPath} {files : Tree} {content : List UInt8}

/-- **No wrong data**: whatever fails, and wherever a compression is stopped, unpacking what
it has left of its result returns, and at any time its own result has not been opened or is
the beginning of the compressed file.  No other file changes. -/
theorem unGzipFile_of_stopped (hne : srcFile ≠ zipFile)
    (hsrc : files.lookup srcFile = some (.file content)) {faults : List (Option Nat)}
    {m : Machine} (hm : m ∈ noted (gzipOneFile gzip sent srcFile zipFile) ⟨files, faults⟩) :
    Untouched files m.files ∨ ∃ stream, files.Writes zipFile stream m.files ∧
      ∀ faults',
        (∃ w, unGzipFile gzip stream destFile (start ⟨m.files, faults'⟩) = .ok () w) ∧
          ∀ m' ∈ noted (unGzipFile gzip stream destFile) ⟨m.files, faults'⟩,
            Partly m.files destFile content m'.files := by
  rcases (safe_gzipOneFile gzip hne hsrc).during_of_mem_noted (fun _ => rfl) hm with
    hsame | ⟨-, stream, hcut, hwrites⟩
  · exact Or.inl hsame
  · have hcontent : (chunks 32768 content).flatten = content := flatten_chunks (by omega) _
    have hdata := gzip.flatten_reads_cut _ _ hcut
    rw [hcontent] at hdata
    have hsafe : Safe _ (On (Untouched m.files)) (unGzipFile gzip stream destFile) _ _ :=
      safe_unGzipFile gzip stream
    refine Or.inr ⟨stream, hwrites, fun faults' => ⟨?_, fun m' hm' => ?_⟩⟩
    · have hend := hsafe (start ⟨m.files, faults'⟩) (fun _ => rfl)
      cases hrun : unGzipFile gzip stream destFile (start ⟨m.files, faults'⟩) with
      | ok a w => exact ⟨w, rfl⟩
      | error e w =>
          rw [hrun] at hend
          exact absurd hend.1 not_false
    · have hstart : On (Untouched m.files) ⟨m.files, faults'⟩ := fun _ => rfl
      rcases hsafe.during_of_mem_noted hstart hm' with hsame | ⟨hopen, c, hc, hwrites'⟩
      · exact Or.inl hsame
      · exact Or.inr ⟨hopen, c, hc.trans hdata, hwrites'⟩

/-- A stream of two bytes that was cut off behind the first one. -/
def firstBlock : List UInt8 := (storedGzip.compress [[1, 2]]).take 18

/-- Stopped behind the first read, when one block of two is on the disk. -/
theorem unGzipFile_of_stopped_block : storedGzip.reads firstBlock = ([[1]], false) ∧
    let m : Machine := ⟨(twoBytes.put [js "b"] (.file [])).put [js "b"] (.file firstBlock), []⟩
    ∃ stream, twoBytes.Writes [js "b"] stream m.files ∧
      ∀ faults',
        (∃ w, unGzipFile storedGzip stream [js "c"] (start ⟨m.files, faults'⟩) = .ok () w) ∧
          ∀ m' ∈ noted (unGzipFile storedGzip stream [js "c"]) ⟨m.files, faults'⟩,
            Partly m.files [js "c"] [1, 2] m'.files := by
  have hmem : (⟨(twoBytes.put [js "b"] (.file [])).put [js "b"] (.file firstBlock), []⟩ : Machine) ∈
      noted (gzipOneFile storedGzip (fun _ => 18) [js "a"] [js "b"]) ⟨twoBytes, []⟩ :=
    List.mem_of_getElem? (i := 3) rfl
  refine ⟨rfl, (unGzipFile_of_stopped storedGzip (by decide) rfl hmem).resolve_left fun h => ?_⟩
  exact absurd (h [js "b"]) (by decide)

/-- What a stopped compression leaves, read to its end, is the whole file: a shorter stream
throws before. -/
theorem unpack_of_stopped (hne : srcFile ≠ zipFile)
    (hsrc : files.lookup srcFile = some (.file content)) {faults : List (Option Nat)}
    {m : Machine} (hm : m ∈ noted (gzipOneFile gzip sent srcFile zipFile) ⟨files, faults⟩) :
    Untouched files m.files ∨ ∃ stream, files.Writes zipFile stream m.files ∧
      ∀ data, gzip.unpack stream = some data → data = content := by
  rcases (safe_gzipOneFile gzip hne hsrc).during_of_mem_noted (fun _ => rfl) hm with
    hsame | ⟨-, stream, hcut, hwrites⟩
  · exact Or.inl hsame
  · refine Or.inr ⟨stream, hwrites, fun data hdata => ?_⟩
    rw [(gzip.unpack_cut hcut hdata).2, flatten_chunks (by omega)]

/-- Undisturbed, the stream is unpacked to `data`, wherever the file can be opened. -/
def Unpacks (stream : List UInt8) (destFile : JPath) (data : List UInt8) : Prop :=
  ∀ t : Tree, t.Open destFile →
    ∃ w, unGzipFile gzip stream destFile (start ⟨t, []⟩) = .ok () w ∧
      t.Writes destFile data w.now.files

theorem unpacks_compress {n : Nat} (hn : 0 < n) (data : List UInt8) :
    Unpacks gzip (gzip.compress (chunks n data)) destFile data := by
  intro t ht
  obtain ⟨_, w, hrun, -, hwrites⟩ :=
    exists_run_of_safe (safe_unGzipFile_clear gzip (gzip.opens_compress (chunks n data)) ht) rfl
  rw [gzip.flatten_reads, flatten_chunks hn] at hwrites
  exact ⟨w, hrun, hwrites⟩

/-- **Round trip**: undisturbed, a file is compressed and unpacked to what it was, and so is
the array of its bytes. -/
theorem unGzipFile_gzipOneFile (hne : srcFile ≠ zipFile)
    (hsrc : files.lookup srcFile = some (.file content)) (hopen : files.Open zipFile) :
    (∃ w stream, gzipOneFile gzip sent srcFile zipFile (start ⟨files, []⟩) = .ok () w ∧
      files.Writes zipFile stream w.now.files ∧ Unpacks gzip stream destFile content) ∧
    ∃ stream, gZip gzip (some content) = some stream ∧ Unpacks gzip stream destFile content := by
  obtain ⟨_, w, hrun, -, hwrites⟩ :=
    exists_run_of_safe (safe_gzipOneFile_clear gzip hne hsrc hopen) rfl
  exact ⟨⟨w, _, hrun, hwrites, unpacks_compress gzip (by omega) content⟩,
    _, rfl, unpacks_compress gzip (by omega) content⟩

theorem unGzipFile_gzipOneFile_twoBytes :
    (∃ w stream, gzipOneFile storedGzip id [js "a"] [js "b"] (start ⟨twoBytes, []⟩) = .ok () w ∧
      twoBytes.Writes [js "b"] stream w.now.files ∧ Unpacks storedGzip stream [js "c"] [1, 2]) ∧
    ∃ stream, gZip storedGzip (some [1, 2]) = some stream ∧
      Unpacks storedGzip stream [js "c"] [1, 2] :=
  unGzipFile_gzipOneFile storedGzip (by decide) rfl (by decide)
end RoundTrip

end TrashClear.Gzip
