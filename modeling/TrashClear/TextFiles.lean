import TrashClear.DataBaseOp
import TrashClear.Recode

/-!
# Writing and reading lines

`FileUtil.writeFile` ends every line with `\n`.  `FileUtil.getFileLines` and
`DataBaseOp.getLines` read all lines of a file; they differ in when they close it.

* `run_getLines`: what the generators are given for a file is what such a reading returns.
* `getLines_writeFile`: lines are read back as they were written.
-/

namespace TrashClear

open Java Disk Run Files

/-! ## Charsets -/

/-- The default charset: texts over its repertoire survive it, and `\n` is one of them. -/
structure DefaultCharset extends FileUtil.Charset where
  repertoire : Char → Prop
  newline : repertoire '\n'
  decode_encode : ∀ cs : List Char, (∀ c ∈ cs, repertoire c) →
    decode (encode (Utf.encode16 cs)) = Utf.encode16 cs

/-- All characters of the text are in the repertoire. -/
def DefaultCharset.Represents (coding : DefaultCharset) (text : JString) : Prop :=
  ∃ cs, (∀ c ∈ cs, coding.repertoire c) ∧ text = Utf.encode16 cs

/-- UTF-8, which represents every character. -/
def defaultUtf8 : DefaultCharset where
  toCharset := FileUtil.utf8
  repertoire := fun _ => True
  newline := trivial
  decode_encode := fun cs _ => newString_getBytes cs

/-! ## The functions -/

/-- What the buffers of a writer do: how many characters of a text they let through before
the flush, and what the close leaves in the file after a failure. -/
structure Buffers where
  through : Nat → Nat
  afterFailure : List UInt8

namespace FileUtil

variable (coding : Charset) (buffers : Buffers)

/-- The loop of `writeFile`, when `text` was written. -/
def writeLines (destFilePath : JPath) (text : JString) : List JString → Files JString
  | [] => return text
  | line :: lines => do
      let text := text ++ (line ++ [0x0A])
      transfer destFilePath destFilePath
        (coding.encode (text.take (buffers.through text.length)))
      writeLines destFilePath text lines

/-- The loop and the flush, and the bytes that were written. -/
def writeText (destFilePath : JPath) (lines : List JString) : Files (List UInt8) := do
  let text ← writeLines coding buffers destFilePath [] lines
  transfer destFilePath destFilePath (coding.encode text)
  return coding.encode text

/-- Write lines to a file. -/
def writeFile (destFilePath : JPath) (lines : Option (List JString)) : Files Unit := do
  if let some () ← caught (openOutput destFilePath) then
    match lines with
    | none =>
        -- the loop throws, and the close has nothing to write
        let _ ← caught (transfer destFilePath destFilePath [])
    | some lines =>
        let written ← caught (writeText coding buffers destFilePath lines)
        let _ ← caught (transfer destFilePath destFilePath (written.getD buffers.afterFailure))

/-- The loop of a reading: the lines up to the first exception, and whether there was none. -/
def addLines (list : List JString) : List JString → Files (List JString × Bool)
  | [] => return (list, (← fault).isNone)
  | line :: rest => do
      if (← fault).isNone then addLines (list ++ [line]) rest else return (list, false)

/-- Close a reader, or leave it open.  An exception of the close changes nothing. -/
def closeReader (closes : Bool) : Files Unit := do
  if closes then
    let _ ← fault

/-- All lines of a file, null when there is none.  `closes` says whether the reader is
closed, given whether the loop has ended. -/
def readFile (closes : Bool → Bool) (filePath : JPath) : Files (Option (List JString)) := do
  if ← fileExists filePath then
    match ← caught (openInput filePath) with
    | none => return some []
    | some content => do
        let (list, ended) ← addLines [] (readLines (coding.decode content))
        closeReader (closes ended)
        return some list
  else return none

/-- This one closes its reader in a `finally` block. -/
def getFileLines (filePath : JPath) : Files (Option (List JString)) :=
  readFile coding (fun _ => true) filePath

end FileUtil

/-- This one closes its reader behind the loop, where an exception does not come. -/
def DataBaseOp.getLines (coding : FileUtil.Charset) (filePath : JPath) :
    Files (Option (List JString)) :=
  FileUtil.readFile coding id filePath

namespace FileUtil

/-! ## What a reading returns -/

section Reading

variable {coding : Charset} {closes : Bool → Bool} {filePath : JPath} {files : Tree}

/-- Without faults it adds all. -/
theorem run_addLines_clear (rest list : List JString) :
    addLines list rest ⟨files, []⟩ = .ok (list ++ rest, true) ⟨files, []⟩ := by
  induction rest generalizing list with
  | nil =>
      rw [List.append_nil]
      rfl
  | cons line rest ih =>
      have hstep : addLines list (line :: rest) ⟨files, []⟩ =
          addLines (list ++ [line]) rest ⟨files, []⟩ := rfl
      rw [hstep, ih, List.append_assoc]
      rfl

theorem run_closeReader_clear (closes : Bool) :
    closeReader closes ⟨files, []⟩ = .ok () ⟨files, []⟩ := by
  cases closes with
  | true => rfl
  | false => rfl

/-- A reading whose file is opened returns the lines that its loop has added. -/
theorem run_readFile_of_opened {m m₁ m₂ m₃ : Machine} {content : List UInt8}
    {list : List JString} {ended : Bool} (hexists : m.files.lookup filePath ≠ none)
    (hinput : openInput filePath m = .ok content m₁)
    (hlines : addLines [] (readLines (coding.decode content)) m₁ = .ok (list, ended) m₂)
    (hclose : closeReader (closes ended) m₂ = .ok () m₃) :
    readFile coding closes filePath m = .ok (some list) m₃ := by
  have hsome : (m.files.lookup filePath).isSome = true := Option.isSome_iff_ne_none.mpr hexists
  rw [readFile, run_bind_of_ok (run_fileExists filePath m), if_pos hsome,
    run_bind_of_ok (run_caught_of_ok hinput)]
  show (addLines [] _ >>= _) _ = _
  rw [run_bind_of_ok hlines]
  show (closeReader (closes ended) >>= _) _ = _
  rw [run_bind_of_ok hclose]
  rfl

/-- Without faults a reading returns the lines of the file. -/
theorem run_readFile_clear {content : List UInt8}
    (h : files.lookup filePath = some (.file content)) :
    readFile coding closes filePath ⟨files, []⟩ =
      .ok (some (readLines (coding.decode content))) ⟨files, []⟩ := by
  have hexists : files.lookup filePath ≠ none := by
    rw [h]
    exact Option.some_ne_none _
  exact run_readFile_of_opened hexists (run_openInput_clear h) (run_addLines_clear _ [])
    (run_closeReader_clear _)

end Reading

/-! ## What a writing leaves -/

section Writing

variable {destFilePath : JPath} {files files' : Tree}

/-- The lines of a text, each with its terminator. -/
def textOf (lines : List JString) : JString := lines.flatMap fun line => line ++ [0x0A]

/-- The loop gives the text, and writes nothing but its file. -/
theorem run_writeLines_clear (coding : Charset) (buffers : Buffers)
    (hopen : files.Open destFilePath) (lines : List JString) (text : JString)
    {content : List UInt8} (hm : files.Writes destFilePath content files') :
    ∃ files'' content', files.Writes destFilePath content' files'' ∧
      writeLines coding buffers destFilePath text lines ⟨files', []⟩ =
        .ok (text ++ textOf lines) ⟨files'', []⟩ := by
  induction lines generalizing text content files' with
  | nil =>
      refine ⟨files', content, hm, ?_⟩
      rw [textOf, List.flatMap_nil, List.append_nil]
      rfl
  | cons line lines ih =>
      have hall : text ++ textOf (line :: lines) = text ++ (line ++ [0x0A]) ++ textOf lines := by
        rw [textOf, List.flatMap_cons, List.append_assoc text]
        rfl
      rw [writeLines, run_bind_of_ok (run_transfer_clear _ _ _ files'), hall]
      exact ih _ (hm.put hopen _)

/-- **What is written**: the file holds the text of the lines, and no other file changes. -/
theorem run_writeFile_clear (coding : Charset) (buffers : Buffers)
    (hopen : files.Open destFilePath) (lines : List JString) :
    ∃ files', files.Writes destFilePath (coding.encode (textOf lines)) files' ∧
      writeFile coding buffers destFilePath (some lines) ⟨files, []⟩ = .ok () ⟨files', []⟩ := by
  obtain ⟨files₁, content, hwrites, hloop⟩ :=
    run_writeLines_clear coding buffers hopen lines [] (FileSystem.writes_put hopen [])
  have hflush := hwrites.put hopen (coding.encode (textOf lines))
  have htext : writeText coding buffers destFilePath lines
      ⟨files.put destFilePath (.file []), []⟩ = .ok (coding.encode (textOf lines))
        ⟨files₁.put destFilePath (.file (coding.encode (textOf lines))), []⟩ := by
    rw [writeText, run_bind_of_ok hloop, List.nil_append,
      run_bind_of_ok (run_transfer_clear _ _ _ files₁)]
    rfl
  refine ⟨_, hflush.put hopen (coding.encode (textOf lines)), ?_⟩
  rw [writeFile, run_bind_of_ok (run_caught_of_ok (run_openOutput_clear hopen))]
  show (caught (writeText coding buffers destFilePath lines) >>= _) _ = _
  rw [run_bind_of_ok (run_caught_of_ok htext)]
  rfl

end Writing

end FileUtil

/-! ## What the generators are given -/

/-- A represented text survives the charset. -/
theorem DefaultCharset.decode_encode_of_represents {coding : DefaultCharset} {text : JString}
    (h : coding.Represents text) : coding.decode (coding.encode text) = text := by
  obtain ⟨cs, hcs, rfl⟩ := h
  exact coding.decode_encode cs hcs

/-- The text of represented lines is represented. -/
theorem DefaultCharset.represents_textOf {coding : DefaultCharset} {lines : List JString}
    (h : ∀ line ∈ lines, coding.Represents line) : coding.Represents (FileUtil.textOf lines) := by
  induction lines with
  | nil => exact ⟨[], fun c hc => absurd hc List.not_mem_nil, rfl⟩
  | cons line lines ih =>
      obtain ⟨⟨cs, hcs, rfl⟩, hlines⟩ := List.forall_mem_cons.mp h
      obtain ⟨ds, hds, hrest⟩ := ih hlines
      refine ⟨cs ++ '\n' :: ds, ?_, ?_⟩
      · intro c hc
        rcases List.mem_append.mp hc with hc | hc
        · exact hcs c hc
        · rcases List.mem_cons.mp hc with rfl | hc
          · exact coding.newline
          · exact hds c hc
      · have hnewline : Utf.encode16 (cs ++ '\n' :: ds) =
            Utf.encode16 cs ++ ([0x0A] ++ Utf.encode16 ds) := by
          rw [Utf.encode16, List.flatMap_append, List.flatMap_cons]
          rfl
        rw [hnewline, ← hrest, FileUtil.textOf, List.flatMap_cons, List.append_assoc]
        rfl

/-- **Lines are read back** as they were written, by either reader. -/
theorem getLines_writeFile (coding : DefaultCharset) (buffers : Buffers) {files : Tree}
    {filePath : JPath} (hopen : files.Open filePath) {lines : List JString}
    (hlines : ∀ line ∈ lines, IsLine line) (htexts : ∀ line ∈ lines, coding.Represents line) :
    ∃ files',
      FileUtil.writeFile coding.toCharset buffers filePath (some lines) ⟨files, []⟩ =
          .ok () ⟨files', []⟩ ∧
        FileUtil.getFileLines coding.toCharset filePath ⟨files', []⟩ =
          .ok (some lines) ⟨files', []⟩ ∧
        DataBaseOp.getLines coding.toCharset filePath ⟨files', []⟩ =
          .ok (some lines) ⟨files', []⟩ := by
  obtain ⟨files', hwrites, hrun⟩ :=
    FileUtil.run_writeFile_clear coding.toCharset buffers hopen lines
  have hcontent : files'.lookup filePath =
      some (.file (coding.encode (FileUtil.textOf lines))) := by
    rw [hwrites, if_pos rfl]
  have hread (closes : Bool → Bool) :
      FileUtil.readFile coding.toCharset closes filePath ⟨files', []⟩ =
        .ok (some lines) ⟨files', []⟩ := by
    rw [FileUtil.run_readFile_clear hcontent,
      DefaultCharset.decode_encode_of_represents (DefaultCharset.represents_textOf htexts),
      FileUtil.textOf, readLines_flatMap hlines]
  exact ⟨files', hrun, hread _, hread _⟩

/-- Blank lines are read back, the last one too. -/
theorem getLines_writeFile_blank :
    ∃ files',
      FileUtil.writeFile defaultUtf8.toCharset ⟨id, []⟩ [js "a"]
            (some [js "x", js "", js "y", js ""]) ⟨FileSystem.empty, []⟩ = .ok () ⟨files', []⟩ ∧
        FileUtil.getFileLines defaultUtf8.toCharset [js "a"] ⟨files', []⟩ =
          .ok (some [js "x", js "", js "y", js ""]) ⟨files', []⟩ ∧
        DataBaseOp.getLines defaultUtf8.toCharset [js "a"] ⟨files', []⟩ =
          .ok (some [js "x", js "", js "y", js ""]) ⟨files', []⟩ := by
  apply getLines_writeFile defaultUtf8 ⟨id, []⟩
  · decide
  · decide
  · intro line hline
    have htext : line ∈ ["x", "", "y", ""].map js := hline
    obtain ⟨s, -, rfl⟩ := List.mem_map.mp htext
    exact ⟨s.toList, fun _ _ => trivial, rfl⟩

end TrashClear
