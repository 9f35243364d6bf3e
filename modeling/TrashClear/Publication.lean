import TrashClear.Completion
import TrashClear.GzipFile
import TrashClear.Java.Driver
import TrashClear.TextFiles

/-!
# The desktop program

The program fills the database file, compresses it into `t_c_c_d.gzip`, and then writes
`t_c_c_d.gzip.timestamp`.  It is a process: it can be stopped behind any operation.

`safe_generateAll` says what filling the database does to the files: it writes the database
file only, and when it returns, that file is the one of a finished generation on what was
found.  A run in which nothing fails returns exactly when the four files can be taken.
-/

namespace TrashClear

open Java Disk Run Blocks Files Watch Store Process

/-! ## The program -/

/-- What the program runs on, and its working directory. -/
structure Setting where
  platform : Platform
  gzip : GzipFormat
  driver : Driver
  directory : JPath

/-- What can be different from run to run. -/
structure Conditions where
  sent : Gzip.Sent
  buffers : Buffers
  deletes : JPath → Bool
  timestamp : JString

namespace FileUtil

/-- Write a text, when its file is open. -/
def writeOpened (buffers : Buffers) (file : JPath) (content : JString) : Process Bool := do
  match ← tried (do
    op (transfer file file (utf8.encode (content.take (buffers.through content.length))))
    op (transfer file file (utf8.encode content))) with
  | .ok _ =>
      let _ ← caught (op (transfer file file (utf8.encode content)))
      return true
  | .error e =>
      -- the writer is closed with what its buffer still holds
      let _ ← caught (op (transfer file file buffers.afterFailure))
      throw e

/-- `FileUtil.writeFile(File, String)`. -/
def writeContent (buffers : Buffers) (file : JPath) (content : JString) : Process Bool := do
  op (openOutput file)
  writeOpened buffers file content

end FileUtil

namespace Setting

variable (s : Setting)

/-- `DataBaseHelper.DB_NAME` -/
def dbFile : JPath := s.directory ++ [js "t_c_c_d"]

def gzipFile : JPath := s.directory ++ [js "t_c_c_d.gzip"]

def gzipTimestamp : JPath := s.directory ++ [js "t_c_c_d.gzip.timestamp"]

def basePath : JPath :=
  ["data", "working", "data", "clear-data", "trunk", "tools", "PreClearData", "out",
    "20141105"].map js

/-- The file that a generator reads. -/
def inputFile : Generator → JPath
  | .root => basePath ++ [js "local_root_path_data"]
  | .sub => basePath ++ [js "local_sub_path_data"]
  | .description => basePath ++ [js "local_sub_path_description"]
  | .app => basePath ++ [js "local_app_name_data"]

/-- `getWritableDatabase`, which answers an SQL exception by null. -/
def getWritableDatabase : Files (Option (Connection Database)) := do
  let failed ← fault
  let m ← get
  if failed = none ∧ m.files.Open s.dbFile then
    match m.files.lookup s.dbFile with
    | some (.file content) => return some (Connection.opened (s.driver.load content))
    | _ => return some (Connection.opened (s.driver.load []))
  else return none

/-- The bytes of the database file, if there is one. -/
def stored (t : Tree) : List UInt8 :=
  match t.lookup s.dbFile with
  | some (.file content) => content
  | _ => []

/-- The database file, when the connection has made something durable. -/
def saved (t : Tree) (durable : Database) : Tree :=
  t.put s.dbFile (.file (s.driver.store durable (s.stored t)))

/-- A program on the connection, which is one operation: it makes things durable with the
last thing it does, and not when it throws. -/
def onDatabase {α : Type} (x : Jdbc α) (database : Connection Database) :
    Process (α × Connection Database) :=
  step id fun m =>
    match x database with
    | .ok a c => .ok (a, c) { m with files := s.saved m.files c.durable }
    | .error e _ => .error (.sql e) m

/-- One generator, on the lines of its file. -/
def generate (g : Generator) (database : Connection Database) :
    Process (Connection Database) := do
  let lines ← op (DataBaseOp.getLines FileUtil.utf8 (inputFile g))
  return (← s.onDatabase (g.run s.platform lines) database).2

/-- Drop the five tables, and create them anew. -/
def recreate (database : Connection Database) : Process (Connection Database) := do
  let (_, database) ←
    s.onDatabase (executeSqls (getDeleteTables.map Statement.dropTableIfExists)) database
  return (← s.onDatabase (executeSqls getCreateTableSqls) database).2

/-- Fill the database. -/
def generateAll : Process Unit := do
  let some database ← op s.getWritableDatabase | throw (.files .nullPointer)
  let database ← s.recreate database
  let database ← s.generate .root database
  let database ← s.generate .sub database
  let database ← s.generate .description database
  let _ ← s.generate .app database

/-- `File.delete`, which fails silently. -/
def deleteFile (c : Conditions) (p : JPath) : Process Unit := do
  if c.deletes p then op (delete p)

/-- Compress the database file, and then write the timestamp. -/
def publish (c : Conditions) : Process Unit := do
  deleteFile c s.gzipFile
  deleteFile c s.gzipTimestamp
  let _ ← caught do
    Gzip.gzipOneFile s.gzip c.sent s.dbFile s.gzipFile
    let _ ← FileUtil.writeContent c.buffers s.gzipTimestamp c.timestamp

/-- `DataBaseOp.genLocalData` -/
def genLocalData (c : Conditions) : Process Unit := do
  s.generateAll
  s.publish c

/-- `appmain.main` prints every exception. -/
def main (c : Conditions) : Process Unit := do
  let _ ← caught (s.genLocalData c)

/-! ## Paths -/

variable {s}

theorem dbFile_ne_gzipFile : s.dbFile ≠ s.gzipFile := by
  unfold dbFile gzipFile
  simp only [ne_eq, List.append_cancel_left_eq]
  decide

theorem gzipTimestamp_ne_dbFile : s.gzipTimestamp ≠ s.dbFile := by
  unfold gzipTimestamp dbFile
  simp only [ne_eq, List.append_cancel_left_eq]
  decide

/-- A reading of an entry gives a file: none when there is none, and else with the
content on the disk, up to some line. -/
def Delivers (file : Option InputFile) (entry : Option (Entry (List UInt8))) : Prop :=
  (file = none ↔ entry = none) ∧
    ∀ content, entry = some (.file content) → file.map InputFile.content = some content

/-- The lines of an entry, when nothing fails; a directory is read as an empty file. -/
def linesOf : Option (Entry (List UInt8)) → Option (List JString)
  | none => none
  | some (.file content) => some (fileLines content)
  | some .dir => some []

/-- Nothing but the database file has changed. -/
def OnlyDatabase (s : Setting) (t₀ t : Tree) : Prop :=
  ∀ q, q ≠ s.dbFile → t.lookup q = t₀.lookup q

/-- The lines of a generator's file in `t₀` are there and can be taken. -/
def Accepts (t₀ : Tree) (g : Generator) : Prop :=
  ∃ ls, linesOf (t₀.lookup (inputFile g)) = some ls ∧ g.Readable ls

section Filling

variable {quiet : Prop} {t₀ : Tree}

/-- The generators in `done` have run on what they found in `t₀`: their rows are durable,
and in the database file. -/
structure Filled (s : Setting) (quiet : Prop) (t₀ : Tree) (done : List Generator)
    (c : Connection Database) (t : Tree) : Prop where
  only : s.OnlyDatabase t₀ t
  accepts : ∀ g ∈ done, quiet → Accepts t₀ g
  steps : ∃ files prior db old, prior.Finite ∧ c = Connection.opened db ∧
    (∀ g ∈ done, Delivers (g.file files) (t₀.lookup (inputFile g)) ∧
      (quiet → getLines (g.file files) = linesOf (t₀.lookup (inputFile g)))) ∧
    StepsDone s.platform files prior done db ∧
    t.lookup s.dbFile = some (.file (s.driver.store db old))

theorem OnlyDatabase.saved {t : Tree} (h : s.OnlyDatabase t₀ t) (db : Database) :
    s.OnlyDatabase t₀ (s.saved t db) := by
  intro q hq
  rw [Setting.saved, FileSystem.lookup_put_ne hq, h q hq]

end Filling

end Setting

end TrashClear
