import TrashClear.DataBaseHelper
import TrashClear.PathTokens
import TrashClear.SecurityUtil

/-!
# The desktop generator

`genLocalData` drops and creates the five tables and fills them from four local
files.  Three of the generators have one body, `insertLines`: compile an
insertion, read the lines, set the parameters and add to the batch for every
accepted line, execute the batch, commit.  `genRootData` fills two tables: the
package lists are kept in a map from application id to packages until all root
lines are read.

The last part separates setting parameters from what they are set to: `Binds n
bind values` says that `bind` sets the `n` parameters to `values` and does
nothing else.
-/

namespace TrashClear

open Java Fields Run Store

/-- What the code takes from the platform it runs on.  A `HashMap` lists its
entries in an order of its own. -/
structure Platform where
  folding : CaseFolding
  jca : Provider
  entrySet : List (Int32 × List JString) → List (Int32 × List JString)
  entrySet_perm : ∀ entries, (entrySet entries).Perm entries

/-- A file that exists: its bytes, and after how many lines reading fails, if it
does. -/
structure InputFile where
  content : List UInt8
  failsAfter : Option Nat

/-- The lines of a file, null when there is none.  A read error is printed and
ends the list. -/
def getLines : Option InputFile → Option (List JString)
  | none => none
  | some file =>
      let lines := readLines (newString file.content)
      match file.failsAfter with
      | none => some lines
      | some n => some (lines.take n)

/-- The four local files. -/
structure LocalFiles where
  rootPath : Option InputFile
  subPath : Option InputFile
  subPathDescription : Option InputFile
  appName : Option InputFile

/-- `map.put(key, value)` on a map listed by first insertion. -/
def put {α : Type} (m : List (Int32 × α)) (key : Int32) (value : α) : List (Int32 × α) :=
  if key ∈ m.map Prod.fst then m.map fun e => if e.1 = key then (key, value) else e
  else m ++ [(key, value)]

variable (p : Platform)

def desKey : JString :=
  desDecrypt p.jca (js "603d5c3d2bc1246c34a4a15abfd1a453") (js "jtest*confxy@1")

/-- `md5Hex` on this platform. -/
def md5 : HexDigest := p.jca.md5.hexDigest

/-- `Utils.DES_encrypt(text, DES_KEY)`. -/
def encryptText (text : JString) : JString := desEncrypt p.jca text (desKey p)

/-- `getAllPathMD5(path)`. -/
def allPathMD5 (path : JString) : Except Throwable JString :=
  getAllPathMD5 p.folding (md5 p) (desKey p) path

/-- `MD5EncryptUtils.encrypt(getRootPath(path), DES_KEY)`. -/
def firstPath (path : JString) : Except Throwable JString :=
  firstPathToken p.folding (md5 p) path (desKey p)

/-- The key has a salt. -/
def desKeySource : SaltSource where
  text := desKey p
  fits := lt_of_le_of_lt (length_getBytes_desDecrypt_le p.jca _ _) (by decide)

theorem encrypt_desKey (data : Option JString) :
    encrypt p.folding (md5 p) data (desKey p) = .ok (token p.folding (md5 p) data (desKey p)) :=
  encrypt_eq p.folding (md5 p) data (desKeySource p).fits

/-- The first column of a path: the tokens of its components. -/
theorem allPathMD5_eq (path : JString) :
    allPathMD5 p path = .ok (joinTokens ((components slash path).map fun piece =>
      token p.folding (md5 p) (some piece) (desKey p))) :=
  getAllPathMD5_eq p.folding (md5 p) (desKeySource p) path

/-- The second column of a path that has a component. -/
theorem firstPath_eq {path : JString} (h : ∃ u ∈ path, u ≠ slash) :
    firstPath p path = .ok (token p.folding (md5 p) (some (taken path)) (desKey p)) := by
  unfold firstPath firstPathToken
  rw [getRootPath_eq (components_ne_nil h), ok_bind, encrypt_desKey]

/-- Slashes alone have no second column. -/
theorem firstPath_of_slashes {path : JString} (hne : path ≠ []) (h : ∀ u ∈ path, u = slash) :
    firstPath p path = .error .arrayIndexOutOfBounds := by
  unfold firstPath firstPathToken
  rw [getRootPath_of_slashes hne h]
  rfl

/-! ## The generators -/

/-- One turn of a loop that fills a batch. -/
def addRow {α : Type} (bind : α → PreparedStatement → Except Throwable PreparedStatement)
    (stmt : PreparedStatement) (info : α) : Except Throwable PreparedStatement := do
  return (← bind info stmt).addBatch

/-- The common body of the generators of one table, up to the commit. -/
def stageLines {α : Type} (ins : Insertion) (parse : JString → Except Throwable (Option α))
    (bind : α → PreparedStatement → Except Throwable PreparedStatement)
    (lines : Option (List JString)) : Jdbc Unit := do
  let stmt ← prepareStatement ins
  let lines ← attempt (nonNull lines)
  let stmt ← attempt (lines.foldlM (readThen parse (addRow bind)) stmt)
  executeBatch stmt

def insertLines {α : Type} (ins : Insertion) (parse : JString → Except Throwable (Option α))
    (bind : α → PreparedStatement → Except Throwable PreparedStatement)
    (lines : Option (List JString)) : Jdbc Unit := do
  stageLines ins parse bind lines
  Connection.commit

def insertAppInfo : Insertion := ⟨tableAppInfo, none, 2⟩

def bindAppInfo (info : AppInfo) (stmt : PreparedStatement) :
    Except Throwable PreparedStatement := do
  let stmt := stmt.setInt 1 info.appId
  return stmt.setString 2 (encryptText p info.appName)

def genAppInfo (lines : Option (List JString)) : Jdbc Unit :=
  insertLines insertAppInfo parseAppInfo (bindAppInfo p) lines

def insertSubPathDescription : Insertion := ⟨tableSubPathDescription, none, 2⟩

def bindSubPathDescription (info : TrashInfoDesc) (stmt : PreparedStatement) :
    Except Throwable PreparedStatement := do
  let stmt := stmt.setInt 1 info.id
  return stmt.setString 2 (encryptText p info.text)

def genSubPathDescription (lines : Option (List JString)) : Jdbc Unit :=
  insertLines insertSubPathDescription parseTrashInfoDesc (bindSubPathDescription p) lines

def insertSubPath : Insertion := ⟨tableSubPath, none, 8⟩

def bindSubPath (info : SubPathInfo) (stmt : PreparedStatement) :
    Except Throwable PreparedStatement := do
  let stmt := stmt.setInt 1 info.appId
  let stmt := stmt.setInt 2 info.subId
  let stmt := stmt.setString 3 (← allPathMD5 p info.subPath)
  let stmt := stmt.setInt 4 info.subPathDescId
  let stmt := stmt.setInt 5 info.fileType
  let stmt := stmt.setInt 6 info.clearType
  let stmt := stmt.setInt 7 info.clearSuggestion
  return stmt.setInt 8 info.clearResidualType

def genSubData (lines : Option (List JString)) : Jdbc Unit :=
  insertLines insertSubPath parseSubPath (bindSubPath p) lines

def insertRootPath : Insertion :=
  ⟨tableRootPath, some [rootColumnAppId, rootColumnAppName, rootColumnRootPath, rootColumnAppType,
    rootColumnFileType, rootColumnClearType, rootColumnClearSuggestion, rootColumnRootFistPath], 8⟩

def insertAppPkgname : Insertion := ⟨tableAppPkgname, none, 2⟩

def bindRootPath (info : RootPathInfo) (stmt : PreparedStatement) :
    Except Throwable PreparedStatement := do
  let stmt := stmt.setInt 1 info.appId
  let stmt := stmt.setString 2 (encryptText p info.appName)
  let stmt := stmt.setString 3 (← allPathMD5 p info.appRootPath)
  let stmt := stmt.setInt 4 info.appType
  let stmt := stmt.setInt 5 info.fileType
  let stmt := stmt.setInt 6 info.clearType
  let stmt := stmt.setInt 7 info.clearSuggestion
  return stmt.setString 8 (← firstPath p info.appRootPath)

/-- One turn of the loop over the root lines: a row for the batch, and the
packages into the map. -/
def addRoot (s : PreparedStatement × List (Int32 × List JString)) (info : RootPathInfo) :
    Except Throwable (PreparedStatement × List (Int32 × List JString)) := do
  let stmt ← addRow (bindRootPath p) s.1 info
  return (stmt, put s.2 info.appId info.pkgs)

/-- One turn of the loop over the entries of the map. -/
def addPackages (stmt : PreparedStatement) (entry : Int32 × List JString) : PreparedStatement :=
  entry.2.foldl (fun stmt pkg => (stmt.setString 2 pkg).addBatch) (stmt.setInt 1 entry.1)

/-- `genRootData` up to the commit. -/
def stageRootData (lines : Option (List JString)) : Jdbc Unit := do
  let preStmt ← prepareStatement insertRootPath
  let lines ← attempt (nonNull lines)
  let (preStmt, idPkgsMap) ←
    attempt (lines.foldlM (readThen parseRootPathLine (addRoot p)) (preStmt, []))
  executeBatch preStmt
  let preStmt ← prepareStatement insertAppPkgname
  executeBatch ((p.entrySet idPkgsMap).foldl addPackages preStmt)

def genRootData (lines : Option (List JString)) : Jdbc Unit := do
  stageRootData p lines
  Connection.commit

/-- Generate the five tables.  (The database file is compressed at the end,
which does not change it.) -/
def genLocalData (files : LocalFiles) : Jdbc Unit := do
  let _ ← executeSqls (getDeleteTables.map Statement.dropTableIfExists)
  let _ ← executeSqls getCreateTableSqls
  genRootData p (getLines files.rootPath)
  genSubData p (getLines files.subPath)
  genSubPathDescription p (getLines files.subPathDescription)
  genAppInfo p (getLines files.appName)

/-! ## The parameter values of a row -/

/-- `bind` fails with `values`, and otherwise sets all parameters to them. -/
def Binds {α : Type} (n : Nat) (bind : α → PreparedStatement → Except Throwable PreparedStatement)
    (values : α → Except Throwable (List SqlValue)) : Prop :=
  ∀ info stmt,
    (∃ e, bind info stmt = .error e ∧ values info = .error e) ∨
      ∃ stmt', bind info stmt = .ok stmt' ∧ stmt'.insertion = stmt.insertion ∧
        stmt'.batch = stmt.batch ∧ values info = .ok ((List.range' 1 n).map stmt'.params)

def appInfoValues (info : AppInfo) : Except Throwable (List SqlValue) :=
  return [int info.appId, .text (encryptText p info.appName)]

def descriptionValues (info : TrashInfoDesc) : Except Throwable (List SqlValue) :=
  return [int info.id, .text (encryptText p info.text)]

def subPathValues (info : SubPathInfo) : Except Throwable (List SqlValue) := do
  let subPath ← allPathMD5 p info.subPath
  return [int info.appId, int info.subId, .text subPath, int info.subPathDescId,
    int info.fileType, int info.clearType, int info.clearSuggestion, int info.clearResidualType]

def rootPathValues (info : RootPathInfo) : Except Throwable (List SqlValue) := do
  let rootPath ← allPathMD5 p info.appRootPath
  let first ← firstPath p info.appRootPath
  return [int info.appId, .text (encryptText p info.appName), .text rootPath, int info.appType,
    int info.fileType, int info.clearType, int info.clearSuggestion, .text first]

theorem binds_appInfo : Binds 2 (bindAppInfo p) (appInfoValues p) := by
  intro info stmt
  exact Or.inr ⟨_, rfl, rfl, rfl, rfl⟩

theorem binds_subPathDescription :
    Binds 2 (bindSubPathDescription p) (descriptionValues p) := by
  intro info stmt
  exact Or.inr ⟨_, rfl, rfl, rfl, rfl⟩

theorem binds_subPath : Binds 8 (bindSubPath p) (subPathValues p) := by
  intro info stmt
  unfold bindSubPath subPathValues
  cases allPathMD5 p info.subPath with
  | error e => exact Or.inl ⟨e, rfl, rfl⟩
  | ok subPath => exact Or.inr ⟨_, rfl, rfl, rfl, rfl⟩

theorem binds_rootPath : Binds 8 (bindRootPath p) (rootPathValues p) := by
  intro info stmt
  unfold bindRootPath rootPathValues
  cases allPathMD5 p info.appRootPath with
  | error e => exact Or.inl ⟨e, rfl, rfl⟩
  | ok rootPath =>
      cases firstPath p info.appRootPath with
      | error e => exact Or.inl ⟨e, rfl, rfl⟩
      | ok first => exact Or.inr ⟨_, rfl, rfl, rfl, rfl⟩

end TrashClear
