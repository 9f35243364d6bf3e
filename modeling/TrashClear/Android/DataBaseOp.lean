import TrashClear.DataBaseOp
import TrashClear.Java.SQLiteDatabase

/-!
# The Android generator

The same four files into the same five tables, one row at a time.  Each generator
is one transaction around a loop over its lines (`forEachLine`).  It has the
parsers, the path functions and the key of the desktop generator, and differs in

* dropping tables without IF EXISTS,
* the encoding of the root path, one token for the whole path,
* the texts of the descriptions, which are stored as they are,
* `genAppInfo`, which fills the table of the descriptions.
-/

namespace TrashClear.Android

open Java Run Store

variable (p : Platform)

/-- A transaction around a loop over the accepted lines. -/
def forEachLine {α : Type} (parse : JString → Except Throwable (Option α))
    (insert : α → SQLiteDatabase Unit) (lines : Option (List JString)) : SQLiteDatabase Unit :=
  transaction do
    let lines ← attempt (nonNull lines)
    lines.forM fun line => do
      match ← attempt (parse line) with
      | none => return
      | some info => insert info

def appInfoValues (info : TrashInfoDesc) : ContentValues :=
  [(apColumnAppId, int info.id), (apAppName, .text info.text)]

def genAppInfo (lines : Option (List JString)) : SQLiteDatabase Unit :=
  forEachLine parseTrashInfoDesc
    (fun info => insertOrThrow tableSubPathDescription (appInfoValues info)) lines

def descriptionValues (info : TrashInfoDesc) : ContentValues :=
  [(descColumnDescId, int info.id), (descColumnSupPathDescription, .text info.text)]

def genSubPathDescription (lines : Option (List JString)) : SQLiteDatabase Unit :=
  forEachLine parseTrashInfoDesc
    (fun info => insertOrThrow tableSubPathDescription (descriptionValues info)) lines

def subPathValues (info : SubPathInfo) : Except Throwable ContentValues := do
  let subPath ← allPathMD5 p info.subPath
  return [(subColumnAppId, int info.appId),
    (subColumnSubId, int info.subId),
    (subColumnSubPath, .text subPath),
    (subColumnSubPathDescription, int info.subPathDescId),
    (subColumnFileType, int info.fileType),
    (subColumnClearType, int info.clearType),
    (subColumnClearSuggestion, int info.clearSuggestion),
    (subColumnClearResidualType, int info.clearResidualType)]

def genSubData (lines : Option (List JString)) : SQLiteDatabase Unit :=
  forEachLine parseSubPath
    (fun info => do insertOrThrow tableSubPath (← attempt (subPathValues p info))) lines

def rootPathValues (info : RootPathInfo) : Except Throwable ContentValues := do
  let rootPath ← encrypt p.folding (md5 p) (some info.appRootPath) (desKey p)
  let first ← firstPath p info.appRootPath
  return [(rootColumnAppId, int info.appId),
    (rootColumnAppName, .text (encryptText p info.appName)),
    (rootColumnRootPath, .text rootPath),
    (rootColumnAppType, int info.appType),
    (rootColumnFileType, int info.fileType),
    (rootColumnClearType, int info.clearType),
    (rootColumnClearSuggestion, int info.clearSuggestion),
    (rootColumnRootFistPath, .text first)]

def pkgValues (info : RootPathInfo) (pkg : JString) : ContentValues :=
  [(pkgColumnAppId, int info.appId), (pkgColumnAppPkgname, .text pkg)]

/-- The root row of a line, and a row for each of its packages. -/
def insertRoot (info : RootPathInfo) : SQLiteDatabase Unit := do
  insertOrThrow tableRootPath (← attempt (rootPathValues p info))
  info.pkgs.forM fun pkg => insertOrThrow tableAppPkgname (pkgValues info pkg)

def genRootData (lines : Option (List JString)) : SQLiteDatabase Unit :=
  forEachLine parseRootPathLine (insertRoot p) lines

def genLocalData (files : LocalFiles) : SQLiteDatabase Unit := do
  getDeleteTables.forM fun tableName => execSQL (.dropTable tableName)
  getCreateTableSqls.forM execSQL
  genRootData p (getLines files.rootPath)
  genSubData p (getLines files.subPath)
  genSubPathDescription (getLines files.subPathDescription)
  genAppInfo (getLines files.appName)

end TrashClear.Android
