import TrashClear.Java.Jdbc
import TrashClear.SqliteDatabase

/-!
# The five tables

The names and the columns of the five tables, as `TrashClearDatabaseHelper` and
the CREATE TABLE statements of `DataBaseHelper` have them, and
`SqliteDatabase.executeSqls` over them.

`run_recreate` is what the first two steps of a generation do: whatever
was there before, the five tables are durable and empty, and no other table has
changed (`createdFrom`).
-/

namespace TrashClear

open Java Run Store

/-! ## Names -/

def tableRootPath : String := "t_r_p"
def rootColumnAppId : String := "r_a_i"
def rootColumnAppName : String := "r_a_n"
def rootColumnRootPath : String := "r_r_p"
def rootColumnRootFistPath : String := "r_r_f_p"
def rootColumnAppType : String := "r_a_t"
def rootColumnFileType : String := "r_f_t"
def rootColumnClearType : String := "r_c_t"
def rootColumnClearSuggestion : String := "r_c_s"

def tableSubPath : String := "t_s_p"
def subColumnAppId : String := "s_a_i"
def subColumnSubId : String := "s_s_i"
def subColumnSubPath : String := "s_s_p"
def subColumnSubPathDescription : String := "s_s_p_d"
def subColumnFileType : String := "s_f_t"
def subColumnClearType : String := "s_c_t"
def subColumnClearSuggestion : String := "s_c_s"
def subColumnClearResidualType : String := "s_c_r_t"

def tableAppPkgname : String := "t_a_p"
def pkgColumnAppId : String := "p_a_i"
def pkgColumnAppPkgname : String := "p_a_p"

def tableAppInfo : String := "t_a_i"
def apColumnAppId : String := "a_a_i"
def apAppName : String := "a_a_n"

def tableSubPathDescription : String := "t_s_p_d"
def descColumnDescId : String := "d_d_i"
def descColumnSupPathDescription : String := "d_s_p_d"

/-! ## Columns -/

/-- `INTEGER PRIMARY KEY` -/
def keyColumn (name : String) : Column := ⟨name, false, true, .null⟩

/-- `VARCHAR NOT NULL` or `INTEGER NOT NULL` -/
def requiredColumn (name : String) : Column := ⟨name, true, false, .null⟩

/-- `INTEGER` -/
def plainColumn (name : String) : Column := ⟨name, false, false, .null⟩

/-- `INTERGER DEFAULT 0` -/
def countColumn (name : String) : Column := ⟨name, false, false, .integer 0⟩

def rootPathColumns : List Column :=
  [keyColumn rootColumnAppId, requiredColumn rootColumnAppName, requiredColumn rootColumnRootPath,
    requiredColumn rootColumnRootFistPath, countColumn rootColumnAppType,
    countColumn rootColumnFileType, countColumn rootColumnClearType,
    countColumn rootColumnClearSuggestion]

def subPathColumns : List Column :=
  [plainColumn subColumnAppId, requiredColumn subColumnSubId, requiredColumn subColumnSubPath,
    requiredColumn subColumnSubPathDescription, countColumn subColumnFileType,
    countColumn subColumnClearType, countColumn subColumnClearSuggestion,
    countColumn subColumnClearResidualType]

def appPkgnameColumns : List Column :=
  [plainColumn pkgColumnAppId, requiredColumn pkgColumnAppPkgname]

def subPathDescriptionColumns : List Column :=
  [keyColumn descColumnDescId, requiredColumn descColumnSupPathDescription]

def appInfoColumns : List Column :=
  [plainColumn apColumnAppId, requiredColumn apAppName]

def getDeleteTables : List String :=
  [tableRootPath, tableSubPath, tableAppPkgname, tableSubPathDescription, tableAppInfo]

/-- The tables and their columns, in the order they are created. -/
def createTables : List (String × List Column) :=
  [(tableRootPath, rootPathColumns), (tableSubPath, subPathColumns),
    (tableSubPathDescription, subPathDescriptionColumns), (tableAppPkgname, appPkgnameColumns),
    (tableAppInfo, appInfoColumns)]

def getCreateTableSqls : List Statement :=
  createTables.map fun s => .createTableIfNotExists s.1 s.2

/-! ## `SqliteDatabase` -/

/-- `SqliteDatabase.executeSqls` over tables. -/
def executeSqls (sqls : List Statement) : Jdbc Bool := SqliteDatabase.executeSqls execute sqls

/-- A table created by a call that answers false is durable after the next call. -/
theorem not_allOrNothing_create_drop :
    ¬ SqliteDatabase.AllOrNothing execute (fun _ => none)
      [[.createTableIfNotExists "t" [], .dropTable "u"], []] := by
  intro h
  have hfalse : SqliteDatabase.answerOf execute (fun _ => none)
      [[.createTableIfNotExists "t" [], .dropTable "u"], []] 0
      [.createTableIfNotExists "t" [], .dropTable "u"] = .ok false := by decide
  exact h.nothing 0 _ rfl hfalse 2 (by decide) 0 (by decide)

/-! ## Creating the tables anew -/

/-- A database with the five tables empty, and the other tables of `db`. -/
def createdFrom (db : Database) : Database := fun name =>
  match createTables.lookup name with
  | some columns => some (Table.empty columns)
  | none => db name

/-- All of the five tables are created. -/
theorem exists_columns {name : String} (h : name ∈ getDeleteTables) :
    ∃ columns, createTables.lookup name = some columns := by
  have hall : ∀ name ∈ getDeleteTables, (createTables.lookup name).isSome := by decide
  exact Option.isSome_iff_exists.mp (hall name h)

theorem isSome_createdFrom (db : Database) {name : String} (h : name ∈ getDeleteTables) :
    (createdFrom db name).isSome := by
  obtain ⟨columns, hcolumns⟩ := exists_columns h
  simp [createdFrom, hcolumns]

/-- Only the five tables are created. -/
theorem lookup_createTables {name : String} (h : name ∉ getDeleteTables) :
    createTables.lookup name = none := by
  have hall : ∀ s ∈ createTables, s.1 ∈ getDeleteTables := by decide
  rw [List.lookup_eq_none_iff]
  intro s hs
  have hne : name ≠ s.1 := by
    intro h'
    obtain rfl := h'
    exact h (hall s hs)
  simpa using hne

/-- The other tables are those that were there. -/
theorem createdFrom_of_not_mem {db : Database} {name : String} (h : name ∉ getDeleteTables) :
    createdFrom db name = db name := by
  simp [createdFrom, lookup_createTables h]

/-- Creating the five tables after they are gone. -/
theorem execute_creates (db : Database) :
    getCreateTableSqls.foldlM (fun db sql => execute sql db)
        (fun name => if name ∈ getDeleteTables then none else db name) =
      .ok (createdFrom db) := by
  unfold getCreateTableSqls
  rw [foldlM_createTableIfNotExists]
  congr 1
  funext name
  by_cases h : name ∈ getDeleteTables
  · obtain ⟨columns, hcolumns⟩ := exists_columns h
    simp [createdFrom, h, hcolumns]
  · simp [createdFrom, h, lookup_createTables h]

/-- A list of statements that succeeds is committed. -/
theorem run_executeSqls {sqls : List Statement} {c : Connection Database} {db : Database}
    (h : sqls.foldlM (fun db sql => execute sql db) c.working = .ok db) :
    executeSqls sqls c = .ok true (Connection.opened db) := by
  have hacts : Store.Acts Connection.view (fun _ => True)
      (sqls.forM fun sql => Connection.update (execute sql))
      (fun db => sqls.foldlM (fun db sql => execute sql db) db) :=
    Store.Acts.forM (fun _ _ _ => trivial) (fun sql => Connection.acts_update (execute sql)) sqls
  have hrun : ((sqls.forM fun sql => Connection.update (execute sql)) >>= fun _ =>
      Connection.commit) c = .ok () (Connection.opened db) :=
    (Connection.run_commit hacts).mpr ⟨db, h, rfl⟩
  unfold executeSqls SqliteDatabase.executeSqls
  rw [hrun]

/-- **The first two steps of a generation**: the five tables are durable and
empty, and no other table has changed. -/
theorem run_recreate (db : Database) :
    (executeSqls (getDeleteTables.map Statement.dropTableIfExists) >>= fun _ =>
        executeSqls getCreateTableSqls) (Connection.opened db) =
      .ok true (Connection.opened (createdFrom db)) := by
  rw [run_bind_ok]
  exact ⟨true, _, run_executeSqls (foldlM_dropTableIfExists getDeleteTables db),
    run_executeSqls (execute_creates db)⟩

end TrashClear
