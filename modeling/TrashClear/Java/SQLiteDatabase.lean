import TrashClear.Java.Sql

/-!
# Android databases

`execSQL` and `insertOrThrow` write through to the database unless a transaction
is begun; then only the end of the outermost transaction, marked successful,
makes the changes durable.  A `ContentValues` gives values by column name, so a
row is inserted under these names whatever order they have.

`acts_readLine` is the rule for one line of a loop inside a transaction.
-/

namespace Java

open Run Store

/-- Programs over an Android database. -/
abbrev SQLiteDatabase := EStateM Throwable (Session Database)

/-- Values by column name, in the order they were put. -/
abbrev ContentValues := List (String × SqlValue)

/-- The named insertion that a `ContentValues` makes. -/
def ContentValues.insertion (table : String) (values : ContentValues) : Insertion :=
  ⟨table, some (values.map Prod.fst), values.length⟩

def execSQL (sql : Statement) : SQLiteDatabase Unit := Session.write (execute sql)

/-- The change that `insertOrThrow` makes. -/
def insertRow (table : String) (values : ContentValues) (db : Database) :
    Except Throwable Database :=
  (values.insertion table).run (values.map Prod.snd) db

def insertOrThrow (table : String) (values : ContentValues) : SQLiteDatabase Unit :=
  Session.write (insertRow table values)

/-- `beginTransaction`, a body, `setTransactionSuccessful`, `endTransaction`. -/
def transaction (body : SQLiteDatabase Unit) : SQLiteDatabase Unit :=
  Session.transaction .illegalState body

theorem acts_insertOrThrow (table : String) (values : ContentValues) :
    Acts Session.view Session.Inside (insertOrThrow table values) (insertRow table values) :=
  Session.acts_write _

/-- Changing the content stays inside the transaction. -/
theorem inside_set (db : Database) (s : Session Database) (h : s.Inside) :
    (Session.view.set db s).Inside := h

/-- One line of a loop: nothing for null, otherwise what is done with the record. -/
theorem acts_readLine {α β : Type} (parse : β → Except Throwable (Option α))
    {insert : α → SQLiteDatabase Unit} {change : Database → α → Except Throwable Database}
    (hinsert : ∀ info, Acts Session.view Session.Inside (insert info) fun db => change db info)
    (line : β) :
    Acts Session.view Session.Inside
      (do
        match ← attempt (parse line) with
        | none => return
        | some info => insert info)
      (fun db => readThen parse change db line) := by
  refine acts_attempt_bind (fun o _ => ?_)
  cases o with
  | none => exact acts_pure
  | some info => exact hinsert info

end Java
