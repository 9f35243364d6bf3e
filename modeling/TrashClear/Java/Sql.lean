import Mathlib.Data.Multiset.Defs
import Mathlib.Logic.Function.Basic
import TrashClear.Java.Text
import TrashClear.Library.Store

/-!
# Tables, statements and insertions

The part of SQL that the generators use.  A `Table` carries what its schema
promises as fields: every row has a value for every column, NOT NULL columns
hold values, and no two rows share a primary key.  So "inserting these rows
succeeds" and "there is a table that has these rows too" are one statement
(`Table.insert_eq_ok`, `foldlM_run_eq_ok`), also for a loop that fills two tables
in turns (`foldlM_run_two_iff`).

A database is read through `rows`: the multiset of its rows, each as the list of
its column names and values.  `Inserts` is the change that rows of parameter
values make to the table of an insertion, when all of them can be added
(`inserts_iff`).
-/

namespace Java

open Run Store

/-! ## Tables -/

inductive SqlValue
  | null
  | integer (i : Int)
  | text (s : JString)
  deriving DecidableEq, Repr

/-- A value of type `int` as the engine stores it. -/
def int (i : Int32) : SqlValue := .integer i.toInt

structure Column where
  name : String
  notNull : Bool
  primaryKey : Bool
  default : SqlValue
  deriving DecidableEq, Repr

/-- A value for every column, and one that is not null where that is demanded.
(No statement here stores null in a key, which the engine would number itself.) -/
def Fits (columns : List Column) (row : List SqlValue) : Prop :=
  row.length = columns.length ∧
    ∀ cell ∈ columns.zip row, cell.1.notNull || cell.1.primaryKey → cell.2 ≠ .null

instance (columns : List Column) (row : List SqlValue) : Decidable (Fits columns row) := by
  unfold Fits
  infer_instance

/-- The values of the key columns. -/
def keyOf (columns : List Column) (row : List SqlValue) : List SqlValue :=
  ((columns.zip row).filter fun cell => cell.1.primaryKey).map Prod.snd

/-- Two rows with one primary key. -/
def Clash (columns : List Column) (r s : List SqlValue) : Prop :=
  keyOf columns r ≠ [] ∧ keyOf columns r = keyOf columns s

instance (columns : List Column) (r s : List SqlValue) : Decidable (Clash columns r s) := by
  unfold Clash
  infer_instance

/-- A table whose rows keep what its schema promises. -/
@[ext]
structure Table where
  columns : List Column
  rows : List (List SqlValue)
  fits : ∀ row ∈ rows, Fits columns row
  distinct : rows.Pairwise fun r s => ¬ Clash columns r s

namespace Table

def empty (columns : List Column) : Table where
  columns := columns
  rows := []
  fits := by simp
  distinct := List.Pairwise.nil

/-- The rows with the names of their columns. -/
def namedRows (t : Table) : List (List (String × SqlValue)) :=
  t.rows.map fun row => (t.columns.map Column.name).zip row

/-- `t'` is `t` with further rows at its end. -/
def Extends (t : Table) (rows : List (List SqlValue)) (t' : Table) : Prop :=
  t'.columns = t.columns ∧ t'.rows = t.rows ++ rows

/-- Add a row, unless it breaks a promise of the schema. -/
def insert (t : Table) (row : List SqlValue) : Except Throwable Table :=
  if hfits : Fits t.columns row then
    if hfree : ∀ r ∈ t.rows, ¬ Clash t.columns r row then
      .ok {
        columns := t.columns
        rows := t.rows ++ [row]
        fits := by
          intro r hr
          rcases List.mem_append.mp hr with hr | hr
          · exact t.fits r hr
          · exact List.mem_singleton.mp hr ▸ hfits
        distinct := by
          refine List.pairwise_append.mpr ⟨t.distinct, List.pairwise_singleton _ _, ?_⟩
          intro r hr s hs
          exact List.mem_singleton.mp hs ▸ hfree r hr }
    else .error (.sql .primaryKey)
  else if row.length = t.columns.length then .error (.sql .notNull)
  else .error (.sql .valueCount)

/-- Adding a row succeeds exactly when there is a table with this row too. -/
theorem insert_eq_ok {t t' : Table} {row : List SqlValue} :
    t.insert row = .ok t' ↔ t.Extends [row] t' := by
  unfold insert Extends
  constructor
  · intro h
    split at h
    · split at h
      · cases h
        exact ⟨rfl, rfl⟩
      · cases h
    · split at h
      · cases h
      · cases h
  · intro h'
    obtain ⟨hcolumns, hrows⟩ := h'
    have hfits : Fits t.columns row := hcolumns ▸ t'.fits row (by simp [hrows])
    have hfree : ∀ r ∈ t.rows, ¬ Clash t.columns r row := by
      have hdistinct := t'.distinct
      rw [hrows, hcolumns] at hdistinct
      intro r hr
      exact (List.pairwise_append.mp hdistinct).2.2 r hr row (by simp)
    rw [dif_pos hfits, dif_pos hfree]
    exact congrArg Except.ok (Table.ext hcolumns.symm hrows.symm)

/-- Nothing added: the same table. -/
theorem extends_nil {t t' : Table} : t.Extends [] t' ↔ t' = t := by
  unfold Extends
  constructor
  · intro h
    obtain ⟨hcolumns, hrows⟩ := h
    exact Table.ext hcolumns (by simpa using hrows)
  · intro h
    obtain rfl := h
    simp

/-- Rows added one after the other. -/
theorem extends_append {t t'' : Table} {rows rows' : List (List SqlValue)} :
    t.Extends (rows ++ rows') t'' ↔ ∃ t', t.Extends rows t' ∧ t'.Extends rows' t'' := by
  constructor
  · intro h
    obtain ⟨hcolumns, hrows⟩ := h
    have hall := t''.distinct
    rw [hcolumns, hrows, ← List.append_assoc] at hall
    refine ⟨⟨t.columns, t.rows ++ rows, ?_, ?_⟩, ⟨rfl, rfl⟩, hcolumns, ?_⟩
    · intro row hrow
      refine hcolumns ▸ t''.fits row ?_
      rw [hrows, ← List.append_assoc]
      exact List.mem_append_left _ hrow
    · exact (List.pairwise_append.mp hall).1
    · exact hrows.trans (List.append_assoc _ _ _).symm
  · intro h
    obtain ⟨t', ⟨hcolumns, hrows⟩, hcolumns', hrows'⟩ := h
    exact ⟨hcolumns'.trans hcolumns, by rw [hrows', hrows, List.append_assoc]⟩

end Table

/-! ## Databases and statements -/

/-- The tables by their names. -/
abbrev Database := String → Option Table

/-- The multiset of the rows of a table, if it exists. -/
def Database.rows (db : Database) (name : String) :
    Option (Multiset (List (String × SqlValue))) :=
  (db name).map fun t => (t.namedRows : Multiset (List (String × SqlValue)))

inductive Statement
  | dropTable (name : String)
  | dropTableIfExists (name : String)
  | createTableIfNotExists (name : String) (columns : List Column)
  deriving DecidableEq, Repr

def execute : Statement → Database → Except Throwable Database
  | .dropTable name, db =>
      if (db name).isSome then .ok (Function.update db name none) else .error (.sql .noSuchTable)
  | .dropTableIfExists name, db => .ok (Function.update db name none)
  | .createTableIfNotExists name columns, db =>
      if (db name).isSome then .ok db
      else .ok (Function.update db name (some (Table.empty columns)))

/-- The table that a statement is about. -/
def Statement.target : Statement → String
  | .dropTable name | .dropTableIfExists name | .createTableIfNotExists name _ => name

/-- A statement leaves the other tables alone. -/
theorem execute_of_ne {sql : Statement} {db db' : Database} {name : String}
    (h : execute sql db = .ok db') (hname : sql.target ≠ name) : db' name = db name := by
  cases sql with
  | dropTable target =>
      rw [execute] at h
      split at h
      · obtain rfl := Except.ok.inj h
        exact Function.update_of_ne hname.symm _ _
      · cases h
  | dropTableIfExists target =>
      obtain rfl := Except.ok.inj h
      exact Function.update_of_ne hname.symm _ _
  | createTableIfNotExists target columns =>
      rw [execute] at h
      split at h
      · obtain rfl := Except.ok.inj h
        rfl
      · obtain rfl := Except.ok.inj h
        exact Function.update_of_ne hname.symm _ _

/-- Statements leave the tables alone that none of them is about. -/
theorem foldlM_execute_of_ne {sqls : List Statement} {db db' : Database} {name : String}
    (h : sqls.foldlM (fun db sql => execute sql db) db = .ok db')
    (hname : ∀ sql ∈ sqls, sql.target ≠ name) : db' name = db name := by
  induction sqls generalizing db with
  | nil =>
      obtain rfl := Except.ok.inj h
      rfl
  | cons sql sqls ih =>
      obtain ⟨hsql, hsqls⟩ := List.forall_mem_cons.mp hname
      rw [List.foldlM_cons] at h
      obtain ⟨db₁, hstep, hrest⟩ := bind_eq_ok.mp h
      exact (ih hrest hsqls).trans (execute_of_ne hstep hsql)

/-- A table that is dropped and not created afterwards is missing in the end. -/
theorem foldlM_execute_dropped {before behind : List Statement} {db db' : Database}
    {name : String} (hbehind : ∀ sql ∈ behind, sql.target ≠ name)
    (h : (before ++ .dropTable name :: behind).foldlM (fun db sql => execute sql db) db =
      .ok db') : db' name = none := by
  rw [List.foldlM_append] at h
  obtain ⟨db₁, _, hdropped⟩ := bind_eq_ok.mp h
  rw [List.foldlM_cons, execute] at hdropped
  obtain ⟨db₂, hdrop, hrest⟩ := bind_eq_ok.mp hdropped
  rw [foldlM_execute_of_ne hrest hbehind]
  split at hdrop
  · obtain rfl := Except.ok.inj hdrop
    exact Function.update_self _ _ _
  · cases hdrop

/-- Dropping tables that may be missing. -/
theorem foldlM_dropTableIfExists (names : List String) (db : Database) :
    (names.map Statement.dropTableIfExists).foldlM (fun db sql => execute sql db) db =
      .ok fun name => if name ∈ names then none else db name := by
  induction names generalizing db with
  | nil => simp
  | cons first names ih =>
      rw [List.map_cons, List.foldlM_cons, execute, ok_bind, ih]
      congr 1
      funext name
      by_cases hfirst : name = first
      · simp [hfirst]
      · simp [hfirst]

/-- Dropping different tables succeeds when all of them exist. -/
theorem foldlM_dropTable {names : List String} (hnodup : names.Nodup) (db db' : Database) :
    (names.map Statement.dropTable).foldlM (fun db sql => execute sql db) db = .ok db' ↔
      (∀ name ∈ names, (db name).isSome) ∧
        db' = fun name => if name ∈ names then none else db name := by
  induction names generalizing db with
  | nil =>
      simp only [List.map_nil, List.foldlM_nil, pure_eq_ok, Except.ok.injEq, List.not_mem_nil,
        false_implies, implies_true, if_false, true_and]
      exact eq_comm
  | cons first names ih =>
      obtain ⟨hfirst, hrest⟩ := List.nodup_cons.mp hnodup
      have hkeep : ∀ name ∈ names, Function.update db first none name = db name := by
        intro name hname
        have hne : name ≠ first := by
          intro h'
          obtain rfl := h'
          exact hfirst hname
        exact Function.update_of_ne hne _ _
      have hdrop : (fun name => if name ∈ names then none else Function.update db first none name) =
          fun name => if name ∈ first :: names then none else db name := by
        funext name
        by_cases h : name = first
        · simp [h]
        · simp [h]
      rw [List.map_cons, List.foldlM_cons, execute]
      by_cases hsome : (db first).isSome
      · rw [if_pos hsome, ok_bind, ih hrest, hdrop]
        simp only [List.forall_mem_cons, hsome, true_and]
        constructor
        · intro h'
          obtain ⟨hall, rfl⟩ := h'
          exact ⟨fun name hname => hkeep name hname ▸ hall name hname, rfl⟩
        · intro h'
          obtain ⟨hall, rfl⟩ := h'
          exact ⟨fun name hname => (hkeep name hname).symm ▸ hall name hname, rfl⟩
      · rw [if_neg hsome, error_bind]
        simp [hsome]

/-- Creating tables that may be there. -/
theorem foldlM_createTableIfNotExists (schema : List (String × List Column)) (db : Database) :
    (schema.map fun s => Statement.createTableIfNotExists s.1 s.2).foldlM
        (fun db sql => execute sql db) db =
      .ok fun name => (db name).or ((schema.lookup name).map Table.empty) := by
  induction schema generalizing db with
  | nil => simp
  | cons first schema ih =>
      obtain ⟨name', columns⟩ := first
      rw [List.map_cons, List.foldlM_cons, execute]
      by_cases hsome : (db name').isSome
      · rw [if_pos hsome, ok_bind, ih]
        congr 1
        funext name
        by_cases hname : name = name'
        · obtain ⟨t, ht⟩ := Option.isSome_iff_exists.mp hsome
          simp [hname, ht]
        · have hlookup : (name == name') = false := by simpa using hname
          simp [List.lookup_cons, hlookup]
      · rw [if_neg hsome, ok_bind, ih]
        congr 1
        funext name
        by_cases hname : name = name'
        · have hnone : db name' = none := by simpa using hsome
          simp [hname, hnone]
        · have hlookup : (name == name') = false := by simpa using hname
          simp [List.lookup_cons, hlookup, hname]

/-- `insert into table values(?, ...)`, or for named columns
`insert into table(c, ...) values(?, ...)`. -/
structure Insertion where
  table : String
  names : Option (List String)
  count : Nat
  deriving DecidableEq, Repr

/-- The row that parameter values make, in the order of the columns. -/
def Insertion.arrange (ins : Insertion) (columns : List Column) :
    Except Throwable (List SqlValue → List SqlValue) :=
  match ins.names with
  | none => if ins.count = columns.length then .ok id else .error (.sql .valueCount)
  | some names =>
      if ∀ name ∈ names, name ∈ columns.map Column.name then
        .ok fun values => columns.map fun c => ((names.zip values).lookup c.name).getD c.default
      else .error (.sql .noSuchColumn)

/-- Compile an insertion: its table and its columns must exist. -/
def Insertion.prepare (ins : Insertion) (db : Database) : Except Throwable Unit :=
  match db ins.table with
  | none => .error (.sql .noSuchTable)
  | some t => (ins.arrange t.columns).map fun _ => ()

/-- Execute an insertion. -/
def Insertion.run (ins : Insertion) (values : List SqlValue) (db : Database) :
    Except Throwable Database :=
  match db ins.table with
  | none => .error (.sql .noSuchTable)
  | some t => do
      let row ← ins.arrange t.columns
      let t' ← t.insert (row values)
      return Function.update db ins.table (some t')

section Insertion

variable {ins : Insertion} {db db' : Database} {t : Table} {row : List SqlValue → List SqlValue}

theorem prepare_eq_ok : ins.prepare db = .ok () ↔
    ∃ t row, db ins.table = some t ∧ ins.arrange t.columns = .ok row := by
  unfold Insertion.prepare
  cases db ins.table with
  | none => simp
  | some t =>
      cases h : ins.arrange t.columns with
      | error e => simp [Except.map, h]
      | ok row => simp [Except.map, h]

theorem run_eq_ok (ht : db ins.table = some t) (hrow : ins.arrange t.columns = .ok row)
    {values : List SqlValue} :
    ins.run values db = .ok db' ↔
      ∃ t', t.Extends [row values] t' ∧ db' = Function.update db ins.table (some t') := by
  unfold Insertion.run
  simp only [ht, hrow, ok_bind, bind_eq_ok, Table.insert_eq_ok, pure_eq_ok, Except.ok.injEq]
  constructor
  · intro h
    obtain ⟨t', ht', rfl⟩ := h
    exact ⟨t', ht', rfl⟩
  · intro h
    obtain ⟨t', ht', rfl⟩ := h
    exact ⟨t', ht', rfl⟩

/-- **A batch of insertions succeeds exactly when there is a table with all of
its rows**, and this is then the only change. -/
theorem foldlM_run_eq_ok (ht : db ins.table = some t) (hrow : ins.arrange t.columns = .ok row)
    {batch : List (List SqlValue)} :
    batch.foldlM (fun db values => ins.run values db) db = .ok db' ↔
      ∃ t', t.Extends (batch.map row) t' ∧ db' = Function.update db ins.table (some t') := by
  induction batch generalizing db t with
  | nil =>
      simp only [List.foldlM_nil, pure_eq_ok, Except.ok.injEq, List.map_nil, Table.extends_nil,
        exists_eq_left, ← ht, Function.update_eq_self]
      exact eq_comm
  | cons values batch ih =>
      have hcons : (values :: batch).map row = [row values] ++ batch.map row := rfl
      rw [List.foldlM_cons, bind_eq_ok, hcons]
      simp only [run_eq_ok ht hrow, Table.extends_append]
      constructor
      · intro h
        obtain ⟨_, ⟨t₁, ht₁, rfl⟩, hrest⟩ := h
        have hcolumns : ins.arrange t₁.columns = .ok row := ht₁.1 ▸ hrow
        obtain ⟨t', ht', rfl⟩ := (ih (Function.update_self _ _ _) hcolumns).mp hrest
        exact ⟨t', ⟨t₁, ht₁, ht'⟩, Function.update_idem _ _ _⟩
      · intro h
        obtain ⟨t', ⟨t₁, ht₁, ht'⟩, rfl⟩ := h
        have hcolumns : ins.arrange t₁.columns = .ok row := ht₁.1 ▸ hrow
        refine ⟨_, ⟨t₁, ht₁, rfl⟩, ?_⟩
        refine (ih (Function.update_self _ _ _) hcolumns).mpr ⟨t', ht', ?_⟩
        exact (Function.update_idem _ _ _).symm

/-- The change that rows of parameter values make to the table of an insertion. -/
def Inserts (ins : Insertion) (values : List (List SqlValue)) (db db' : Database) : Prop :=
  ∃ t row t', db ins.table = some t ∧ ins.arrange t.columns = .ok row ∧
    t.Extends (values.map row) t' ∧ db' = Function.update db ins.table (some t')

/-- **Filling one table**: compiling and executing a batch completes exactly when
the table exists, the statement fits its columns, and there is a table with these
rows too. -/
theorem inserts_iff {ins : Insertion} {values : List (List SqlValue)} {db db' : Database} :
    (ins.prepare db = .ok () ∧
        values.foldlM (fun db v => ins.run v db) db = .ok db') ↔
      Inserts ins values db db' := by
  constructor
  · intro h
    obtain ⟨hprepare, hbatch⟩ := h
    obtain ⟨t, row, ht, hrow⟩ := prepare_eq_ok.mp hprepare
    obtain ⟨t', hextends, rfl⟩ := (foldlM_run_eq_ok ht hrow).mp hbatch
    exact ⟨t, row, t', ht, hrow, hextends, rfl⟩
  · intro h
    obtain ⟨t, row, t', ht, hrow, hextends, rfl⟩ := h
    exact ⟨prepare_eq_ok.mpr ⟨t, row, ht, hrow⟩,
      (foldlM_run_eq_ok ht hrow).mpr ⟨t', hextends, rfl⟩⟩

variable {ins' : Insertion} {u : Table} {row' : List SqlValue → List SqlValue}

/-- One turn of a loop that fills two tables. -/
theorem run_two_eq_ok (hne : ins.table ≠ ins'.table) (ht : db ins.table = some t)
    (hrow : ins.arrange t.columns = .ok row) (hu : db ins'.table = some u)
    (hrow' : ins'.arrange u.columns = .ok row') {values : List SqlValue}
    {batch : List (List SqlValue)} :
    (ins.run values db >>= fun db => batch.foldlM (fun db values => ins'.run values db) db) =
        .ok db' ↔
      ∃ t' u', t.Extends [row values] t' ∧ u.Extends (batch.map row') u' ∧
        db' = Function.update (Function.update db ins.table (some t')) ins'.table (some u') := by
  have hkeep (t' : Table) : Function.update db ins.table (some t') ins'.table = some u :=
    (Function.update_of_ne hne.symm _ _).trans hu
  rw [bind_eq_ok]
  simp only [run_eq_ok ht hrow]
  constructor
  · intro h
    obtain ⟨_, ⟨t', ht', rfl⟩, hbatch⟩ := h
    obtain ⟨u', hu', rfl⟩ := (foldlM_run_eq_ok (hkeep t') hrow').mp hbatch
    exact ⟨t', u', ht', hu', rfl⟩
  · intro h
    obtain ⟨t', u', ht', hu', rfl⟩ := h
    exact ⟨_, ⟨t', ht', rfl⟩, (foldlM_run_eq_ok (hkeep t') hrow').mpr ⟨u', hu', rfl⟩⟩

/-- **A loop that fills two tables in turns** succeeds exactly when there are two
tables with all of the rows. -/
theorem foldlM_run_two_eq_ok {α : Type} {values : α → List SqlValue}
    {batch : α → List (List SqlValue)} (hne : ins.table ≠ ins'.table)
    (ht : db ins.table = some t) (hrow : ins.arrange t.columns = .ok row)
    (hu : db ins'.table = some u) (hrow' : ins'.arrange u.columns = .ok row') {xs : List α} :
    xs.foldlM (fun db x => ins.run (values x) db >>= fun db =>
        (batch x).foldlM (fun db values => ins'.run values db) db) db = .ok db' ↔
      ∃ t' u', t.Extends (xs.map fun x => row (values x)) t' ∧
        u.Extends ((xs.flatMap batch).map row') u' ∧
        db' = Function.update (Function.update db ins.table (some t')) ins'.table (some u') := by
  induction xs generalizing db t u with
  | nil =>
      have hsame : Function.update (Function.update db ins.table (some t)) ins'.table (some u) =
          db := by rw [← ht, Function.update_eq_self, ← hu, Function.update_eq_self]
      simp only [List.foldlM_nil, pure_eq_ok, Except.ok.injEq, List.map_nil, List.flatMap_nil,
        Table.extends_nil]
      constructor
      · intro h
        obtain rfl := h
        exact ⟨t, u, rfl, rfl, hsame.symm⟩
      · intro h
        obtain ⟨t', u', rfl, rfl, rfl⟩ := h
        exact hsame.symm
  | cons x xs ih =>
      have hcons : ((x :: xs).map fun x => row (values x)) =
          [row (values x)] ++ xs.map fun x => row (values x) := rfl
      have hover (t₁ u₁ t' u' : Table) :
          Function.update (Function.update (Function.update (Function.update db ins.table
            (some t₁)) ins'.table (some u₁)) ins.table (some t')) ins'.table (some u') =
          Function.update (Function.update db ins.table (some t')) ins'.table (some u') := by
        rw [Function.update_comm hne.symm, Function.update_idem, Function.update_idem]
      have hself (t₁ u₁ : Table) : Function.update (Function.update db ins.table (some t₁))
          ins'.table (some u₁) ins.table = some t₁ :=
        (Function.update_of_ne hne _ _).trans (Function.update_self _ _ _)
      rw [List.foldlM_cons, bind_eq_ok, hcons, List.flatMap_cons, List.map_append]
      simp only [run_two_eq_ok hne ht hrow hu hrow', Table.extends_append]
      constructor
      · intro h
        obtain ⟨_, ⟨t₁, u₁, ht₁, hu₁, rfl⟩, hrest⟩ := h
        obtain ⟨t', u', ht', hu', rfl⟩ := (ih (hself t₁ u₁) (ht₁.1 ▸ hrow)
          (Function.update_self _ _ _) (hu₁.1 ▸ hrow')).mp hrest
        exact ⟨t', u', ⟨t₁, ht₁, ht'⟩, ⟨u₁, hu₁, hu'⟩, hover t₁ u₁ t' u'⟩
      · intro h
        obtain ⟨t', u', ⟨t₁, ht₁, ht'⟩, ⟨u₁, hu₁, hu'⟩, rfl⟩ := h
        refine ⟨_, ⟨t₁, u₁, ht₁, hu₁, rfl⟩, (ih (hself t₁ u₁) (ht₁.1 ▸ hrow)
          (Function.update_self _ _ _) (hu₁.1 ▸ hrow')).mpr ⟨t', u', ht', hu', ?_⟩⟩
        exact (hover t₁ u₁ t' u').symm

/-- A loop that fills two tables in turns fills one after the other. -/
theorem foldlM_run_two_iff {α : Type} {values : α → List SqlValue}
    {batch : α → List (List SqlValue)} (hne : ins.table ≠ ins'.table)
    (ht : db ins.table = some t) (hrow : ins.arrange t.columns = .ok row)
    (hu : db ins'.table = some u) (hrow' : ins'.arrange u.columns = .ok row') {xs : List α} :
    xs.foldlM (fun db x => ins.run (values x) db >>= fun db =>
        (batch x).foldlM (fun db values => ins'.run values db) db) db = .ok db' ↔
      ∃ db₁, Inserts ins (xs.map values) db db₁ ∧ Inserts ins' (xs.flatMap batch) db₁ db' := by
  have hkeep (t' : Table) : Function.update db ins.table (some t') ins'.table = some u :=
    (Function.update_of_ne hne.symm _ _).trans hu
  rw [foldlM_run_two_eq_ok hne ht hrow hu hrow']
  constructor
  · intro h
    obtain ⟨t', u', ht', hu', rfl⟩ := h
    refine ⟨_, ⟨t, row, t', ht, hrow, ?_, rfl⟩, u, row', u', hkeep t', hrow', hu', rfl⟩
    rw [List.map_map]
    exact ht'
  · intro h
    obtain ⟨_, ⟨t₀, row₀, t', ht₀, hrow₀, ht', rfl⟩, u₀, row₀', u', hu₀, hrow₀', hu', rfl⟩ := h
    obtain rfl := Option.some.inj (ht.symm.trans ht₀)
    obtain rfl := Except.ok.inj (hrow.symm.trans hrow₀)
    obtain rfl := Option.some.inj ((hkeep t').symm.trans hu₀)
    obtain rfl := Except.ok.inj (hrow'.symm.trans hrow₀')
    rw [List.map_map] at ht'
    exact ⟨t', u', ht', hu', rfl⟩

end Insertion

end Java
