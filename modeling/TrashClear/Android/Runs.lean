import TrashClear.Android.Refinement
import TrashClear.Android.Transactions

/-!
# Generation after generation

`onCreate` of the Android database creates no table, and a generation drops the five
tables without IF EXISTS before it creates them, every statement being durable on its
own.  Here generations follow one another on one database, and the process may end
inside of them.

* `genLocalData_never`: once one of the tables is missing, every generation throws, and
  no table is ever created again.
* `hasTables_iff`: tables that are there stay there, unless the process ends between the
  first DROP and the last CREATE of a generation that no left-over transaction surrounds.
-/

namespace TrashClear.Android

open Java Run Store

variable (p : Platform)

/-! ## The steps of a generation -/

def statements : List Statement := getDeleteTables.map Statement.dropTable ++ getCreateTableSqls

/-- Ten statements and four generators. -/
def steps (files : LocalFiles) : List (SQLiteDatabase Unit) :=
  statements.map execSQL ++ Generator.all.map fun g => run p g (getLines (g.file files))

theorem genLocalData_eq_steps (files : LocalFiles) :
    genLocalData p files = (steps p files).forM id := by
  unfold genLocalData steps statements
  simp [List.forM_append, Generator.all, Generator.file, run]

/-- What happens to the database: a whole generation, or a process that ends after some
steps of one.  A process that ends inside of a generator leaves what it found, because
nothing of a transaction is durable before its end. -/
inductive Event
  | generate (files : LocalFiles)
  | killed (files : LocalFiles) (n : Nat)

/-- The session after an event.  After the end of the process the database is opened
again. -/
def after (s : Session Database) : Event → Session Database
  | .generate files => left (genLocalData p files s)
  | .killed files n => Session.opened (left (((steps p files).take n).forM id s)).durable

def HasTables (db : Database) : Prop := ∀ name ∈ getDeleteTables, (db name).isSome

/-! ## A table is missing -/

/-- Every table of `db'` is one of `db`. -/
def Shrunk (db db' : Database) : Prop := ∀ name, db' name = none ∨ db' name = db name

theorem Shrunk.trans {db db₁ db₂ : Database} (h : Shrunk db db₁) (h' : Shrunk db₁ db₂) :
    Shrunk db db₂ := by
  intro name
  rcases h' name with hgone | hkept
  · exact Or.inl hgone
  · rw [hkept]
    exact h name

theorem Shrunk.missing {db db' : Database} (h : Shrunk db db') {name : String}
    (hnone : db name = none) : db' name = none := by
  rcases h name with hgone | hkept
  · exact hgone
  · rw [hkept, hnone]

/-- Dropping tables stops at the first one that is missing. -/
theorem run_drops_shrunk (names : List String) (db : Database) :
    ∃ db', Shrunk db db' ∧
      (((names.map fun name => execSQL (.dropTable name)).forM id (Session.opened db) =
          .ok () (Session.opened db') ∧ ∀ name ∈ names, (db name).isSome) ∨
        (names.map fun name => execSQL (.dropTable name)).forM id (Session.opened db) =
          .error (.sql .noSuchTable) (Session.opened db')) := by
  induction names generalizing db with
  | nil => exact ⟨db, fun _ => Or.inr rfl, Or.inl ⟨rfl, by simp⟩⟩
  | cons first names ih =>
      rw [List.map_cons, run_forM_cons]
      cases hfirst : db first with
      | none =>
          have hthrow : execSQL (.dropTable first) (Session.opened db) =
              .error (.sql .noSuchTable) (Session.opened db) := by
            simp [execSQL, Session.write, Session.opened, execute, hfirst]
          exact ⟨db, fun _ => Or.inr rfl, Or.inr (run_bind_of_error hthrow)⟩
      | some t =>
          have hdrop : execSQL (.dropTable first) (Session.opened db) =
              .ok () (Session.opened (Function.update db first none)) := by
            simp [execSQL, Session.write, Session.opened, execute, hfirst]
          have hshrunk : Shrunk db (Function.update db first none) := by
            intro name
            by_cases hname : name = first
            · rw [hname, Function.update_self]
              exact Or.inl rfl
            · rw [Function.update_of_ne hname]
              exact Or.inr rfl
          obtain ⟨db', hrest, hrun⟩ := ih (Function.update db first none)
          refine ⟨db', hshrunk.trans hrest, ?_⟩
          rw [id_eq, run_bind_of_ok hdrop]
          apply hrun.imp_left
          intro h
          obtain ⟨hok, hall⟩ := h
          refine ⟨hok, List.forall_mem_cons.mpr ⟨by simp [hfirst], fun name hname => ?_⟩⟩
          -- a table that is there after the first is dropped was there before
          rcases hshrunk name with hgone | hkept
          · have hsome := hall name hname
            rw [hgone] at hsome
            cases hsome
          · exact hkept ▸ hall name hname

/-- When a table is missing, a generation throws at one of its first steps, and until
then it only drops tables. -/
theorem run_steps_missing {db : Database} (h : ∃ name ∈ getDeleteTables, db name = none)
    (files : LocalFiles) (n : Nat) :
    ∃ db', Shrunk db db' ∧
      left (((steps p files).take n).forM id (Session.opened db)) = Session.opened db' ∧
      (getDeleteTables.length ≤ n → ((steps p files).take n).forM id (Session.opened db) =
        .error (.sql .noSuchTable) (Session.opened db')) := by
  obtain ⟨missing, hmem, hnone⟩ := h
  have hsplit : steps p files =
      (getDeleteTables.map fun name => execSQL (.dropTable name)) ++
        (getCreateTableSqls.map execSQL ++
          Generator.all.map fun g => run p g (getLines (g.file files))) := by
    unfold steps statements
    rw [List.map_append, List.map_map, List.append_assoc]
    rfl
  obtain ⟨db', hshrunk, hrun⟩ := run_drops_shrunk (getDeleteTables.take n) db
  refine ⟨db', hshrunk, ?_⟩
  rw [hsplit, List.take_append, ← List.map_take, run_forM_append, List.length_map]
  rcases hrun with ⟨hok, hall⟩ | herror
  · -- the missing table is not among the first `n`
    have hshort : n < getDeleteTables.length := by
      by_contra hlong
      rw [List.take_of_length_le (by omega)] at hall
      have hsome := hall missing hmem
      rw [hnone] at hsome
      cases hsome
    rw [Nat.sub_eq_zero_of_le hshort.le, List.take_zero, run_bind_of_ok hok]
    exact ⟨rfl, fun hlong => absurd hshort (by omega)⟩
  · rw [run_bind_of_error herror]
    exact ⟨rfl, fun _ => rfl⟩

/-- **Event.**  A missing table stays missing, and no table is created. -/
theorem after_missing {db : Database} (h : ∃ name ∈ getDeleteTables, db name = none)
    (event : Event) :
    ∃ db', after p (Session.opened db) event = Session.opened db' ∧ Shrunk db db' := by
  cases event with
  | generate files =>
      obtain ⟨db', hshrunk, hleft, _⟩ := run_steps_missing p h files (steps p files).length
      rw [List.take_length, ← genLocalData_eq_steps] at hleft
      exact ⟨db', hleft, hshrunk⟩
  | killed files n =>
      obtain ⟨db', hshrunk, hleft, _⟩ := run_steps_missing p h files n
      exact ⟨db', congrArg (fun s => Session.opened (Session.durable s)) hleft, hshrunk⟩

/-- **Events.**  A missing table stays missing, and no table is created. -/
theorem events_missing {db : Database} (h : ∃ name ∈ getDeleteTables, db name = none)
    (events : List Event) :
    ∃ db', events.foldl (after p) (Session.opened db) = Session.opened db' ∧ Shrunk db db' := by
  induction events generalizing db with
  | nil => exact ⟨db, rfl, fun _ => Or.inr rfl⟩
  | cons event events ih =>
      obtain ⟨missing, hmem, hnone⟩ := h
      obtain ⟨db₁, hafter, hshrunk⟩ := after_missing p ⟨missing, hmem, hnone⟩ event
      obtain ⟨db', hrest, hshrunk'⟩ := ih ⟨missing, hmem, hshrunk.missing hnone⟩
      rw [List.foldl_cons, hafter]
      exact ⟨db', hrest, hshrunk.trans hshrunk'⟩

/-- **Once one of the five tables is missing, no generation ever returns**, however often
one is started, with whatever files, and wherever it is killed; no table is created again
and none is filled.  A new database has none of the tables. -/
theorem genLocalData_never {prior : Database}
    (h : ∃ name ∈ getDeleteTables, prior name = none) (events : List Event) :
    Shrunk prior (events.foldl (after p) (Session.opened prior)).durable ∧
      ∀ files, ∃ s, genLocalData p files (events.foldl (after p) (Session.opened prior)) =
        .error (.sql .noSuchTable) s := by
  obtain ⟨db, hevents, hshrunk⟩ := events_missing p h events
  obtain ⟨missing, hmem, hnone⟩ := h
  rw [hevents]
  refine ⟨hshrunk, fun files => ?_⟩
  obtain ⟨db', _, _, hthrow⟩ := run_steps_missing p ⟨missing, hmem, hshrunk.missing hnone⟩ files
    (steps p files).length
  rw [List.take_length, ← genLocalData_eq_steps] at hthrow
  exact ⟨_, hthrow (by simp [steps, statements])⟩

/-- A new database after one generation. -/
theorem genLocalData_never_new :
    Shrunk (fun _ => none) ([.generate sampleFiles.toLocalFiles].foldl (after plainPlatform)
        (Session.opened fun _ => none)).durable ∧
      ∀ files, ∃ s, genLocalData plainPlatform files
        ([.generate sampleFiles.toLocalFiles].foldl (after plainPlatform)
          (Session.opened fun _ => none)) = .error (.sql .noSuchTable) s :=
  genLocalData_never plainPlatform ⟨tableRootPath, by decide, rfl⟩ _

/-! ## All tables are there -/

theorem HasTables.insertRow {db db' : Database} {table : String} {values : ContentValues}
    (h : HasTables db) (hrow : insertRow table values db = .ok db') : HasTables db' := by
  unfold Java.insertRow Insertion.run at hrow
  split at hrow
  · cases hrow
  · obtain ⟨row, _, hrow⟩ := bind_eq_ok.mp hrow
    obtain ⟨t, _, hrow⟩ := bind_eq_ok.mp hrow
    obtain rfl := Except.ok.inj hrow
    intro name hname
    by_cases htable : name = (values.insertion table).table
    · rw [htable, Function.update_self]
      rfl
    · rw [Function.update_of_ne htable]
      exact h name hname

theorem hasTables_createdFrom (db : Database) : HasTables (createdFrom db) :=
  fun _ hname => isSome_createdFrom db hname

/-- A loop over lines that returns leaves the tables there when each insertion does. -/
theorem hasTables_of_forEachLine {α : Type} {parse : JString → Except Throwable (Option α)}
    {insert : α → SQLiteDatabase Unit} {change : Database → α → Except Throwable Database}
    (hinsert : ∀ info, Acts Session.view Session.Inside (insert info) fun db => change db info)
    (hchange : ∀ db info db', change db info = .ok db' → HasTables db → HasTables db')
    {lines : Option (List JString)} {db : Database} {s : Session Database} (hdb : HasTables db)
    (h : forEachLine parse insert lines (Session.opened db) = .ok () s) : HasTables s.durable := by
  obtain ⟨_, infos, db', _, _, hfold, rfl⟩ := (forEachLine_iff hinsert).mp h
  exact foldlM_keeps hchange hfold hdb

theorem hasTables_of_run {g : Generator} {lines : Option (List JString)} {db : Database}
    {s : Session Database} (hdb : HasTables db)
    (h : run p g lines (Session.opened db) = .ok () s) : HasTables s.durable := by
  cases g with
  | root =>
      refine hasTables_of_forEachLine (acts_insertRoot p) (fun db info db' hrow hdb => ?_) hdb h
      obtain ⟨values, _, hrow⟩ := bind_eq_ok.mp hrow
      obtain ⟨db₁, hroot, hpkgs⟩ := bind_eq_ok.mp hrow
      exact foldlM_keeps (fun db pkg db' hpkg hdb => hdb.insertRow hpkg) hpkgs
        (hdb.insertRow hroot)
  | sub =>
      refine hasTables_of_forEachLine (acts_insertSub p) (fun db info db' hrow hdb => ?_) hdb h
      obtain ⟨values, _, hrow⟩ := bind_eq_ok.mp hrow
      exact hdb.insertRow hrow
  | description =>
      exact hasTables_of_forEachLine (fun info => acts_insertOrThrow _ (descriptionValues info))
        (fun db info db' hrow hdb => hdb.insertRow hrow) hdb h
  | app =>
      exact hasTables_of_forEachLine (fun info => acts_insertOrThrow _ (appInfoValues info))
        (fun db info db' hrow hdb => hdb.insertRow hrow) hdb h

/-- A generator on a session without a transaction: it returns with the tables there, or
leaves its transaction open. -/
theorem run_opened {g : Generator} {lines : Option (List JString)} {db : Database}
    (hdb : HasTables db) :
    (∃ db', run p g lines (Session.opened db) = .ok () (Session.opened db') ∧ HasTables db') ∨
      ∃ e s, run p g lines (Session.opened db) = .error e s ∧ Session.Held db s := by
  obtain ⟨body, hrun, hinner, _⟩ := run_eq_transaction p g lines
  rcases hinner.transaction_opened .illegalState db with ⟨db', hok⟩ | ⟨e, s, herror, hheld⟩
  · rw [← hrun] at hok
    exact Or.inl ⟨db', hok, hasTables_of_run p hdb hok⟩
  · rw [← hrun] at herror
    exact Or.inr ⟨e, s, herror, hheld⟩

/-- The tables are there, and either no transaction is begun or nothing becomes durable. -/
def Whole (s : Session Database) : Prop :=
  HasTables s.durable ∧ (s = Session.opened s.durable ∨ Session.Held s.durable s)

theorem whole_opened {db : Database} (h : HasTables db) : Whole (Session.opened db) :=
  ⟨h, Or.inl rfl⟩

theorem Whole.of_held {db : Database} {s : Session Database} (hdb : HasTables db)
    (h : Session.Held db s) : Whole s := by
  obtain ⟨hinside, hlevels, rfl⟩ := h
  exact ⟨hdb, Or.inr ⟨hinside, hlevels, rfl⟩⟩

/-- Generators one after another. -/
theorem whole_generators (files : LocalFiles) (gs : List Generator) {db : Database}
    (hdb : HasTables db) :
    Whole (left ((gs.map fun g => run p g (getLines (g.file files))).forM id
      (Session.opened db))) := by
  induction gs generalizing db with
  | nil => exact whole_opened hdb
  | cons g gs ih =>
      rw [List.map_cons, run_forM_cons, id_eq]
      rcases run_opened p hdb with ⟨db', hok, hdb'⟩ | ⟨e, s, herror, hheld⟩
      · rw [run_bind_of_ok hok]
        exact ih hdb'
      · rw [run_bind_of_error herror]
        exact Whole.of_held hdb hheld

/-- Steps that begin inside of a transaction make nothing durable. -/
theorem held_steps {db : Database} {s : Session Database} (h : Session.Held db s)
    (files : LocalFiles) (n : Nat) :
    Session.Held db (left (((steps p files).take n).forM id s)) := by
  have hstep : ∀ step ∈ (steps p files).take n, ∀ s, Session.Held db s →
      Session.Held db (left (step s)) := by
    intro step hstep s hs
    rcases List.mem_append.mp (List.mem_of_mem_take hstep) with hsql | hgenerator
    · obtain ⟨sql, _, rfl⟩ := List.mem_map.mp hsql
      exact (Session.inner_write (execute sql)).held hs
    · obtain ⟨g, _, rfl⟩ := List.mem_map.mp hgenerator
      obtain ⟨body, hrun, hinner, _⟩ := run_eq_transaction p g (getLines (g.file files))
      rw [hrun]
      exact hinner.held_transaction .illegalState hs
  generalize (steps p files).take n = todo at hstep
  induction todo generalizing s with
  | nil => exact h
  | cons step todo ih =>
      obtain ⟨hfirst, hrest⟩ := List.forall_mem_cons.mp hstep
      rw [run_forM_cons]
      exact Session.Held.bind (hfirst s h) fun _ s' hs' => ih hs' hrest

/-! ## The statements -/

theorem run_statements {sqls : List Statement} {db db' : Database}
    (h : sqls.foldlM (fun db sql => execute sql db) db = .ok db') :
    (sqls.map execSQL).forM id (Session.opened db) = .ok () (Session.opened db') := by
  have hrun := (Session.run_forM_write (m := execute)).mpr ⟨db', h, rfl⟩
  rw [run_forM_map]
  exact hrun

/-- All statements of a generation create the tables anew. -/
theorem foldlM_statements {db : Database} (h : HasTables db) :
    statements.foldlM (fun db sql => execute sql db) db = .ok (createdFrom db) := by
  unfold statements
  rw [List.foldlM_append]
  have hdrops := (foldlM_dropTable (show getDeleteTables.Nodup by decide) db _).mpr ⟨h, rfl⟩
  exact bind_eq_ok.mpr ⟨_, hdrops, execute_creates db⟩

/-- After some of the statements, but not all, a table is missing. -/
theorem run_statements_missing {db : Database} (h : HasTables db) {n : Nat} (hpos : 0 < n)
    (hlt : n < statements.length) :
    ∃ db', ((statements.take n).map execSQL).forM id (Session.opened db) =
        .ok () (Session.opened db') ∧ ∃ name ∈ getDeleteTables, db' name = none := by
  have hall := foldlM_statements h
  rw [← List.take_append_drop n statements, List.foldlM_append] at hall
  obtain ⟨db', htake, _⟩ := bind_eq_ok.mp hall
  refine ⟨db', run_statements htake, ?_⟩
  -- the first DROP until its CREATE, and from then on the last DROP
  have hcut : ∀ n < statements.length, 0 < n →
      (statements.take n = .dropTable tableRootPath :: (statements.take n).tail ∧
        ∀ sql ∈ (statements.take n).tail, sql.target ≠ tableRootPath) ∨
      (statements.take n = statements.take 4 ++ .dropTable tableAppInfo ::
          (statements.take n).drop 5 ∧
        ∀ sql ∈ (statements.take n).drop 5, sql.target ≠ tableAppInfo) := by decide
  rcases hcut n hlt hpos with ⟨heq, hbehind⟩ | ⟨heq, hbehind⟩
  · rw [heq] at htake
    exact ⟨tableRootPath, by decide, @foldlM_execute_dropped [] _ db db' _ hbehind htake⟩
  · rw [heq] at htake
    exact ⟨tableAppInfo, by decide, foldlM_execute_dropped hbehind htake⟩

/-- Outside of a transaction, some first steps leave the tables there unless they end
inside of the statements. -/
theorem whole_steps {db : Database} (h : HasTables db) (files : LocalFiles) {n : Nat}
    (hn : n = 0 ∨ statements.length ≤ n) :
    Whole (left (((steps p files).take n).forM id (Session.opened db))) := by
  rcases hn with rfl | hn
  · exact whole_opened h
  · unfold steps
    rw [List.take_append, List.take_of_length_le (by simpa using hn), ← List.map_take,
      run_forM_append, run_bind_of_ok (run_statements (foldlM_statements h))]
    exact whole_generators p files _ (hasTables_createdFrom db)

/-- Outside of a transaction, a process that ends inside of the statements leaves a
table missing. -/
theorem killed_missing {db : Database} (h : HasTables db) (files : LocalFiles) {n : Nat}
    (hpos : 0 < n) (hlt : n < statements.length) :
    ∃ db', after p (Session.opened db) (.killed files n) = Session.opened db' ∧
      ∃ name ∈ getDeleteTables, db' name = none := by
  obtain ⟨db', hrun, hmissing⟩ := run_statements_missing h hpos hlt
  refine ⟨db', ?_, hmissing⟩
  have htake : (steps p files).take n = (statements.take n).map execSQL := by
    unfold steps
    rw [List.take_append_of_le_length (by simpa using hlt.le), List.map_take]
  show Session.opened (left (((steps p files).take n).forM id (Session.opened db))).durable = _
  rw [htake, hrun]
  rfl

/-! ## Any events -/

/-- The process ends inside of the statements of a generation. -/
def Harmful : Event → Prop
  | .generate _ => False
  | .killed _ n => 0 < n ∧ n < statements.length

/-- **Event.**  The tables stay there, unless the event is harmful and no transaction is
begun; then one of them is missing from now on. -/
theorem after_whole {s : Session Database} (h : Whole s) (event : Event) :
    (Whole (after p s event) ∧ (Harmful event → s.Inside)) ∨
      (Harmful event ∧ ¬ s.Inside ∧ ∃ db, after p s event = Session.opened db ∧
        ∃ name ∈ getDeleteTables, db name = none) := by
  obtain ⟨htables, hs⟩ := h
  rcases hs with hopened | hheld
  · have houtside : ¬ s.Inside := by
      rw [hopened]
      exact fun hinside => hinside rfl
    cases event with
    | generate files =>
        have hlength : statements.length ≤ (steps p files).length := by simp [steps]
        have hwhole := whole_steps p htables files (Or.inr hlength)
        rw [List.take_length, ← genLocalData_eq_steps, ← hopened] at hwhole
        exact Or.inl ⟨hwhole, False.elim⟩
    | killed files n =>
        by_cases hn : Harmful (.killed files n)
        · obtain ⟨db, hafter, hmissing⟩ := killed_missing p htables files hn.1 hn.2
          rw [← hopened] at hafter
          exact Or.inr ⟨hn, houtside, db, hafter, hmissing⟩
        · have hwhole := whole_steps p htables files (n := n) (by
            unfold Harmful at hn
            omega)
          rw [← hopened] at hwhole
          exact Or.inl ⟨whole_opened hwhole.1, fun hharm => absurd hharm hn⟩
  · cases event with
    | generate files =>
        have hrest := held_steps p hheld files (steps p files).length
        rw [List.take_length, ← genLocalData_eq_steps] at hrest
        exact Or.inl ⟨Whole.of_held htables hrest, False.elim⟩
    | killed files n =>
        have hrest := held_steps p hheld files n
        refine Or.inl ⟨whole_opened ?_, fun _ => hheld.1⟩
        rw [hrest.2.2]
        exact htables

/-- **The five tables stay there exactly when** every process that ended inside of the
statements of a generation ran inside of a transaction that an earlier generation had left
open. -/
theorem hasTables_iff {prior : Database} (h : HasTables prior) (events : List Event) :
    HasTables (events.foldl (after p) (Session.opened prior)).durable ↔
      ∀ before event behind, events = before ++ event :: behind → Harmful event →
        (before.foldl (after p) (Session.opened prior)).Inside := by
  have hwhole := whole_opened h
  generalize Session.opened prior = s at hwhole
  clear h
  induction events generalizing s with
  | nil =>
      refine iff_of_true hwhole.1 fun before event behind hnil => ?_
      simp at hnil
  | cons event events ih =>
      rw [List.foldl_cons]
      rcases after_whole p hwhole event with ⟨hnext, hinside⟩ | ⟨hharm, houtside, db, hafter, hdb⟩
      · refine (ih _ hnext).trans ?_
        constructor
        · intro hrest before harmful behind heq hharmful
          cases before with
          | nil =>
              obtain ⟨rfl, rfl⟩ := List.cons.inj heq
              exact hinside hharmful
          | cons first before =>
              obtain ⟨rfl, rfl⟩ := List.cons.inj heq
              exact hrest before harmful behind rfl hharmful
        · intro hall before harmful behind heq hharmful
          exact hall (event :: before) harmful behind (congrArg (event :: ·) heq) hharmful
      · obtain ⟨missing, hmem, hnone⟩ := hdb
        obtain ⟨db', hevents, hshrunk⟩ := events_missing p ⟨missing, hmem, hnone⟩ events
        refine iff_of_false (fun htables => ?_) (fun hall => ?_)
        · rw [hafter, hevents] at htables
          have hsome := htables missing hmem
          rw [show (Session.opened db').durable missing = none from hshrunk.missing hnone] at hsome
          cases hsome
        · exact houtside (hall [] event events rfl hharm)

/-- A generation that is killed behind its first DROP, on five empty tables. -/
theorem hasTables_iff_killed :
    HasTables ([.killed sampleFiles.toLocalFiles 1].foldl (after plainPlatform)
        (Session.opened (createdFrom fun _ => none))).durable ↔
      ∀ before event behind, [.killed sampleFiles.toLocalFiles 1] = before ++ event :: behind →
        Harmful event →
        (before.foldl (after plainPlatform) (Session.opened (createdFrom fun _ => none))).Inside :=
  hasTables_iff plainPlatform (hasTables_createdFrom _) _

end TrashClear.Android
