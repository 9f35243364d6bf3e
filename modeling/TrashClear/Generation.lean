import TrashClear.GeneratorSpec

/-!
# What a generation leaves behind

A run of `genLocalData` is a chain of six committed steps: drop, create, and the
four generators.  `StepsDone files prior done db` describes the durable database
after the generators in `done`: their tables hold one row for every accepted line
that `getLines` delivered, the tables of the other generators are empty, and no
other table differs from the one before the run.

* `StepsDone.step` carries it over one generator, `StepsDone.run` over any number
  of them.
* `genLocalData_outcome`: a run that returns has done all four; a run that throws
  has done the first `k < 4` and nothing of the others.  `genLocalData_steps` says
  the same of the durable database alone.
-/

namespace TrashClear

open Java Run Store

/-- The records of the lines that a parser accepts. -/
def accepted {α : Type} (parse : JString → Except Throwable (Option α)) (lines : List JString) :
    List α :=
  lines.filterMap (found parse)

abbrev NamedRow := List (String × SqlValue)

variable (p : Platform)

/-! ## The rows of a record, under the names of the columns -/

def rootPathRow (info : RootPathInfo) : Except Throwable NamedRow := do
  let rootPath ← allPathMD5 p info.appRootPath
  let first ← firstPath p info.appRootPath
  return [(rootColumnAppId, int info.appId),
    (rootColumnAppName, .text (encryptText p info.appName)),
    (rootColumnRootPath, .text rootPath),
    (rootColumnRootFistPath, .text first),
    (rootColumnAppType, int info.appType),
    (rootColumnFileType, int info.fileType),
    (rootColumnClearType, int info.clearType),
    (rootColumnClearSuggestion, int info.clearSuggestion)]

def appPkgnameRows (info : RootPathInfo) : List NamedRow :=
  info.pkgs.map fun pkg => [(pkgColumnAppId, int info.appId), (pkgColumnAppPkgname, .text pkg)]

def subPathRow (info : SubPathInfo) : Except Throwable NamedRow := do
  let subPath ← allPathMD5 p info.subPath
  return [(subColumnAppId, int info.appId),
    (subColumnSubId, int info.subId),
    (subColumnSubPath, .text subPath),
    (subColumnSubPathDescription, int info.subPathDescId),
    (subColumnFileType, int info.fileType),
    (subColumnClearType, int info.clearType),
    (subColumnClearSuggestion, int info.clearSuggestion),
    (subColumnClearResidualType, int info.clearResidualType)]

def descriptionRow (info : TrashInfoDesc) : Except Throwable NamedRow :=
  return [(descColumnDescId, int info.id),
    (descColumnSupPathDescription, .text (encryptText p info.text))]

def appInfoRow (info : AppInfo) : Except Throwable NamedRow :=
  return [(apColumnAppId, int info.appId), (apAppName, .text (encryptText p info.appName))]

/-- A table holds one row for every accepted line. -/
def Generated {α : Type} (parse : JString → Except Throwable (Option α))
    (row : α → Except Throwable NamedRow) (table : String) (lines : List JString)
    (db : Database) : Prop :=
  ∃ rows, (accepted parse lines).mapM row = .ok rows ∧
    db.rows table = some (rows : Multiset NamedRow)

/-- The package table holds one row for every package of every accepted line. -/
def PackagesGenerated (lines : List JString) (db : Database) : Prop :=
  db.rows tableAppPkgname =
    some (((accepted parseRootPathLine lines).flatMap appPkgnameRows : List NamedRow) :
      Multiset NamedRow)

/-- What a table holds shows in this table alone. -/
theorem Generated.congr {α : Type} {parse : JString → Except Throwable (Option α)}
    {row : α → Except Throwable NamedRow} {table : String} {lines : List JString}
    {db db' : Database} (h : db' table = db table) (hgen : Generated parse row table lines db) :
    Generated parse row table lines db' := by
  obtain ⟨rows, hmap, htable⟩ := hgen
  refine ⟨rows, hmap, ?_⟩
  unfold Database.rows at htable ⊢
  rw [h, htable]

theorem PackagesGenerated.congr {lines : List JString} {db db' : Database}
    (h : db' tableAppPkgname = db tableAppPkgname) (hgen : PackagesGenerated lines db) :
    PackagesGenerated lines db' := by
  unfold PackagesGenerated Database.rows at hgen ⊢
  rw [h, hgen]

/-! ## New rows in an empty table -/

/-- What rows of parameter values make of an empty table. -/
theorem inserts_empty {ins : Insertion} {columns : List Column}
    {row : List SqlValue → List SqlValue} {vss : List (List SqlValue)} {db db' : Database}
    (hempty : db ins.table = some (Table.empty columns)) (hrow : ins.arrange columns = .ok row)
    (h : Inserts ins vss db db') :
    ∃ t : Table, t.columns = columns ∧ t.rows = vss.map row ∧
      db' = Function.update db ins.table (some t) := by
  obtain ⟨t₀, row', t, ht₀, hrow', ⟨hcolumns, hrows⟩, rfl⟩ := h
  obtain rfl : Table.empty columns = t₀ := Option.some.inj (hempty.symm.trans ht₀)
  obtain rfl : row = row' := Except.ok.inj (hrow.symm.trans hrow')
  exact ⟨t, hcolumns, by simpa [Table.empty] using hrows, rfl⟩

/-- Which rows an empty table can take: those that fit, no two with one key. -/
theorem exists_inserts_iff {ins : Insertion} {columns : List Column}
    {row : List SqlValue → List SqlValue} {vss : List (List SqlValue)} {db : Database}
    (hempty : db ins.table = some (Table.empty columns)) (hrow : ins.arrange columns = .ok row) :
    (∃ db', Inserts ins vss db db') ↔
      (∀ vs ∈ vss, Fits columns (row vs)) ∧
        vss.Pairwise fun v w => ¬ Clash columns (row v) (row w) := by
  constructor
  · intro h'
    obtain ⟨db', h⟩ := h'
    obtain ⟨t, rfl, hrows, _⟩ := inserts_empty hempty hrow h
    have hdistinct := t.distinct
    rw [hrows, List.pairwise_map] at hdistinct
    exact ⟨fun vs hvs => t.fits _ (hrows ▸ List.mem_map_of_mem hvs), hdistinct⟩
  · intro h'
    obtain ⟨hfits, hdistinct⟩ := h'
    let t : Table := {
      columns := columns
      rows := vss.map row
      fits := by
        intro r hr
        obtain ⟨vs, hvs, rfl⟩ := List.mem_map.mp hr
        exact hfits vs hvs
      distinct := List.pairwise_map.mpr hdistinct }
    exact ⟨_, _, row, t, hempty, hrow, ⟨rfl, rfl⟩, rfl⟩

/-- Two empty tables that can take their rows, one after the other. -/
theorem exists_inserts_two {ins ins' : Insertion} {columns columns' : List Column}
    {row row' : List SqlValue → List SqlValue} {vss vss' : List (List SqlValue)} {db : Database}
    (hne : ins'.table ≠ ins.table) (hempty : db ins.table = some (Table.empty columns))
    (hrow : ins.arrange columns = .ok row) (hempty' : db ins'.table = some (Table.empty columns'))
    (hrow' : ins'.arrange columns' = .ok row')
    (h : (∀ vs ∈ vss, Fits columns (row vs)) ∧
      vss.Pairwise fun v w => ¬ Clash columns (row v) (row w))
    (h' : (∀ vs ∈ vss', Fits columns' (row' vs)) ∧
      vss'.Pairwise fun v w => ¬ Clash columns' (row' v) (row' w)) :
    ∃ db₁ db₂, Inserts ins vss db db₁ ∧ Inserts ins' vss' db₁ db₂ := by
  obtain ⟨db₁, hdb₁⟩ := (exists_inserts_iff hempty hrow).mpr h
  obtain ⟨t, _, _, rfl⟩ := inserts_empty hempty hrow hdb₁
  have hkeep : Function.update db ins.table (some t) ins'.table = some (Table.empty columns') :=
    (Function.update_of_ne hne _ _).trans hempty'
  obtain ⟨db₂, hdb₂⟩ := (exists_inserts_iff hkeep hrow').mpr h'
  exact ⟨_, db₂, hdb₁, hdb₂⟩

/-- Rows with an integer key clash when the keys are repeated. -/
theorem pairwise_not_clash_iff {α : Type} {values : α → Except Throwable (List SqlValue)}
    {ident : α → Int32} {columns : List Column} {row : List SqlValue → List SqlValue}
    (hkey : ∀ info vs, values info = .ok vs → keyOf columns (row vs) = [int (ident info)])
    {infos : List α} {vss : List (List SqlValue)} (hvss : infos.mapM values = .ok vss) :
    (vss.Pairwise fun v w => ¬ Clash columns (row v) (row w)) ↔ (infos.map ident).Nodup := by
  have hkeys : (vss.map fun vs => keyOf columns (row vs)) =
      infos.map fun info => [int (ident info)] := map_eq_of_mapM_eq_ok hkey hvss
  have hkeyed : (vss.Pairwise fun v w => ¬ Clash columns (row v) (row w)) ↔
      (vss.map fun vs => keyOf columns (row vs)).Pairwise fun k k' => ¬ (k ≠ [] ∧ k = k') := by
    rw [List.pairwise_map]
    rfl
  rw [hkeyed, hkeys, List.pairwise_map, List.Nodup, List.pairwise_map]
  simp [int, Int32.toInt_inj]

/-- A generator of one table, on the empty table. -/
theorem generated_of_inserts {α : Type} {parse : JString → Except Throwable (Option α)}
    {values : α → Except Throwable (List SqlValue)} {row : α → Except Throwable NamedRow}
    {ins : Insertion} {columns : List Column} {arrange : List SqlValue → List SqlValue}
    (harrange : ins.arrange columns = .ok arrange)
    (hrow : ∀ info vs, values info = .ok vs →
      row info = .ok ((columns.map Column.name).zip (arrange vs)))
    {ls : List JString} {infos : List α} {vss : List (List SqlValue)} {db db' : Database}
    (hempty : db ins.table = some (Table.empty columns))
    (hinfos : collect parse ls = .ok infos) (hvss : infos.mapM values = .ok vss)
    (h : Inserts ins vss db db') :
    Generated parse row ins.table ls db' ∧ ∀ name ≠ ins.table, db' name = db name := by
  obtain ⟨t, hcolumns, hrows, rfl⟩ := inserts_empty hempty harrange h
  refine ⟨⟨vss.map fun vs => (columns.map Column.name).zip (arrange vs), ?_, ?_⟩, ?_⟩
  · unfold accepted
    rw [← eq_filterMap_of_collect hinfos]
    exact mapM_map_eq_ok hrow hvss
  · simp [Database.rows, Table.namedRows, hcolumns, hrows, Function.comp_def]
  · intro name hname
    exact Function.update_of_ne hname _ _

/-! ## Root rows -/

/-- How the named columns of the root insertion are arranged. -/
def arrangeRootPath (values : List SqlValue) : List SqlValue :=
  rootPathColumns.map fun c =>
    (([rootColumnAppId, rootColumnAppName, rootColumnRootPath, rootColumnAppType,
      rootColumnFileType, rootColumnClearType, rootColumnClearSuggestion,
      rootColumnRootFistPath].zip values).lookup c.name).getD c.default

theorem arrange_insertRootPath :
    insertRootPath.arrange rootPathColumns = .ok arrangeRootPath := by
  unfold Insertion.arrange insertRootPath
  exact if_pos (by decide)

/-- The root values under the names of the columns. -/
theorem rootPathRow_eq (info : RootPathInfo) (vs : List SqlValue)
    (h : rootPathValues p info = .ok vs) :
    rootPathRow p info = .ok ((rootPathColumns.map Column.name).zip (arrangeRootPath vs)) := by
  unfold rootPathValues at h
  unfold rootPathRow
  obtain ⟨rootPath, hrootPath, h⟩ := bind_eq_ok.mp h
  obtain ⟨first, hfirst, h⟩ := bind_eq_ok.mp h
  obtain rfl := Except.ok.inj h
  rw [hrootPath, hfirst]
  rfl

/-- The parameter values of a root row, whatever is stored for its path. -/
def IsRootRow (info : RootPathInfo) (vs : List SqlValue) : Prop :=
  ∃ rootPath first, vs = [int info.appId, .text (encryptText p info.appName), .text rootPath,
    int info.appType, int info.fileType, int info.clearType, int info.clearSuggestion,
    .text first]

theorem isRootRow_rootPathValues (info : RootPathInfo) (vs : List SqlValue)
    (h : rootPathValues p info = .ok vs) : IsRootRow p info vs := by
  unfold rootPathValues at h
  obtain ⟨rootPath, _, h⟩ := bind_eq_ok.mp h
  obtain ⟨first, _, h⟩ := bind_eq_ok.mp h
  exact ⟨rootPath, first, (Except.ok.inj h).symm⟩

variable {p} in
/-- The key of a root row is the application id. -/
theorem IsRootRow.keyOf {info : RootPathInfo} {vs : List SqlValue} (h : IsRootRow p info vs) :
    keyOf rootPathColumns (arrangeRootPath vs) = [int info.appId] := by
  obtain ⟨rootPath, first, rfl⟩ := h
  rfl

/-! ## Rows in the order of the columns -/

theorem arrange_insertAppPkgname : insertAppPkgname.arrange appPkgnameColumns = .ok id := rfl

theorem arrange_insertSubPath : insertSubPath.arrange subPathColumns = .ok id := rfl

theorem arrange_insertSubPathDescription :
    insertSubPathDescription.arrange subPathDescriptionColumns = .ok id := rfl

theorem arrange_insertAppInfo : insertAppInfo.arrange appInfoColumns = .ok id := rfl

theorem subPathRow_eq (info : SubPathInfo) (vs : List SqlValue)
    (h : subPathValues p info = .ok vs) :
    subPathRow p info = .ok ((subPathColumns.map Column.name).zip (id vs)) := by
  unfold subPathValues at h
  unfold subPathRow
  obtain ⟨subPath, hsubPath, h⟩ := bind_eq_ok.mp h
  obtain rfl := Except.ok.inj h
  rw [hsubPath]
  rfl

theorem descriptionRow_eq (info : TrashInfoDesc) (vs : List SqlValue)
    (h : descriptionValues p info = .ok vs) :
    descriptionRow p info = .ok ((subPathDescriptionColumns.map Column.name).zip (id vs)) := by
  obtain rfl := Except.ok.inj h
  rfl

theorem appInfoRow_eq (info : AppInfo) (vs : List SqlValue) (h : appInfoValues p info = .ok vs) :
    appInfoRow p info = .ok ((appInfoColumns.map Column.name).zip (id vs)) := by
  obtain rfl := Except.ok.inj h
  rfl

/-! ## The packages of different applications -/

/-- Different ids: the map holds every package list. -/
theorem packageMap_of_nodup {infos : List RootPathInfo}
    (h : (infos.map RootPathInfo.appId).Nodup) :
    packageMap infos = infos.map fun info => (info.appId, info.pkgs) := by
  have hloop : ∀ (infos : List RootPathInfo) (m : List (Int32 × List JString)),
      (m.map Prod.fst ++ infos.map RootPathInfo.appId).Nodup →
      infos.foldl (fun m info => put m info.appId info.pkgs) m =
        m ++ infos.map fun info => (info.appId, info.pkgs) := by
    intro infos
    induction infos with
    | nil => simp
    | cons info infos ih =>
        intro m hm
        have hnew : info.appId ∉ m.map Prod.fst := by
          intro hmem
          exact (List.disjoint_of_nodup_append hm) hmem (by simp)
        have hput : put m info.appId info.pkgs = m ++ [(info.appId, info.pkgs)] := if_neg hnew
        rw [List.foldl_cons, hput, ih _ (by simpa using hm)]
        simp
  simpa [packageMap] using hloop infos [] (by simpa using h)

/-- The rows of the package table, in whatever order the map lists its entries. -/
theorem perm_packageRows {infos : List RootPathInfo}
    (h : (infos.map RootPathInfo.appId).Nodup) :
    (((p.entrySet (packageMap infos)).flatMap packageValues).map fun vs =>
        (appPkgnameColumns.map Column.name).zip vs).Perm (infos.flatMap appPkgnameRows) := by
  have hperm := p.entrySet_perm (packageMap infos)
  rw [packageMap_of_nodup h] at hperm ⊢
  have hrows := (hperm.flatMap_right packageValues).map
    fun vs => (appPkgnameColumns.map Column.name).zip vs
  refine hrows.trans (List.Perm.of_eq ?_)
  rw [List.flatMap_map, List.map_flatMap]
  apply List.flatMap_congr
  intro info _
  simp [packageValues, appPkgnameRows, appPkgnameColumns, plainColumn, requiredColumn]

/-! ## Steps of a run -/

/-- The generators, in the order they run. -/
inductive Generator
  | root
  | sub
  | description
  | app
  deriving DecidableEq, Repr

namespace Generator

def all : List Generator := [root, sub, description, app]

def run : Generator → Option (List JString) → Jdbc Unit
  | root => genRootData p
  | sub => genSubData p
  | description => genSubPathDescription p
  | app => genAppInfo p

def file (files : LocalFiles) : Generator → Option InputFile
  | root => files.rootPath
  | sub => files.subPath
  | description => files.subPathDescription
  | app => files.appName

/-- The tables a generator fills. -/
def tables : Generator → List String
  | root => [tableRootPath, tableAppPkgname]
  | sub => [tableSubPath]
  | description => [tableSubPathDescription]
  | app => [tableAppInfo]

/-- The tables of a generator hold the rows of the given lines. -/
def Done (lines : List JString) (db : Database) : Generator → Prop
  | root => Generated parseRootPathLine (rootPathRow p) tableRootPath lines db ∧
      PackagesGenerated lines db
  | sub => Generated parseSubPath (subPathRow p) tableSubPath lines db
  | description =>
      Generated parseTrashInfoDesc (descriptionRow p) tableSubPathDescription lines db
  | app => Generated parseAppInfo (appInfoRow p) tableAppInfo lines db

/-- Whether a generator is done shows in its own tables. -/
theorem Done.congr {g : Generator} {lines : List JString} {db db' : Database}
    (h : ∀ name ∈ g.tables, db' name = db name) (hdone : g.Done p lines db) :
    g.Done p lines db' := by
  cases g with
  | root =>
      exact ⟨hdone.1.congr (h _ (by simp [tables])), hdone.2.congr (h _ (by simp [tables]))⟩
  | sub | description | app => exact Generated.congr (h _ (by simp [tables])) hdone

/-- No table belongs to two generators. -/
theorem tables_disjoint {g g' : Generator} (hne : g ≠ g') :
    ∀ name ∈ g.tables, name ∉ g'.tables := by
  cases g <;> cases g' <;> first | exact absurd rfl hne | decide

/-- The tables of the generators are the five tables. -/
theorem tables_subset (g : Generator) : ∀ name ∈ g.tables, name ∈ getDeleteTables := by
  cases g <;> decide

/-- **One generator on its empty tables**: it fills them from all of its lines
and changes no other table. -/
theorem run_ok {g : Generator} {lines : Option (List JString)} {prior db : Database}
    {c : Connection Database} (hempty : ∀ name ∈ g.tables, db name = createdFrom prior name)
    (h : g.run p lines (Connection.opened db) = .ok () c) :
    ∃ ls db', lines = some ls ∧ c = Connection.opened db' ∧ g.Done p ls db' ∧
      ∀ name ∉ g.tables, db' name = db name := by
  cases g with
  | root =>
      obtain ⟨ls, infos, vss, db₁, db₂, hls, hinfos, hvss, hroot, hpkgs, rfl⟩ :=
        (genRootData_iff p).mp h
      have hemptyRoot : db insertRootPath.table = some (Table.empty rootPathColumns) :=
        (hempty tableRootPath (by decide)).trans rfl
      have hdistinct :=
        ((exists_inserts_iff hemptyRoot arrange_insertRootPath).mp ⟨db₁, hroot⟩).2
      obtain ⟨hgenerated, hframe⟩ := generated_of_inserts arrange_insertRootPath
        (rootPathRow_eq p) hemptyRoot hinfos hvss hroot
      have hne : tableAppPkgname ≠ insertRootPath.table := by decide
      have hemptyPkg : db₁ insertAppPkgname.table = some (Table.empty appPkgnameColumns) :=
        (hframe _ hne).trans ((hempty tableAppPkgname (by decide)).trans rfl)
      obtain ⟨t', hcolumns', hrows', rfl⟩ :=
        inserts_empty hemptyPkg arrange_insertAppPkgname hpkgs
      have hnodup := (pairwise_not_clash_iff
        (fun info vs hvs => (isRootRow_rootPathValues p info vs hvs).keyOf) hvss).mp hdistinct
      refine ⟨ls, _, hls, rfl, ⟨?_, ?_⟩, ?_⟩
      · exact hgenerated.congr (Function.update_of_ne (Ne.symm hne) _ _)
      · have hperm := perm_packageRows p hnodup
        unfold PackagesGenerated accepted
        rw [← eq_filterMap_of_collect hinfos]
        simp only [Database.rows, insertAppPkgname, Function.update_self, Option.map_some,
          Table.namedRows, hcolumns', hrows', List.map_id]
        exact congrArg some (Multiset.coe_eq_coe.mpr hperm)
      · intro name hname
        simp only [tables, List.mem_cons, List.not_mem_nil, or_false, not_or] at hname
        exact (Function.update_of_ne hname.2 _ _).trans (hframe name hname.1)
  | sub =>
      obtain ⟨ls, infos, vss, db', hls, hinfos, hvss, hinserts, rfl⟩ := (genSubData_iff p).mp h
      have htable : db insertSubPath.table = some (Table.empty subPathColumns) :=
        (hempty tableSubPath (by decide)).trans rfl
      obtain ⟨hgenerated, hframe⟩ := generated_of_inserts arrange_insertSubPath (subPathRow_eq p)
        htable hinfos hvss hinserts
      exact ⟨ls, db', hls, rfl, hgenerated,
        fun name hname => hframe name (List.ne_of_not_mem_cons hname)⟩
  | description =>
      obtain ⟨ls, infos, vss, db', hls, hinfos, hvss, hinserts, rfl⟩ :=
        (genSubPathDescription_iff p).mp h
      have htable : db insertSubPathDescription.table =
          some (Table.empty subPathDescriptionColumns) :=
        (hempty tableSubPathDescription (by decide)).trans rfl
      obtain ⟨hgenerated, hframe⟩ := generated_of_inserts arrange_insertSubPathDescription
        (descriptionRow_eq p) htable hinfos hvss hinserts
      exact ⟨ls, db', hls, rfl, hgenerated,
        fun name hname => hframe name (List.ne_of_not_mem_cons hname)⟩
  | app =>
      obtain ⟨ls, infos, vss, db', hls, hinfos, hvss, hinserts, rfl⟩ := (genAppInfo_iff p).mp h
      have htable : db insertAppInfo.table = some (Table.empty appInfoColumns) :=
        (hempty tableAppInfo (by decide)).trans rfl
      obtain ⟨hgenerated, hframe⟩ := generated_of_inserts arrange_insertAppInfo (appInfoRow_eq p)
        htable hinfos hvss hinserts
      exact ⟨ls, db', hls, rfl, hgenerated,
        fun name hname => hframe name (List.ne_of_not_mem_cons hname)⟩

/-- When a generator throws, nothing has become durable. -/
theorem run_error {g : Generator} {lines : Option (List JString)} {c c' : Connection Database}
    {e : Throwable} (h : g.run p lines c = .error e c') : c'.durable = c.durable := by
  cases g with
  | root => exact genRootData_error p h
  | sub => exact insertLines_error h
  | description => exact insertLines_error h
  | app => exact insertLines_error h

end Generator

/-- The durable database after the generators in `done`: their tables are filled
from the lines of their files, the tables of the others are empty, and every
other table is as it was. -/
structure StepsDone (files : LocalFiles) (prior : Database) (done : List Generator)
    (db : Database) : Prop where
  filled : ∀ g ∈ done, ∃ lines, getLines (g.file files) = some lines ∧ g.Done p lines db
  empty : ∀ g ∉ done, ∀ name ∈ g.tables, db name = createdFrom prior name
  other : ∀ name ∉ getDeleteTables, db name = prior name

variable {p} {files : LocalFiles} {prior : Database}

theorem stepsDone_nil : StepsDone p files prior [] (createdFrom prior) where
  filled := by simp
  empty _ _ _ _ := rfl
  other _ h := createdFrom_of_not_mem h

/-- **Step.**  A generator that returns adds itself to what is done. -/
theorem StepsDone.step {done : List Generator} {db : Database} {g : Generator}
    {c : Connection Database} (hdone : StepsDone p files prior done db) (hg : g ∉ done)
    (h : g.run p (getLines (g.file files)) (Connection.opened db) = .ok () c) :
    ∃ db', c = Connection.opened db' ∧ StepsDone p files prior (done ++ [g]) db' := by
  obtain ⟨lines, db', hlines, rfl, hfilled, hframe⟩ := Generator.run_ok p (hdone.empty g hg) h
  refine ⟨db', rfl, ?_, ?_, ?_⟩
  · intro g' hg'
    rcases List.mem_append.mp hg' with hold | hnew
    · obtain ⟨lines', hlines', hfilled'⟩ := hdone.filled g' hold
      have hne : g' ≠ g := fun heq => hg (heq ▸ hold)
      exact ⟨lines', hlines', Generator.Done.congr p
        (fun name hname => hframe name (Generator.tables_disjoint hne name hname)) hfilled'⟩
    · obtain rfl : g' = g := List.mem_singleton.mp hnew
      exact ⟨lines, hlines, hfilled⟩
  · intro g' hg' name hname
    simp only [List.mem_append, List.mem_singleton, not_or] at hg'
    rw [hframe name (Generator.tables_disjoint hg'.2 name hname), hdone.empty g' hg'.1 name hname]
  · intro name hname
    have hown : name ∉ g.tables := fun hmem => hname (Generator.tables_subset g name hmem)
    rw [hframe name hown, hdone.other name hname]

/-- **Run.**  From what is done, the remaining generators either all return, or
some first ones do and nothing of the next becomes durable. -/
theorem StepsDone.run {todo done : List Generator} {db : Database}
    (hdone : StepsDone p files prior done db) (hnodup : (done ++ todo).Nodup) :
    (∀ c, (todo.forM fun g => g.run p (getLines (g.file files))) (Connection.opened db) = .ok () c →
        ∃ db', c = Connection.opened db' ∧ StepsDone p files prior (done ++ todo) db') ∧
      ∀ e c, (todo.forM fun g => g.run p (getLines (g.file files))) (Connection.opened db) =
          .error e c →
        ∃ k < todo.length, StepsDone p files prior (done ++ todo.take k) c.durable := by
  induction todo generalizing done db with
  | nil =>
      refine ⟨?_, ?_⟩
      · intro c h
        cases h
        exact ⟨db, rfl, by simpa using hdone⟩
      · intro e c h
        cases h
  | cons g todo ih =>
      have hg : g ∉ done := by
        intro hmem
        exact (List.disjoint_of_nodup_append hnodup) hmem (by simp)
      have hassoc : done ++ [g] ++ todo = done ++ g :: todo := by simp
      refine ⟨?_, ?_⟩
      · intro c h
        obtain ⟨_, c₁, hfirst, hrest⟩ := run_bind_ok.mp h
        obtain ⟨db₁, rfl, hdone₁⟩ := hdone.step hg hfirst
        obtain ⟨db', hc, hall⟩ := (ih hdone₁ (hassoc ▸ hnodup)).1 c hrest
        exact ⟨db', hc, hassoc ▸ hall⟩
      · intro e c h
        rcases run_bind_error.mp h with hfirst | ⟨_, c₁, hfirst, hrest⟩
        · have hkeep : c.durable = db := Generator.run_error p hfirst
          exact ⟨0, by simp, by simpa [hkeep] using hdone⟩
        · obtain ⟨db₁, rfl, hdone₁⟩ := hdone.step hg hfirst
          obtain ⟨k, hk, hsome⟩ := (ih hdone₁ (hassoc ▸ hnodup)).2 e c hrest
          refine ⟨k + 1, by simpa using hk, ?_⟩
          simpa using hsome

/-! ## Whole runs -/

/-- A generation is: create the tables anew, then the generators in order. -/
theorem genLocalData_eq (files : LocalFiles) :
    genLocalData p files = (do
      let _ ← (do
        let _ ← executeSqls (getDeleteTables.map Statement.dropTableIfExists)
        executeSqls getCreateTableSqls)
      Generator.all.forM fun g => g.run p (getLines (g.file files))) := by
  rw [bind_assoc]
  unfold genLocalData
  congr 1
  funext _
  congr 1
  funext _
  simp [Generator.all, Generator.run, Generator.file]

/-- **Every outcome of a generation**: a run that returns has done all
generators, a run that throws some first ones. -/
theorem genLocalData_outcome :
    (∀ c, genLocalData p files (Connection.opened prior) = .ok () c →
        ∃ db, c = Connection.opened db ∧ StepsDone p files prior Generator.all db) ∧
      ∀ e c, genLocalData p files (Connection.opened prior) = .error e c →
        ∃ k < 4, StepsDone p files prior (Generator.all.take k) c.durable := by
  have hnil : StepsDone p files prior [] (createdFrom prior) := stepsDone_nil
  have hrun := hnil.run (show ([] ++ Generator.all).Nodup by decide)
  have hrecreate := run_recreate prior
  rw [genLocalData_eq]
  refine ⟨?_, ?_⟩
  · intro c h
    obtain ⟨flag, c₁, hfirst, hrest⟩ := run_bind_ok.mp h
    obtain ⟨_, rfl⟩ := EStateM.Result.ok.inj (hrecreate.symm.trans hfirst)
    exact hrun.1 c hrest
  · intro e c h
    rcases run_bind_error.mp h with hfirst | ⟨flag, c₁, hfirst, hrest⟩
    · cases hrecreate.symm.trans hfirst
    · obtain ⟨_, rfl⟩ := EStateM.Result.ok.inj (hrecreate.symm.trans hfirst)
      exact hrun.2 e c hrest

/-- **Each step of a generation is all or nothing, the run is not.**  A run that
returns has filled the five tables from the lines that were delivered.  A run
that throws has emptied them all, filled those of some first generators, and
left the rest empty; other tables never change. -/
theorem genLocalData_steps (p : Platform) (files : LocalFiles) (prior : Database) :
    match genLocalData p files (Connection.opened prior) with
    | .ok _ c => StepsDone p files prior Generator.all c.durable
    | .error _ c => ∃ k < 4, StepsDone p files prior (Generator.all.take k) c.durable := by
  cases h : genLocalData p files (Connection.opened prior) with
  | ok u c =>
      obtain ⟨db, rfl, hdone⟩ := genLocalData_outcome.1 c h
      exact hdone
  | error e c => exact genLocalData_outcome.2 e c h

/-- A platform that lower-cases ASCII, encrypts nothing and keeps map entries in
the order of their insertion. -/
def plainPlatform : Platform where
  folding := asciiFolding
  jca := plainProvider
  entrySet entries := entries
  entrySet_perm _ := List.Perm.refl _

/-- A database in which the root table has one row. -/
def oneRootRow : Database := fun name =>
  if name = tableRootPath then
    some {
      columns := [keyColumn rootColumnAppId]
      rows := [[.integer 5]]
      fits := by decide
      distinct := List.pairwise_singleton _ _ }
  else none

/-- Without a file of root lines the run throws, and the old row is gone. -/
theorem genLocalData_throws_emptied :
    ∃ e c, genLocalData plainPlatform ⟨none, none, none, none⟩ (Connection.opened oneRootRow) =
        .error e c ∧
      c.durable.rows tableRootPath ≠ oneRootRow.rows tableRootPath := by
  have hthrow : genRootData plainPlatform none (Connection.opened (createdFrom oneRootRow)) =
      .error .nullPointer (Connection.opened (createdFrom oneRootRow)) := by
    rfl
  refine ⟨.nullPointer, Connection.opened (createdFrom oneRootRow), ?_, ?_⟩
  · rw [genLocalData_eq, run_bind_error]
    refine Or.inr ⟨true, _, run_recreate oneRootRow, ?_⟩
    exact run_bind_error.mpr (Or.inl hthrow)
  · intro h
    have hcount := congrArg (Option.map Multiset.card) h
    exact absurd hcount (by decide)

end TrashClear
