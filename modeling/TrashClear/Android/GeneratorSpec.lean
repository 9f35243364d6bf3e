import TrashClear.Android.DataBaseOp
import TrashClear.Completion

/-!
# What an Android generator does

A generator is a loop inside one transaction, so a run that returns has done what
the loop does, and everything is durable (`forEachLine_iff`).  On tables created
anew this gives, for each generator, when it returns and which rows it leaves:

* `genRootData_iff` and `genSubData_iff` are those of the desktop generator, with
  another root path column;
* `genSubPathDescription_iff` leaves the plain texts;
* `genAppInfo_iff`: it returns only when there is nothing to do, because the
  table of the descriptions has not the columns that it names.
-/

namespace TrashClear.Android

open Java Fields Run Store

variable (p : Platform)

/-! ## The loops -/

section Loop

variable {α : Type} {parse : JString → Except Throwable (Option α)}
  {insert : α → SQLiteDatabase Unit} {change : Database → α → Except Throwable Database}

/-- The body of the transaction of a generator. -/
def eachLine (parse : JString → Except Throwable (Option α)) (insert : α → SQLiteDatabase Unit)
    (lines : Option (List JString)) : SQLiteDatabase Unit := do
  let lines ← attempt (nonNull lines)
  lines.forM fun line => do
    match ← attempt (parse line) with
    | none => return
    | some info => insert info

theorem forEachLine_eq (lines : Option (List JString)) :
    forEachLine parse insert lines =
      Session.transaction .illegalState (eachLine parse insert lines) := rfl

/-- The change that the body makes. -/
def changeEach (parse : JString → Except Throwable (Option α))
    (change : Database → α → Except Throwable Database) (lines : Option (List JString))
    (db : Database) : Except Throwable Database :=
  nonNull lines >>= fun ls => ls.foldlM (readThen parse change) db

theorem acts_eachLine
    (hinsert : ∀ info, Acts Session.view Session.Inside (insert info) fun db => change db info)
    (lines : Option (List JString)) :
    Acts Session.view Session.Inside (eachLine parse insert lines)
      (changeEach parse change lines) :=
  acts_attempt_bind fun ls _ => Acts.forM inside_set (acts_readLine parse hinsert) ls

/-- The change is made when all lines are read and the loop over the records completes. -/
theorem changeEach_eq_ok {lines : Option (List JString)} {db db' : Database} :
    changeEach parse change lines db = .ok db' ↔
      ∃ ls infos, lines = some ls ∧ collect parse ls = .ok infos ∧
        infos.foldlM change db = .ok db' := by
  unfold changeEach
  simp only [bind_eq_ok, nonNull_eq_ok, foldlM_read_eq_ok]
  constructor
  · intro h
    obtain ⟨ls, hls, infos, hinfos, hloop⟩ := h
    exact ⟨ls, infos, hls, hinfos, hloop⟩
  · intro h
    obtain ⟨ls, infos, hls, hinfos, hloop⟩ := h
    exact ⟨ls, hls, infos, hinfos, hloop⟩

/-- **A transaction around a loop over lines** returns exactly when all lines are
read and the loop over the records completes. -/
theorem forEachLine_iff
    (hinsert : ∀ info, Acts Session.view Session.Inside (insert info) fun db => change db info)
    {lines : Option (List JString)} {db : Database} {s : Session Database} :
    forEachLine parse insert lines (Session.opened db) = .ok () s ↔
      ∃ ls infos db', lines = some ls ∧ collect parse ls = .ok infos ∧
        infos.foldlM change db = .ok db' ∧ s = Session.opened db' := by
  rw [forEachLine_eq, Session.run_transaction .illegalState (acts_eachLine hinsert lines)]
  simp only [changeEach_eq_ok]
  constructor
  · intro h
    obtain ⟨db', ⟨ls, infos, hls, hinfos, hloop⟩, rfl⟩ := h
    exact ⟨ls, infos, db', hls, hinfos, hloop, rfl⟩
  · intro h
    obtain ⟨ls, infos, db', hls, hinfos, hloop, rfl⟩ := h
    exact ⟨db', ⟨ls, infos, hls, hinfos, hloop⟩, rfl⟩

end Loop

/-- The values of a record without the names of their columns. -/
def rowValues {α : Type} (values : α → Except Throwable ContentValues) (info : α) :
    Except Throwable (List SqlValue) :=
  (values info).map (List.map Prod.snd)

section OneTable

variable {α : Type} {values : α → Except Throwable ContentValues} {ins : Insertion}
  {db db' : Database} {t : Table} {row : List SqlValue → List SqlValue}

/-- Inserting by name is the named insertion of the values. -/
theorem insertRow_eq (hins : ∀ info cv, values info = .ok cv → cv.insertion ins.table = ins)
    (info : α) (db : Database) :
    (values info >>= fun cv => insertRow ins.table cv db) =
      (rowValues values info >>= fun vs => ins.run vs db) := by
  unfold rowValues
  cases h : values info with
  | error e => rfl
  | ok cv =>
      show (cv.insertion ins.table).run _ db = ins.run _ db
      rw [hins info cv h]

/-- A loop that inserts one row for each record. -/
theorem foldlM_insertRow_iff
    (hins : ∀ info cv, values info = .ok cv → cv.insertion ins.table = ins)
    (ht : db ins.table = some t) (hrow : ins.arrange t.columns = .ok row) {infos : List α} :
    infos.foldlM (fun db info => values info >>= fun cv => insertRow ins.table cv db) db =
        .ok db' ↔
      ∃ vss, infos.mapM (rowValues values) = .ok vss ∧ Inserts ins vss db db' := by
  have hprepare : ins.prepare db = .ok () := prepare_eq_ok.mpr ⟨t, row, ht, hrow⟩
  simp only [insertRow_eq hins]
  rw [foldlM_value_eq_ok (rowValues values) fun db vs => ins.run vs db]
  simp only [← inserts_iff, hprepare, true_and]

end OneTable

/-! ## Sub paths -/

def insertSubPath : Insertion :=
  ⟨tableSubPath, some (subPathColumns.map Column.name), 8⟩

/-- The values in the order of the columns. -/
def arrangeSubPath (values : List SqlValue) : List SqlValue :=
  subPathColumns.map fun c =>
    (((subPathColumns.map Column.name).zip values).lookup c.name).getD c.default

theorem arrange_insertSubPath : insertSubPath.arrange subPathColumns = .ok arrangeSubPath := by
  unfold Insertion.arrange insertSubPath
  exact if_pos (by decide)

theorem acts_insertSub (info : SubPathInfo) :
    Acts Session.view Session.Inside
      (do insertOrThrow tableSubPath (← attempt (subPathValues p info)))
      (fun db => subPathValues p info >>= fun cv => insertRow tableSubPath cv db) :=
  acts_attempt_bind fun cv _ => acts_insertOrThrow tableSubPath cv

theorem insertion_subPathValues (info : SubPathInfo) (cv : ContentValues)
    (h : subPathValues p info = .ok cv) : cv.insertion insertSubPath.table = insertSubPath := by
  unfold subPathValues at h
  obtain ⟨subPath, _, h⟩ := bind_eq_ok.mp h
  obtain rfl := Except.ok.inj h
  rfl

theorem genSubData_iff {lines : Option (List JString)} {db : Database} {s : Session Database}
    (hempty : db insertSubPath.table = some (Table.empty subPathColumns)) :
    genSubData p lines (Session.opened db) = .ok () s ↔
      ∃ ls infos vss db', lines = some ls ∧ collect parseSubPath ls = .ok infos ∧
        infos.mapM (rowValues (subPathValues p)) = .ok vss ∧ Inserts insertSubPath vss db db' ∧
        s = Session.opened db' := by
  have hloop (infos : List SubPathInfo) (db' : Database) :
      infos.foldlM (fun db info => subPathValues p info >>= fun cv => insertRow tableSubPath cv db)
          db = .ok db' ↔
        ∃ vss, infos.mapM (rowValues (subPathValues p)) = .ok vss ∧
          Inserts insertSubPath vss db db' :=
    foldlM_insertRow_iff (insertion_subPathValues p) hempty arrange_insertSubPath
  unfold genSubData
  rw [forEachLine_iff (acts_insertSub p)]
  constructor
  · intro h
    obtain ⟨ls, infos, db', hls, hinfos, hfold, rfl⟩ := h
    obtain ⟨vss, hvss, hinserts⟩ := (hloop infos db').mp hfold
    exact ⟨ls, infos, vss, db', hls, hinfos, hvss, hinserts, rfl⟩
  · intro h
    obtain ⟨ls, infos, vss, db', hls, hinfos, hvss, hinserts, rfl⟩ := h
    exact ⟨ls, infos, db', hls, hinfos, (hloop infos db').mpr ⟨vss, hvss, hinserts⟩, rfl⟩

/-! ## Descriptions and application names -/

def insertSubPathDescription : Insertion :=
  ⟨tableSubPathDescription, some (subPathDescriptionColumns.map Column.name), 2⟩

def arrangeSubPathDescription (values : List SqlValue) : List SqlValue :=
  subPathDescriptionColumns.map fun c =>
    (((subPathDescriptionColumns.map Column.name).zip values).lookup c.name).getD c.default

theorem arrange_insertSubPathDescription :
    insertSubPathDescription.arrange subPathDescriptionColumns = .ok arrangeSubPathDescription := by
  unfold Insertion.arrange insertSubPathDescription
  exact if_pos (by decide)

/-- The values of a description row, as a computation that cannot fail. -/
def descriptionRowValues (info : TrashInfoDesc) : Except Throwable ContentValues :=
  .ok (descriptionValues info)

theorem genSubPathDescription_iff {lines : Option (List JString)} {db : Database}
    {s : Session Database}
    (hempty : db insertSubPathDescription.table =
      some (Table.empty subPathDescriptionColumns)) :
    genSubPathDescription lines (Session.opened db) = .ok () s ↔
      ∃ ls infos vss db', lines = some ls ∧ collect parseTrashInfoDesc ls = .ok infos ∧
        infos.mapM (rowValues descriptionRowValues) = .ok vss ∧
        Inserts insertSubPathDescription vss db db' ∧ s = Session.opened db' := by
  have hins (info : TrashInfoDesc) (cv : ContentValues) (h : descriptionRowValues info = .ok cv) :
      cv.insertion insertSubPathDescription.table = insertSubPathDescription := by
    obtain rfl := Except.ok.inj h
    rfl
  have hloop (infos : List TrashInfoDesc) (db' : Database) :
      infos.foldlM (fun db info => descriptionRowValues info >>= fun cv =>
          insertRow tableSubPathDescription cv db) db = .ok db' ↔
        ∃ vss, infos.mapM (rowValues descriptionRowValues) = .ok vss ∧
          Inserts insertSubPathDescription vss db db' :=
    foldlM_insertRow_iff hins hempty arrange_insertSubPathDescription
  have hacts (info : TrashInfoDesc) :
      Acts Session.view Session.Inside
        (insertOrThrow tableSubPathDescription (descriptionValues info))
        (fun db => descriptionRowValues info >>= fun cv =>
          insertRow tableSubPathDescription cv db) :=
    acts_insertOrThrow tableSubPathDescription (descriptionValues info)
  unfold genSubPathDescription
  rw [forEachLine_iff hacts]
  constructor
  · intro h'
    obtain ⟨ls, infos, db', hls, hinfos, hfold, rfl⟩ := h'
    obtain ⟨vss, hvss, hinserts⟩ := (hloop infos db').mp hfold
    exact ⟨ls, infos, vss, db', hls, hinfos, hvss, hinserts, rfl⟩
  · intro h'
    obtain ⟨ls, infos, vss, db', hls, hinfos, hvss, hinserts, rfl⟩ := h'
    exact ⟨ls, infos, db', hls, hinfos, (hloop infos db').mpr ⟨vss, hvss, hinserts⟩, rfl⟩

/-- The table of the descriptions has no column for an application. -/
theorem insertRow_appInfo {db : Database} {t : Table} (ht : db tableSubPathDescription = some t)
    (hcolumns : t.columns = subPathDescriptionColumns) (info : TrashInfoDesc) :
    insertRow tableSubPathDescription (appInfoValues info) db = .error (.sql .noSuchColumn) := by
  have harrange : ((appInfoValues info).insertion tableSubPathDescription).arrange
      subPathDescriptionColumns = .error (.sql .noSuchColumn) := by
    unfold Insertion.arrange ContentValues.insertion
    exact if_neg (by show ¬ ∀ name ∈ [apColumnAppId, apAppName], _; decide)
  have htable : db ((appInfoValues info).insertion tableSubPathDescription).table = some t := ht
  unfold insertRow Insertion.run
  simp only [htable, hcolumns, harrange]
  rfl

/-- **`genAppInfo` returns only when no line is accepted**: the first accepted line
throws. -/
theorem genAppInfo_iff {lines : Option (List JString)} {db : Database} {s : Session Database}
    {t : Table} (ht : db tableSubPathDescription = some t)
    (hcolumns : t.columns = subPathDescriptionColumns) :
    genAppInfo lines (Session.opened db) = .ok () s ↔
      ∃ ls, lines = some ls ∧ collect parseTrashInfoDesc ls = .ok [] ∧ s = Session.opened db := by
  unfold genAppInfo
  rw [forEachLine_iff fun info =>
    acts_insertOrThrow tableSubPathDescription (appInfoValues info)]
  constructor
  · intro h
    obtain ⟨ls, infos, db', hls, hinfos, hfold, rfl⟩ := h
    cases infos with
    | nil =>
        obtain rfl := Except.ok.inj hfold
        exact ⟨ls, hls, hinfos, rfl⟩
    | cons info infos =>
        rw [List.foldlM_cons, insertRow_appInfo ht hcolumns] at hfold
        cases hfold
  · intro h
    obtain ⟨ls, hls, hinfos, rfl⟩ := h
    exact ⟨ls, [], db, hls, hinfos, rfl, rfl⟩

/-! ## Root paths and packages -/

def insertAppPkgname : Insertion :=
  ⟨tableAppPkgname, some (appPkgnameColumns.map Column.name), 2⟩

def arrangeAppPkgname (values : List SqlValue) : List SqlValue :=
  appPkgnameColumns.map fun c =>
    (((appPkgnameColumns.map Column.name).zip values).lookup c.name).getD c.default

theorem arrange_insertAppPkgname :
    insertAppPkgname.arrange appPkgnameColumns = .ok arrangeAppPkgname := by
  unfold Insertion.arrange insertAppPkgname
  exact if_pos (by decide)

/-- The change that one root record makes. -/
def changeRoot (db : Database) (info : RootPathInfo) : Except Throwable Database :=
  rootPathValues p info >>= fun cv =>
    insertRow tableRootPath cv db >>= fun db =>
      info.pkgs.foldlM (fun db pkg => insertRow tableAppPkgname (pkgValues info pkg) db) db

theorem acts_insertRoot (info : RootPathInfo) :
    Acts Session.view Session.Inside (insertRoot p info) (fun db => changeRoot p db info) :=
  acts_attempt_bind fun cv _ =>
    Acts.bind inside_set (acts_insertOrThrow tableRootPath cv)
      (Acts.forM inside_set (fun pkg => acts_insertOrThrow tableAppPkgname (pkgValues info pkg))
        info.pkgs)

/-- The values of the rows of one root record. -/
def rootRecordValues (info : RootPathInfo) :
    Except Throwable (List SqlValue × List (List SqlValue)) :=
  (rowValues (rootPathValues p) info).map fun vs => (vs, packageValues (info.appId, info.pkgs))

/-- A root row, and rows of packages. -/
def fillBoth (db : Database) (r : List SqlValue × List (List SqlValue)) :
    Except Throwable Database :=
  insertRootPath.run r.1 db >>= fun db => r.2.foldlM (fun db vs => insertAppPkgname.run vs db) db

/-- One turn of the loop over the root records fills two tables. -/
theorem changeRoot_eq (db : Database) (info : RootPathInfo) :
    changeRoot p db info = rootRecordValues p info >>= fillBoth db := by
  have hpkgs (db : Database) :
      info.pkgs.foldlM (fun db pkg => insertRow tableAppPkgname (pkgValues info pkg) db) db =
        (packageValues (info.appId, info.pkgs)).foldlM
          (fun db vs => insertAppPkgname.run vs db) db := by
    unfold packageValues
    rw [List.foldlM_map]
    rfl
  have hins (cv : ContentValues) (h : rootPathValues p info = .ok cv) :
      cv.insertion tableRootPath = insertRootPath := by
    unfold rootPathValues at h
    obtain ⟨rootPath, _, h⟩ := bind_eq_ok.mp h
    obtain ⟨first, _, h⟩ := bind_eq_ok.mp h
    obtain rfl := Except.ok.inj h
    rfl
  unfold changeRoot rootRecordValues rowValues
  simp only [hpkgs]
  cases h : rootPathValues p info with
  | error e => rfl
  | ok cv =>
      show (cv.insertion tableRootPath).run _ db >>= _ = insertRootPath.run _ db >>= _
      rw [hins cv h]

theorem genRootData_iff {lines : Option (List JString)} {db : Database} {s : Session Database}
    (hroot : db insertRootPath.table = some (Table.empty rootPathColumns))
    (hpkgs : db insertAppPkgname.table = some (Table.empty appPkgnameColumns)) :
    genRootData p lines (Session.opened db) = .ok () s ↔
      ∃ ls infos vss db₁ db₂, lines = some ls ∧ collect parseRootPathLine ls = .ok infos ∧
        infos.mapM (rowValues (rootPathValues p)) = .ok vss ∧
        Inserts insertRootPath vss db db₁ ∧
        Inserts insertAppPkgname
          (infos.flatMap fun info => packageValues (info.appId, info.pkgs)) db₁ db₂ ∧
        s = Session.opened db₂ := by
  have hloop (infos : List RootPathInfo) (db₂ : Database) :
      infos.foldlM (changeRoot p) db = .ok db₂ ↔
        ∃ vss db₁, infos.mapM (rowValues (rootPathValues p)) = .ok vss ∧
          Inserts insertRootPath vss db db₁ ∧
          Inserts insertAppPkgname
            (infos.flatMap fun info => packageValues (info.appId, info.pkgs)) db₁ db₂ := by
    have hturn : changeRoot p = fun db info => rootRecordValues p info >>= fillBoth db :=
      funext₂ (changeRoot_eq p)
    have hfill (rs : List (List SqlValue × List (List SqlValue))) :
        rs.foldlM fillBoth db = .ok db₂ ↔ ∃ db₁, Inserts insertRootPath (rs.map Prod.fst) db db₁ ∧
          Inserts insertAppPkgname (rs.flatMap Prod.snd) db₁ db₂ :=
      foldlM_run_two_iff (by decide) hroot arrange_insertRootPath hpkgs arrange_insertAppPkgname
    have hparts (rs : List (List SqlValue × List (List SqlValue)))
        (hrs : infos.mapM (rootRecordValues p) = .ok rs) :
        infos.mapM (rowValues (rootPathValues p)) = .ok (rs.map Prod.fst) ∧
          rs.flatMap Prod.snd =
            infos.flatMap fun info => packageValues (info.appId, info.pkgs) := by
      refine ⟨mapM_map_eq_ok (fun info r hr => ?_) hrs, ?_⟩
      · obtain ⟨vs, hvs, rfl⟩ := map_eq_ok.mp hr
        exact hvs
      · rw [List.flatMap_def, List.flatMap_def]
        refine congrArg List.flatten (map_eq_of_mapM_eq_ok (fun info r hr => ?_) hrs)
        obtain ⟨vs, _, rfl⟩ := map_eq_ok.mp hr
        rfl
    rw [hturn, foldlM_value_eq_ok (rootRecordValues p) fillBoth]
    simp only [hfill]
    constructor
    · intro h
      obtain ⟨rs, hrs, db₁, hrows, hpackages⟩ := h
      obtain ⟨hvss, hflat⟩ := hparts rs hrs
      exact ⟨_, db₁, hvss, hrows, hflat ▸ hpackages⟩
    · intro h
      obtain ⟨vss, db₁, hvss, hrows, hpackages⟩ := h
      obtain ⟨rs, hrs⟩ : ∃ rs, infos.mapM (rootRecordValues p) = .ok rs := by
        refine exists_mapM_eq_ok.mpr fun info hinfo => ?_
        obtain ⟨vs, hvs⟩ := exists_mapM_eq_ok.mp ⟨vss, hvss⟩ info hinfo
        exact ⟨_, map_eq_ok.mpr ⟨vs, hvs, rfl⟩⟩
      obtain ⟨hvss', hflat⟩ := hparts rs hrs
      obtain rfl := Except.ok.inj (hvss.symm.trans hvss')
      exact ⟨rs, hrs, db₁, hrows, hflat.symm ▸ hpackages⟩
  unfold genRootData
  rw [forEachLine_iff (acts_insertRoot p)]
  constructor
  · intro h
    obtain ⟨ls, infos, db₂, hls, hinfos, hfold, rfl⟩ := h
    obtain ⟨vss, db₁, hvss, hrows, hpackages⟩ := (hloop infos db₂).mp hfold
    exact ⟨ls, infos, vss, db₁, db₂, hls, hinfos, hvss, hrows, hpackages, rfl⟩
  · intro h
    obtain ⟨ls, infos, vss, db₁, db₂, hls, hinfos, hvss, hrows, hpackages, rfl⟩ := h
    exact ⟨ls, infos, db₂, hls, hinfos, (hloop infos db₂).mpr ⟨vss, db₁, hvss, hrows, hpackages⟩,
      rfl⟩

/-! ## The rows that are left -/

def rootPathRow (info : RootPathInfo) : Except Throwable NamedRow := do
  let rootPath ← encrypt p.folding (md5 p) (some info.appRootPath) (desKey p)
  let first ← firstPath p info.appRootPath
  return [(rootColumnAppId, int info.appId),
    (rootColumnAppName, .text (encryptText p info.appName)),
    (rootColumnRootPath, .text rootPath),
    (rootColumnRootFistPath, .text first),
    (rootColumnAppType, int info.appType),
    (rootColumnFileType, int info.fileType),
    (rootColumnClearType, int info.clearType),
    (rootColumnClearSuggestion, int info.clearSuggestion)]

def descriptionRow (info : TrashInfoDesc) : Except Throwable NamedRow :=
  return [(descColumnDescId, int info.id), (descColumnSupPathDescription, .text info.text)]

theorem isRootRow_rowValues (info : RootPathInfo) (vs : List SqlValue)
    (h : rowValues (rootPathValues p) info = .ok vs) : IsRootRow p info vs := by
  obtain ⟨cv, hcv, rfl⟩ := map_eq_ok.mp h
  unfold rootPathValues at hcv
  obtain ⟨rootPath, _, hcv⟩ := bind_eq_ok.mp hcv
  obtain ⟨first, _, hcv⟩ := bind_eq_ok.mp hcv
  obtain rfl := Except.ok.inj hcv
  exact ⟨rootPath, first, rfl⟩

theorem rootPathRow_eq (info : RootPathInfo) (vs : List SqlValue)
    (h : rowValues (rootPathValues p) info = .ok vs) :
    rootPathRow p info = .ok ((rootPathColumns.map Column.name).zip (arrangeRootPath vs)) := by
  obtain ⟨cv, hcv, rfl⟩ := map_eq_ok.mp h
  unfold rootPathValues at hcv
  unfold rootPathRow
  obtain ⟨rootPath, hrootPath, hcv⟩ := bind_eq_ok.mp hcv
  obtain ⟨first, hfirst, hcv⟩ := bind_eq_ok.mp hcv
  obtain rfl := Except.ok.inj hcv
  rw [hrootPath, hfirst]
  rfl

theorem subPathRow_eq (info : SubPathInfo) (vs : List SqlValue)
    (h : rowValues (subPathValues p) info = .ok vs) :
    subPathRow p info = .ok ((subPathColumns.map Column.name).zip (arrangeSubPath vs)) := by
  obtain ⟨cv, hcv, rfl⟩ := map_eq_ok.mp h
  unfold subPathValues at hcv
  unfold subPathRow
  obtain ⟨subPath, hsubPath, hcv⟩ := bind_eq_ok.mp hcv
  obtain rfl := Except.ok.inj hcv
  rw [hsubPath]
  rfl

theorem descriptionRow_eq (info : TrashInfoDesc) (vs : List SqlValue)
    (h : rowValues descriptionRowValues info = .ok vs) :
    descriptionRow info = .ok
      ((subPathDescriptionColumns.map Column.name).zip (arrangeSubPathDescription vs)) := by
  obtain ⟨cv, hcv, rfl⟩ := map_eq_ok.mp h
  obtain rfl := Except.ok.inj hcv
  rfl

theorem genRootData_ok {lines : Option (List JString)} {prior db : Database}
    {s : Session Database}
    (hempty : ∀ name ∈ Generator.root.tables, db name = createdFrom prior name)
    (h : genRootData p lines (Session.opened db) = .ok () s) :
    ∃ ls db', lines = some ls ∧ s = Session.opened db' ∧
      Generated parseRootPathLine (rootPathRow p) tableRootPath ls db' ∧
      PackagesGenerated ls db' ∧ ∀ name ∉ Generator.root.tables, db' name = db name := by
  have hroot : db insertRootPath.table = some (Table.empty rootPathColumns) :=
    (hempty tableRootPath (by decide)).trans rfl
  have hpkgs : db insertAppPkgname.table = some (Table.empty appPkgnameColumns) :=
    (hempty tableAppPkgname (by decide)).trans rfl
  obtain ⟨ls, infos, vss, db₁, db₂, hls, hinfos, hvss, hrows, hpackages, rfl⟩ :=
    (genRootData_iff p hroot hpkgs).mp h
  obtain ⟨hgenerated, hframe⟩ := generated_of_inserts arrange_insertRootPath (rootPathRow_eq p)
    hroot hinfos hvss hrows
  have hne : insertAppPkgname.table ≠ insertRootPath.table := by decide
  obtain ⟨t, hcolumns, htrows, rfl⟩ := inserts_empty ((hframe _ hne).trans hpkgs)
    arrange_insertAppPkgname hpackages
  refine ⟨ls, _, hls, rfl, hgenerated.congr (Function.update_of_ne hne.symm _ _), ?_, ?_⟩
  · have hself : Function.update db₁ insertAppPkgname.table (some t) tableAppPkgname = some t :=
      Function.update_self _ _ _
    unfold PackagesGenerated Database.rows accepted
    rw [← eq_filterMap_of_collect hinfos, hself, Option.map_some, Table.namedRows, hcolumns,
      htrows, List.map_map, List.map_flatMap]
    refine congrArg (fun rows : List NamedRow => some (rows : Multiset NamedRow))
      (List.flatMap_congr fun info _ => ?_)
    unfold packageValues appPkgnameRows
    rw [List.map_map]
    rfl
  · intro name hname
    simp only [Generator.tables, List.mem_cons, List.not_mem_nil, or_false, not_or] at hname
    exact (Function.update_of_ne hname.2 _ _).trans (hframe name hname.1)

theorem genSubData_ok {lines : Option (List JString)} {prior db : Database}
    {s : Session Database}
    (hempty : ∀ name ∈ Generator.sub.tables, db name = createdFrom prior name)
    (h : genSubData p lines (Session.opened db) = .ok () s) :
    ∃ ls db', lines = some ls ∧ s = Session.opened db' ∧
      Generated parseSubPath (subPathRow p) tableSubPath ls db' ∧
      ∀ name ∉ Generator.sub.tables, db' name = db name := by
  have htable : db insertSubPath.table = some (Table.empty subPathColumns) :=
    (hempty tableSubPath (by decide)).trans rfl
  obtain ⟨ls, infos, vss, db', hls, hinfos, hvss, hinserts, rfl⟩ :=
    (genSubData_iff p htable).mp h
  obtain ⟨hgenerated, hframe⟩ := generated_of_inserts arrange_insertSubPath (subPathRow_eq p)
    htable hinfos hvss hinserts
  exact ⟨ls, db', hls, rfl, hgenerated,
    fun name hname => hframe name (List.ne_of_not_mem_cons hname)⟩

theorem genSubPathDescription_ok {lines : Option (List JString)} {prior db : Database}
    {s : Session Database}
    (hempty : ∀ name ∈ Generator.description.tables, db name = createdFrom prior name)
    (h : genSubPathDescription lines (Session.opened db) = .ok () s) :
    ∃ ls db' t, lines = some ls ∧ s = Session.opened db' ∧
      Generated parseTrashInfoDesc descriptionRow tableSubPathDescription ls db' ∧
      db' tableSubPathDescription = some t ∧ t.columns = subPathDescriptionColumns ∧
      ∀ name ∉ Generator.description.tables, db' name = db name := by
  have htable : db insertSubPathDescription.table =
      some (Table.empty subPathDescriptionColumns) :=
    (hempty tableSubPathDescription (by decide)).trans rfl
  obtain ⟨ls, infos, vss, db', hls, hinfos, hvss, hinserts, rfl⟩ :=
    (genSubPathDescription_iff htable).mp h
  obtain ⟨hgenerated, hframe⟩ := generated_of_inserts arrange_insertSubPathDescription
    descriptionRow_eq htable hinfos hvss hinserts
  obtain ⟨t, hcolumns, _, rfl⟩ := inserts_empty htable arrange_insertSubPathDescription hinserts
  exact ⟨ls, _, t, hls, rfl, hgenerated, Function.update_self _ _ _, hcolumns,
    fun name hname => hframe name (List.ne_of_not_mem_cons hname)⟩

/-! ## Readable lines suffice -/

theorem genRootData_returns {lines : Option (List JString)} {prior db : Database}
    (hempty : ∀ name ∈ Generator.root.tables, db name = createdFrom prior name)
    (hread : ∃ ls, lines = some ls ∧ Generator.root.Readable ls) :
    ∃ s, genRootData p lines (Session.opened db) = .ok () s := by
  have hroot : db insertRootPath.table = some (Table.empty rootPathColumns) :=
    (hempty tableRootPath (by decide)).trans rfl
  have hpkgs : db insertAppPkgname.table = some (Table.empty appPkgnameColumns) :=
    (hempty tableAppPkgname (by decide)).trans rfl
  obtain ⟨ls, rfl, infos, hinfos, hnodup, hslash⟩ := hread
  obtain ⟨vss, hvss⟩ : ∃ vss, infos.mapM (rowValues (rootPathValues p)) = .ok vss := by
    refine exists_mapM_eq_ok.mpr fun info hinfo => ?_
    unfold rowValues rootPathValues
    rw [encrypt_desKey, firstPath_eq p (hslash info hinfo)]
    exact ⟨_, rfl⟩
  have hfits : ∀ vs ∈ infos.flatMap fun info => packageValues (info.appId, info.pkgs),
      Fits appPkgnameColumns (arrangeAppPkgname vs) := by
    intro vs hvs
    obtain ⟨info, _, hvs⟩ := List.mem_flatMap.mp hvs
    obtain ⟨pkg, _, rfl⟩ := List.mem_map.mp hvs
    refine fits_of_ne_null rfl ?_
    show ∀ v ∈ [int info.appId, .text pkg], v ≠ .null
    simp [int]
  obtain ⟨db₁, db₂, hdb₁, hdb₂⟩ := exists_inserts_two (by decide) hroot arrange_insertRootPath
    hpkgs arrange_insertAppPkgname (root_rows_ok p (isRootRow_rowValues p) hvss hnodup)
    ⟨hfits, List.pairwise_of_forall fun _ _ => not_clash_of_no_key (by decide) _ _⟩
  exact ⟨_, (genRootData_iff p hroot hpkgs).mpr
    ⟨ls, infos, vss, db₁, db₂, rfl, hinfos, hvss, hdb₁, hdb₂, rfl⟩⟩

theorem genSubData_returns {lines : Option (List JString)} {prior db : Database}
    (hempty : ∀ name ∈ Generator.sub.tables, db name = createdFrom prior name)
    (hread : ∃ ls, lines = some ls ∧ Generator.sub.Readable ls) :
    ∃ s, genSubData p lines (Session.opened db) = .ok () s := by
  have htable : db insertSubPath.table = some (Table.empty subPathColumns) :=
    (hempty tableSubPath (by decide)).trans rfl
  obtain ⟨ls, rfl, infos, hinfos⟩ := hread
  obtain ⟨vss, hvss⟩ : ∃ vss, infos.mapM (rowValues (subPathValues p)) = .ok vss := by
    refine exists_mapM_eq_ok.mpr fun info _ => ?_
    unfold rowValues subPathValues
    rw [allPathMD5_eq]
    exact ⟨_, rfl⟩
  have hfits : ∀ vs ∈ vss, Fits subPathColumns (arrangeSubPath vs) := by
    refine forall_of_mapM_eq_ok (fun info vs hvs => ?_) hvss
    obtain ⟨cv, hcv, rfl⟩ := map_eq_ok.mp hvs
    unfold subPathValues at hcv
    obtain ⟨subPath, _, hcv⟩ := bind_eq_ok.mp hcv
    obtain rfl := Except.ok.inj hcv
    refine fits_of_ne_null rfl ?_
    show ∀ v ∈ [int info.appId, int _, .text subPath, int _, int _, int _, int _, int _], v ≠ .null
    simp [int]
  obtain ⟨db', hdb'⟩ := (exists_inserts_iff htable arrange_insertSubPath).mpr
    ⟨hfits, List.pairwise_of_forall fun _ _ => not_clash_of_no_key (by decide) _ _⟩
  exact ⟨_, (genSubData_iff p htable).mpr ⟨ls, infos, vss, db', rfl, hinfos, hvss, hdb', rfl⟩⟩

theorem genSubPathDescription_returns {lines : Option (List JString)} {prior db : Database}
    (hempty : ∀ name ∈ Generator.description.tables, db name = createdFrom prior name)
    (hread : ∃ ls, lines = some ls ∧ Generator.description.Readable ls) :
    ∃ s, genSubPathDescription lines (Session.opened db) = .ok () s := by
  have htable : db insertSubPathDescription.table =
      some (Table.empty subPathDescriptionColumns) :=
    (hempty tableSubPathDescription (by decide)).trans rfl
  obtain ⟨ls, rfl, infos, hinfos, hnodup⟩ := hread
  obtain ⟨vss, hvss⟩ : ∃ vss, infos.mapM (rowValues descriptionRowValues) = .ok vss :=
    exists_mapM_eq_ok.mpr fun info _ => ⟨_, rfl⟩
  have hrow (info : TrashInfoDesc) (vs : List SqlValue)
      (hvs : rowValues descriptionRowValues info = .ok vs) :
      arrangeSubPathDescription vs = [int info.id, .text info.text] := by
    obtain rfl := Except.ok.inj hvs
    rfl
  have hfits : ∀ vs ∈ vss, Fits subPathDescriptionColumns (arrangeSubPathDescription vs) := by
    refine forall_of_mapM_eq_ok (fun info vs hvs => ?_) hvss
    rw [hrow info vs hvs]
    exact fits_of_ne_null rfl (by simp [int])
  have hkey (info : TrashInfoDesc) (vs : List SqlValue)
      (hvs : rowValues descriptionRowValues info = .ok vs) :
      keyOf subPathDescriptionColumns (arrangeSubPathDescription vs) = [int info.id] := by
    rw [hrow info vs hvs]
    rfl
  have hdistinct := (pairwise_not_clash_iff hkey hvss).mpr hnodup
  obtain ⟨db', hdb'⟩ := (exists_inserts_iff htable arrange_insertSubPathDescription).mpr
    ⟨hfits, hdistinct⟩
  exact ⟨_, (genSubPathDescription_iff htable).mpr
    ⟨ls, infos, vss, db', rfl, hinfos, hvss, hdb', rfl⟩⟩

end TrashClear.Android
