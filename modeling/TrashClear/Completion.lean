import TrashClear.Generation

/-!
# When a generation returns

A generator on its empty tables returns exactly when its file is there and its
lines are `Readable`: no line makes the parser throw, keys are not repeated, and
every root path has a character other than `/` (`Generator.returns_iff`).  So a
whole generation returns exactly when all four files are readable
(`genLocalData_returns_iff`), and then the five tables hold the rows of the
accepted lines (`genLocalData_rows`).

That is for files that are read to their end: reading a file that fails is taken
for the end of the file (`not_generated_cutFiles`).
-/

namespace TrashClear

open Java Fields Run Store

variable (p : Platform)

/-! ## The values of a row -/

/-- A row without null fits every table of its length. -/
theorem fits_of_ne_null {columns : List Column} {row : List SqlValue}
    (hlen : row.length = columns.length) (h : ∀ v ∈ row, v ≠ .null) : Fits columns row :=
  ⟨hlen, fun cell hcell _ => h cell.2 (List.of_mem_zip hcell).2⟩

/-- Without key columns nothing clashes. -/
theorem not_clash_of_no_key {columns : List Column} (h : ∀ c ∈ columns, c.primaryKey = false)
    (r s : List SqlValue) : ¬ Clash columns r s := by
  have hkey : keyOf columns r = [] := by
    unfold keyOf
    rw [List.map_eq_nil_iff, List.filter_eq_nil_iff]
    intro cell hcell
    simp [h cell.1 (List.of_mem_zip hcell).1]
  exact fun hclash => hclash.1 hkey

/-- A path with a character other than `/` has its two columns. -/
theorem exists_rootPathValues {info : RootPathInfo} (h : ∃ u ∈ info.appRootPath, u ≠ slash) :
    ∃ vs, rootPathValues p info = .ok vs := by
  unfold rootPathValues
  rw [allPathMD5_eq, firstPath_eq p h]
  exact ⟨_, rfl⟩

/-- A path of slashes alone has no first path. -/
theorem rootPathValues_of_slashes {info : RootPathInfo} (hne : info.appRootPath ≠ [])
    (h : ∀ u ∈ info.appRootPath, u = slash) :
    rootPathValues p info = .error .arrayIndexOutOfBounds := by
  unfold rootPathValues
  rw [allPathMD5_eq, firstPath_of_slashes p hne h]
  rfl

variable {p} in
theorem IsRootRow.fits {info : RootPathInfo} {vs : List SqlValue} (h : IsRootRow p info vs) :
    Fits rootPathColumns (arrangeRootPath vs) := by
  obtain ⟨rootPath, first, rfl⟩ := h
  refine fits_of_ne_null rfl ?_
  show ∀ v ∈ [int info.appId, .text _, .text rootPath, .text first, int _, int _, int _, int _],
    v ≠ .null
  simp [int]

theorem exists_subPathValues (info : SubPathInfo) : ∃ vs, subPathValues p info = .ok vs := by
  unfold subPathValues
  rw [allPathMD5_eq]
  exact ⟨_, rfl⟩

theorem fits_subPath (info : SubPathInfo) (vs : List SqlValue)
    (h : subPathValues p info = .ok vs) : Fits subPathColumns vs := by
  unfold subPathValues at h
  obtain ⟨subPath, _, h⟩ := bind_eq_ok.mp h
  obtain rfl := Except.ok.inj h
  exact fits_of_ne_null rfl (by simp [int])

theorem fits_description (info : TrashInfoDesc) (vs : List SqlValue)
    (h : descriptionValues p info = .ok vs) : Fits subPathDescriptionColumns vs := by
  obtain rfl := Except.ok.inj h
  exact fits_of_ne_null rfl (by simp [int])

theorem fits_appInfo (info : AppInfo) (vs : List SqlValue)
    (h : appInfoValues p info = .ok vs) : Fits appInfoColumns vs := by
  obtain rfl := Except.ok.inj h
  exact fits_of_ne_null rfl (by simp [int])

theorem fits_appPkgname {infos : List (Int32 × List JString)} {vs : List SqlValue}
    (h : vs ∈ infos.flatMap packageValues) : Fits appPkgnameColumns vs := by
  obtain ⟨entry, _, hvs⟩ := List.mem_flatMap.mp h
  obtain ⟨pkg, _, rfl⟩ := List.mem_map.mp hvs
  exact fits_of_ne_null rfl (by simp [int])

theorem keyOf_description (info : TrashInfoDesc) (vs : List SqlValue)
    (h : descriptionValues p info = .ok vs) :
    keyOf subPathDescriptionColumns (id vs) = [int info.id] := by
  obtain rfl := Except.ok.inj h
  rfl

/-! ## One generator -/

/-- The lines that a generator can take into its empty tables. -/
def Generator.Readable (lines : List JString) : Generator → Prop
  | .root => ∃ infos, collect parseRootPathLine lines = .ok infos ∧
      (infos.map RootPathInfo.appId).Nodup ∧ ∀ info ∈ infos, ∃ u ∈ info.appRootPath, u ≠ slash
  | .sub => ∃ infos, collect parseSubPath lines = .ok infos
  | .description => ∃ infos, collect parseTrashInfoDesc lines = .ok infos ∧
      (infos.map TrashInfoDesc.id).Nodup
  | .app => ∃ infos, collect parseAppInfo lines = .ok infos

/-- A root path whose values were found has a character other than `/`. -/
theorem exists_ne_slash {lines : List JString} {infos : List RootPathInfo}
    {vss : List (List SqlValue)} (hinfos : collect parseRootPathLine lines = .ok infos)
    (hvss : infos.mapM (rootPathValues p) = .ok vss) :
    ∀ info ∈ infos, ∃ u ∈ info.appRootPath, u ≠ slash := by
  intro info hinfo
  by_contra hslashes
  push Not at hslashes
  obtain ⟨line, _, hline⟩ := exists_of_mem_collect hinfos hinfo
  obtain ⟨vs, hvs⟩ := exists_mapM_eq_ok.mp ⟨vss, hvss⟩ info hinfo
  rw [rootPathValues_of_slashes p (appRootPath_ne_nil hline) hslashes] at hvs
  cases hvs

/-- Root rows of different applications fit the root table. -/
theorem root_rows_ok {values : RootPathInfo → Except Throwable (List SqlValue)}
    (hvalues : ∀ info vs, values info = .ok vs → IsRootRow p info vs)
    {infos : List RootPathInfo} {vss : List (List SqlValue)}
    (hvss : infos.mapM values = .ok vss) (hnodup : (infos.map RootPathInfo.appId).Nodup) :
    (∀ vs ∈ vss, Fits rootPathColumns (arrangeRootPath vs)) ∧
      vss.Pairwise fun v w => ¬ Clash rootPathColumns (arrangeRootPath v) (arrangeRootPath w) :=
  ⟨forall_of_mapM_eq_ok (fun info vs hvs => (hvalues info vs hvs).fits) hvss,
    (pairwise_not_clash_iff (fun info vs hvs => (hvalues info vs hvs).keyOf) hvss).mpr hnodup⟩

/-- **A generator on its empty tables** returns exactly when its file is there
and its lines are readable. -/
theorem Generator.returns_iff {g : Generator} {lines : Option (List JString)}
    {prior db : Database} (hempty : ∀ name ∈ g.tables, db name = createdFrom prior name) :
    (∃ c, g.run p lines (Connection.opened db) = .ok () c) ↔
      ∃ ls, lines = some ls ∧ g.Readable ls := by
  cases g with
  | root =>
      have hroot : db insertRootPath.table = some (Table.empty rootPathColumns) :=
        (hempty tableRootPath (by decide)).trans rfl
      have hpkgs : db insertAppPkgname.table = some (Table.empty appPkgnameColumns) :=
        (hempty tableAppPkgname (by decide)).trans rfl
      constructor
      · intro h'
        obtain ⟨c, h⟩ := h'
        obtain ⟨ls, infos, vss, db₁, _, hls, hinfos, hvss, hinserts, _, _⟩ :=
          (genRootData_iff p).mp h
        have hdistinct :=
          ((exists_inserts_iff hroot arrange_insertRootPath).mp ⟨db₁, hinserts⟩).2
        exact ⟨ls, hls, infos, hinfos,
          (pairwise_not_clash_iff
            (fun info vs hvs => (isRootRow_rootPathValues p info vs hvs).keyOf) hvss).mp hdistinct,
          exists_ne_slash p hinfos hvss⟩
      · intro h'
        obtain ⟨ls, rfl, infos, hinfos, hnodup, hslash⟩ := h'
        obtain ⟨vss, hvss⟩ := exists_mapM_eq_ok.mpr
          fun info hinfo => exists_rootPathValues p (hslash info hinfo)
        obtain ⟨db₁, db₂, hdb₁, hdb₂⟩ := exists_inserts_two (by decide) hroot
          arrange_insertRootPath hpkgs arrange_insertAppPkgname
          (root_rows_ok p (isRootRow_rootPathValues p) hvss hnodup)
          ⟨fun vs hvs => fits_appPkgname hvs,
            List.pairwise_of_forall (not_clash_of_no_key (by decide))⟩
        exact ⟨_, (genRootData_iff p).mpr
          ⟨ls, infos, vss, db₁, db₂, rfl, hinfos, hvss, hdb₁, hdb₂, rfl⟩⟩
  | sub =>
      constructor
      · intro h'
        obtain ⟨c, h⟩ := h'
        obtain ⟨ls, infos, _, _, hls, hinfos, _⟩ := (genSubData_iff p).mp h
        exact ⟨ls, hls, infos, hinfos⟩
      · intro h'
        obtain ⟨ls, rfl, infos, hinfos⟩ := h'
        obtain ⟨vss, hvss⟩ := exists_mapM_eq_ok.mpr
          fun info (_ : info ∈ infos) => exists_subPathValues p info
        have hfits : ∀ vs ∈ vss, Fits subPathColumns vs :=
          forall_of_mapM_eq_ok (fits_subPath p) hvss
        have htable : db insertSubPath.table = some (Table.empty subPathColumns) :=
          (hempty tableSubPath (by decide)).trans rfl
        obtain ⟨db', hdb'⟩ := (exists_inserts_iff htable arrange_insertSubPath).mpr
          ⟨hfits, List.pairwise_of_forall (not_clash_of_no_key (by decide))⟩
        exact ⟨_, (genSubData_iff p).mpr ⟨ls, infos, vss, db', rfl, hinfos, hvss, hdb', rfl⟩⟩
  | description =>
      have htable : db insertSubPathDescription.table =
          some (Table.empty subPathDescriptionColumns) :=
        (hempty tableSubPathDescription (by decide)).trans rfl
      constructor
      · intro h'
        obtain ⟨c, h⟩ := h'
        obtain ⟨ls, infos, vss, db', hls, hinfos, hvss, hinserts, _⟩ :=
          (genSubPathDescription_iff p).mp h
        have hdistinct := ((exists_inserts_iff htable arrange_insertSubPathDescription).mp
          ⟨db', hinserts⟩).2
        exact ⟨ls, hls, infos, hinfos,
          (pairwise_not_clash_iff (keyOf_description p) hvss).mp hdistinct⟩
      · intro h'
        obtain ⟨ls, rfl, infos, hinfos, hnodup⟩ := h'
        obtain ⟨vss, hvss⟩ := exists_mapM_eq_ok.mpr
          fun info (_ : info ∈ infos) => ⟨_, (rfl : descriptionValues p info = .ok _)⟩
        have hfits : ∀ vs ∈ vss, Fits subPathDescriptionColumns vs :=
          forall_of_mapM_eq_ok (fits_description p) hvss
        obtain ⟨db', hdb'⟩ := (exists_inserts_iff htable arrange_insertSubPathDescription).mpr
          ⟨hfits, (pairwise_not_clash_iff (keyOf_description p) hvss).mpr hnodup⟩
        exact ⟨_, (genSubPathDescription_iff p).mpr
          ⟨ls, infos, vss, db', rfl, hinfos, hvss, hdb', rfl⟩⟩
  | app =>
      constructor
      · intro h'
        obtain ⟨c, h⟩ := h'
        obtain ⟨ls, infos, _, _, hls, hinfos, _⟩ := (genAppInfo_iff p).mp h
        exact ⟨ls, hls, infos, hinfos⟩
      · intro h'
        obtain ⟨ls, rfl, infos, hinfos⟩ := h'
        obtain ⟨vss, hvss⟩ := exists_mapM_eq_ok.mpr
          fun info (_ : info ∈ infos) => ⟨_, (rfl : appInfoValues p info = .ok _)⟩
        have hfits : ∀ vs ∈ vss, Fits appInfoColumns vs :=
          forall_of_mapM_eq_ok (fits_appInfo p) hvss
        have htable : db insertAppInfo.table = some (Table.empty appInfoColumns) :=
          (hempty tableAppInfo (by decide)).trans rfl
        obtain ⟨db', hdb'⟩ := (exists_inserts_iff htable arrange_insertAppInfo).mpr
          ⟨hfits, List.pairwise_of_forall (not_clash_of_no_key (by decide))⟩
        exact ⟨_, (genAppInfo_iff p).mpr ⟨ls, infos, vss, db', rfl, hinfos, hvss, hdb', rfl⟩⟩

/-! ## A whole generation -/

variable {p} {files : LocalFiles} {prior : Database}

/-- **Run.**  The remaining generators return when all of their files are readable. -/
theorem StepsDone.returns_iff {todo done : List Generator} {db : Database}
    (hdone : StepsDone p files prior done db) (hnodup : (done ++ todo).Nodup) :
    (∃ c, (todo.forM fun g => g.run p (getLines (g.file files))) (Connection.opened db) =
        .ok () c) ↔
      ∀ g ∈ todo, ∃ ls, getLines (g.file files) = some ls ∧ g.Readable ls := by
  induction todo generalizing done db with
  | nil =>
      simp only [List.not_mem_nil, false_implies, implies_true, iff_true]
      exact ⟨_, rfl⟩
  | cons g todo ih =>
      have hg : g ∉ done := by
        intro hmem
        exact (List.disjoint_of_nodup_append hnodup) hmem (by simp)
      have hassoc : done ++ [g] ++ todo = done ++ g :: todo := by simp
      rw [List.forall_mem_cons, ← Generator.returns_iff p (hdone.empty g hg)]
      constructor
      · intro h'
        obtain ⟨c, h⟩ := h'
        obtain ⟨_, c₁, hfirst, hrest⟩ := run_bind_ok.mp h
        obtain ⟨db₁, rfl, hdone₁⟩ := hdone.step hg hfirst
        exact ⟨⟨_, hfirst⟩, (ih hdone₁ (hassoc ▸ hnodup)).mp ⟨c, hrest⟩⟩
      · intro h'
        obtain ⟨⟨c₁, hfirst⟩, hall⟩ := h'
        obtain ⟨db₁, rfl, hdone₁⟩ := hdone.step hg hfirst
        obtain ⟨c, hrest⟩ := (ih hdone₁ (hassoc ▸ hnodup)).mpr hall
        exact ⟨c, run_bind_ok.mpr ⟨(), _, hfirst, hrest⟩⟩

/-- **A generation returns exactly when its four files are readable**, whatever
the tables held before. -/
theorem genLocalData_returns_iff :
    (∃ c, genLocalData p files (Connection.opened prior) = .ok () c) ↔
      ∀ g : Generator, ∃ ls, getLines (g.file files) = some ls ∧ g.Readable ls := by
  have hall : ∀ g : Generator, g ∈ Generator.all := by
    intro g
    cases g <;> decide
  have hnil : StepsDone p files prior [] (createdFrom prior) := stepsDone_nil
  have hrun := hnil.returns_iff (show ([] ++ Generator.all).Nodup by decide)
  have hrecreate := run_recreate prior
  rw [genLocalData_eq]
  constructor
  · intro h' g
    obtain ⟨c, h⟩ := h'
    obtain ⟨flag, c₁, hfirst, hrest⟩ := run_bind_ok.mp h
    obtain ⟨_, rfl⟩ := EStateM.Result.ok.inj (hrecreate.symm.trans hfirst)
    exact hrun.mp ⟨c, hrest⟩ g (hall g)
  · intro h
    obtain ⟨c, hc⟩ := hrun.mpr fun g _ => h g
    exact ⟨c, run_bind_ok.mpr ⟨true, _, hrecreate, hc⟩⟩

/-- Four files that are there and are read to their end. -/
structure CompleteFiles where
  rootPath : List UInt8
  subPath : List UInt8
  subPathDescription : List UInt8
  appName : List UInt8

def CompleteFiles.toLocalFiles (f : CompleteFiles) : LocalFiles where
  rootPath := some ⟨f.rootPath, none⟩
  subPath := some ⟨f.subPath, none⟩
  subPathDescription := some ⟨f.subPathDescription, none⟩
  appName := some ⟨f.appName, none⟩

/-- The lines of a file that is read to its end. -/
def fileLines (content : List UInt8) : List JString := readLines (newString content)

/-- **A generation that returns leaves exactly the rows of the accepted lines**,
whatever the tables held before. -/
theorem genLocalData_rows (f : CompleteFiles) {c : Connection Database}
    (h : genLocalData p f.toLocalFiles (Connection.opened prior) = .ok () c) :
    Generated parseRootPathLine (rootPathRow p) tableRootPath (fileLines f.rootPath) c.durable ∧
      PackagesGenerated (fileLines f.rootPath) c.durable ∧
      Generated parseSubPath (subPathRow p) tableSubPath (fileLines f.subPath) c.durable ∧
      Generated parseTrashInfoDesc (descriptionRow p) tableSubPathDescription
        (fileLines f.subPathDescription) c.durable ∧
      Generated parseAppInfo (appInfoRow p) tableAppInfo (fileLines f.appName) c.durable := by
  obtain ⟨db, rfl, hdone⟩ := genLocalData_outcome.1 c h
  have hfilled (g : Generator) (content : List UInt8)
      (hfile : g.file f.toLocalFiles = some ⟨content, none⟩) : g.Done p (fileLines content) db := by
    obtain ⟨lines, hlines, hg⟩ := hdone.filled g (by cases g <;> decide)
    rw [hfile] at hlines
    obtain rfl : fileLines content = lines := Option.some.inj hlines
    exact hg
  obtain ⟨hroot, hpackages⟩ := hfilled .root f.rootPath rfl
  exact ⟨hroot, hpackages, hfilled .sub f.subPath rfl,
    hfilled .description f.subPathDescription rfl, hfilled .app f.appName rfl⟩

/-- An ASCII file is read as the lines of its text. -/
theorem getLines_ascii (s : JString) (h : ∀ u ∈ s, u < 0x80) :
    getLines (some ⟨getBytes s, none⟩) = some (readLines s) := by
  show some (readLines (newString (getBytes s))) = _
  rw [newString_getBytes_ascii h]

/-- One line of each kind. -/
def sampleFiles : CompleteFiles where
  rootPath := getBytes (js "1;5;n;p;x,y;2;7;0;0")
  subPath := getBytes (js "2;5;1;q;3;7;0;0")
  subPathDescription := getBytes (js "3;t")
  appName := getBytes (js "5;n")

/-- The files with one line of each kind are readable. -/
theorem sampleFiles_returns (prior : Database) :
    ∃ c, genLocalData plainPlatform sampleFiles.toLocalFiles (Connection.opened prior) =
      .ok () c := by
  refine genLocalData_returns_iff.mpr fun g => ?_
  cases g with
  | root =>
      have hline := getLines_ascii (js "1;5;n;p;x,y;2;7;0;0") (ascii_of_all (by decide))
      have hslash : ∃ u ∈ js "p", u ≠ slash := ⟨0x70, by decide, by decide⟩
      exact ⟨_, hline, [⟨5, js "n", js "p", [js "x", js "y"], 2, 7, 0, 0⟩], by decide +kernel,
        by decide, List.forall_mem_singleton.mpr hslash⟩
  | sub =>
      have hline := getLines_ascii (js "2;5;1;q;3;7;0;0") (ascii_of_all (by decide))
      exact ⟨_, hline, [⟨5, 1, js "q", 3, 7, 0, 0, 0⟩], by decide +kernel⟩
  | description =>
      have hline := getLines_ascii (js "3;t") (ascii_of_all (by decide))
      exact ⟨_, hline, [⟨3, js "t"⟩], by decide +kernel, by decide⟩
  | app =>
      have hline := getLines_ascii (js "5;n") (ascii_of_all (by decide))
      exact ⟨_, hline, [⟨5, js "n"⟩], by decide +kernel⟩

/-- What the files with one line of each kind generate. -/
theorem genLocalData_rows_sample :
    ∃ c, genLocalData plainPlatform sampleFiles.toLocalFiles (Connection.opened fun _ => none) =
        .ok () c ∧
      Generated parseRootPathLine (rootPathRow plainPlatform) tableRootPath
        (fileLines sampleFiles.rootPath) c.durable ∧
      PackagesGenerated (fileLines sampleFiles.rootPath) c.durable ∧
      Generated parseSubPath (subPathRow plainPlatform) tableSubPath
        (fileLines sampleFiles.subPath) c.durable ∧
      Generated parseTrashInfoDesc (descriptionRow plainPlatform) tableSubPathDescription
        (fileLines sampleFiles.subPathDescription) c.durable ∧
      Generated parseAppInfo (appInfoRow plainPlatform) tableAppInfo
        (fileLines sampleFiles.appName) c.durable := by
  obtain ⟨c, hc⟩ := sampleFiles_returns fun _ => none
  exact ⟨c, hc, genLocalData_rows sampleFiles hc⟩

/-! ## A file that is not read to its end -/

/-- The same files, but the first one cannot be read. -/
def cutFiles : LocalFiles :=
  { sampleFiles.toLocalFiles with rootPath := some ⟨sampleFiles.rootPath, some 0⟩ }

theorem cutFiles_returns (prior : Database) :
    ∃ c, genLocalData plainPlatform cutFiles (Connection.opened prior) = .ok () c := by
  have hsample := genLocalData_returns_iff.mp (sampleFiles_returns prior)
  refine genLocalData_returns_iff.mpr fun g => ?_
  cases g with
  | root => exact ⟨[], rfl, [], rfl, List.nodup_nil, nofun⟩
  | sub => exact hsample .sub
  | description => exact hsample .description
  | app => exact hsample .app

/-- The root record of the sample is missing then. -/
theorem not_generated_cutFiles {c : Connection Database}
    (h : genLocalData plainPlatform cutFiles (Connection.opened prior) = .ok () c) :
    ¬ Generated parseRootPathLine (rootPathRow plainPlatform) tableRootPath
      (fileLines sampleFiles.rootPath) c.durable := by
  intro hall
  obtain ⟨rows, hrows, htable⟩ := hall
  have hlines : fileLines sampleFiles.rootPath = readLines (js "1;5;n;p;x,y;2;7;0;0") :=
    Option.some.inj (getLines_ascii _ (ascii_of_all (by decide)))
  have hparsed : collect parseRootPathLine (readLines (js "1;5;n;p;x,y;2;7;0;0")) =
      .ok [⟨5, js "n", js "p", [js "x", js "y"], 2, 7, 0, 0⟩] := by decide +kernel
  have haccepted : accepted parseRootPathLine (readLines (js "1;5;n;p;x,y;2;7;0;0")) =
      [⟨5, js "n", js "p", [js "x", js "y"], 2, 7, 0, 0⟩] := (eq_filterMap_of_collect hparsed).symm
  obtain ⟨db, rfl, hdone⟩ := genLocalData_outcome.1 c h
  obtain ⟨lines, hread, ⟨rows', hrows', htable'⟩, -⟩ := hdone.filled .root (by decide)
  -- nothing was read
  obtain rfl : [] = lines := Option.some.inj hread
  obtain rfl : [] = rows' := Except.ok.inj hrows'
  rw [hlines, haccepted] at hrows
  have hcount := congrArg (Option.map Multiset.card) (htable.symm.trans htable')
  have hlength := length_of_mapM_eq_ok hrows
  simp at hcount
  rw [hcount] at hlength
  cases hlength

/-- A run that throws has emptied a table, and one that returns has not read all lines. -/
theorem genLocalData_not_allOrNothing :
    (∃ e c, genLocalData plainPlatform ⟨none, none, none, none⟩ (Connection.opened oneRootRow) =
        .error e c ∧ c.durable.rows tableRootPath ≠ oneRootRow.rows tableRootPath) ∧
      ∃ c, genLocalData plainPlatform cutFiles (Connection.opened fun _ => none) = .ok () c ∧
        ¬ Generated parseRootPathLine (rootPathRow plainPlatform) tableRootPath
          (fileLines sampleFiles.rootPath) c.durable := by
  obtain ⟨c, hc⟩ := cutFiles_returns fun _ => none
  exact ⟨genLocalData_throws_emptied, c, hc, not_generated_cutFiles hc⟩

end TrashClear
