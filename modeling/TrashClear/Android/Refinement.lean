import TrashClear.Android.GeneratorSpec

/-!
# The two generators

What a run of the Android generator leaves behind (`genLocalData_ok`), when it
returns (`genLocalData_returns`), and for which inputs it leaves the rows of the
desktop generator (`genLocalData_refines_iff`): when the five tables were there,
no description and no application name is accepted, and the one token of every
root path is the token of its only component.
-/

namespace TrashClear.Android

open Java Fields Run Store

variable {p : Platform} {files : LocalFiles} {prior : Database}

/-! ## A whole run -/

/-- Dropping the five tables succeeds when all of them exist. -/
theorem run_drops {s : Session Database} :
    (getDeleteTables.forM fun tableName => execSQL (.dropTable tableName)) (Session.opened prior) =
        .ok () s ↔
      (∀ name ∈ getDeleteTables, (prior name).isSome) ∧
        s = Session.opened fun name => if name ∈ getDeleteTables then none else prior name := by
  have hdrop (db : Database) := foldlM_dropTable (show getDeleteTables.Nodup by decide) prior db
  simp only [List.foldlM_map] at hdrop
  refine (Session.run_forM_write (m := fun name => execute (.dropTable name))).trans ?_
  simp only [hdrop]
  constructor
  · intro h
    obtain ⟨db, ⟨hall, rfl⟩, rfl⟩ := h
    exact ⟨hall, rfl⟩
  · intro h
    obtain ⟨hall, rfl⟩ := h
    exact ⟨_, ⟨hall, rfl⟩, rfl⟩

theorem run_creates :
    (getCreateTableSqls.forM execSQL)
        (Session.opened fun name => if name ∈ getDeleteTables then none else prior name) =
      .ok () (Session.opened (createdFrom prior)) :=
  (Session.run_forM_write (m := execute)).mpr ⟨_, execute_creates prior, rfl⟩

/-- The lines of a file, none when it is missing. -/
def linesOf (file : Option InputFile) : List JString := (getLines file).getD []

theorem linesOf_eq {file : Option InputFile} {ls : List JString} (h : getLines file = some ls) :
    linesOf file = ls := by
  simp [linesOf, h]

/-- The durable database after an Android run. -/
structure Filled (p : Platform) (files : LocalFiles) (db : Database) : Prop where
  root : Generated parseRootPathLine (rootPathRow p) tableRootPath (linesOf files.rootPath) db
  packages : PackagesGenerated (linesOf files.rootPath) db
  sub : Generated parseSubPath (subPathRow p) tableSubPath (linesOf files.subPath) db
  description : Generated parseTrashInfoDesc descriptionRow tableSubPathDescription
    (linesOf files.subPathDescription) db
  appName : collect parseTrashInfoDesc (linesOf files.appName) = .ok []
  appInfo : db tableAppInfo = some (Table.empty appInfoColumns)

/-- **A run that returns** found the five tables and no application name. -/
theorem genLocalData_ok {s : Session Database}
    (h : genLocalData p files (Session.opened prior) = .ok () s) :
    (∀ name ∈ getDeleteTables, (prior name).isSome) ∧
      ∃ db, s = Session.opened db ∧ Filled p files db := by
  obtain ⟨_, s₁, hdrops, h⟩ := run_bind_ok.mp h
  obtain ⟨htables, rfl⟩ := run_drops.mp hdrops
  obtain ⟨_, s₂, hcreates, h⟩ := run_bind_ok.mp h
  obtain rfl := (EStateM.Result.ok.inj (run_creates.symm.trans hcreates)).2
  obtain ⟨_, s₃, hroot, h⟩ := run_bind_ok.mp h
  have hempty : ∀ name ∈ Generator.root.tables, createdFrom prior name = createdFrom prior name :=
    fun _ _ => rfl
  obtain ⟨ls₁, db₁, hls₁, rfl, hrows₁, hpkgs, hframe₁⟩ := genRootData_ok p hempty hroot
  obtain ⟨_, s₄, hsub, h⟩ := run_bind_ok.mp h
  have hempty₁ : ∀ name ∈ Generator.sub.tables, db₁ name = createdFrom prior name :=
    fun name hname => hframe₁ name (Generator.tables_disjoint (by decide) name hname)
  obtain ⟨ls₂, db₂, hls₂, rfl, hrows₂, hframe₂⟩ := genSubData_ok p hempty₁ hsub
  obtain ⟨_, s₅, hdescription, happ⟩ := run_bind_ok.mp h
  have hempty₂ : ∀ name ∈ Generator.description.tables, db₂ name = createdFrom prior name :=
    fun name hname =>
      (hframe₂ name (Generator.tables_disjoint (by decide) name hname)).trans
        (hframe₁ name (Generator.tables_disjoint (by decide) name hname))
  obtain ⟨ls₃, db₃, t, hls₃, rfl, hrows₃, ht, hcolumns, hframe₃⟩ :=
    genSubPathDescription_ok hempty₂ hdescription
  obtain ⟨ls₄, hls₄, hnone, rfl⟩ := (genAppInfo_iff ht hcolumns).mp happ
  have hframe (name : String) (h₁ : name ∉ Generator.sub.tables)
      (h₂ : name ∉ Generator.description.tables) : db₃ name = db₁ name :=
    (hframe₃ name h₂).trans (hframe₂ name h₁)
  obtain rfl := linesOf_eq hls₁
  obtain rfl := linesOf_eq hls₂
  obtain rfl := linesOf_eq hls₃
  obtain rfl := linesOf_eq hls₄
  refine ⟨htables, db₃, rfl, ?_, ?_, ?_, hrows₃, hnone, ?_⟩
  · exact hrows₁.congr (hframe _ (by decide) (by decide))
  · exact hpkgs.congr (hframe _ (by decide) (by decide))
  · exact hrows₂.congr (hframe₃ _ (by decide))
  · exact (hframe _ (by decide) (by decide)).trans ((hframe₁ _ (by decide)).trans rfl)

/-- **A run returns** when the five tables are there, the files are readable, and
no application name is accepted. -/
theorem genLocalData_returns (htables : ∀ name ∈ getDeleteTables, (prior name).isSome)
    (hread : ∀ g : Generator, ∃ ls, getLines (g.file files) = some ls ∧ g.Readable ls)
    (hnone : ∃ ls, getLines files.appName = some ls ∧ collect parseTrashInfoDesc ls = .ok []) :
    ∃ s, genLocalData p files (Session.opened prior) = .ok () s := by
  have hempty : ∀ name ∈ Generator.root.tables, createdFrom prior name = createdFrom prior name :=
    fun _ _ => rfl
  obtain ⟨s₃, hroot⟩ := genRootData_returns p hempty (hread .root)
  obtain ⟨ls₁, db₁, hls₁, rfl, _, _, hframe₁⟩ := genRootData_ok p hempty hroot
  have hempty₁ : ∀ name ∈ Generator.sub.tables, db₁ name = createdFrom prior name :=
    fun name hname => hframe₁ name (Generator.tables_disjoint (by decide) name hname)
  obtain ⟨s₄, hsub⟩ := genSubData_returns p hempty₁ (hread .sub)
  obtain ⟨ls₂, db₂, hls₂, rfl, _, hframe₂⟩ := genSubData_ok p hempty₁ hsub
  have hempty₂ : ∀ name ∈ Generator.description.tables, db₂ name = createdFrom prior name :=
    fun name hname =>
      (hframe₂ name (Generator.tables_disjoint (by decide) name hname)).trans
        (hframe₁ name (Generator.tables_disjoint (by decide) name hname))
  obtain ⟨s₅, hdescription⟩ := genSubPathDescription_returns hempty₂ (hread .description)
  obtain ⟨ls₃, db₃, t, _, rfl, _, ht, hcolumns, _⟩ := genSubPathDescription_ok hempty₂ hdescription
  obtain ⟨ls₄, hls₄, hempty⟩ := hnone
  have happ := (genAppInfo_iff ht hcolumns).mpr ⟨ls₄, hls₄, hempty, rfl⟩
  exact ⟨_, run_bind_ok.mpr ⟨_, _, run_drops.mpr ⟨htables, rfl⟩, run_bind_ok.mpr ⟨_, _, run_creates,
    run_bind_ok.mpr ⟨_, _, hroot, run_bind_ok.mpr ⟨_, _, hsub, run_bind_ok.mpr ⟨_, _, hdescription,
      happ⟩⟩⟩⟩⟩⟩

/-! ## Where the copies agree -/

/-- The token of a path is the token of its only component. -/
def OneToken (p : Platform) (path : JString) : Prop :=
  ∃ c, components slash path = [c] ∧
    (md5 p).md5Hex (p.folding.toLowerCase c ++ saltDigits (desKey p)) =
      (md5 p).md5Hex (p.folding.toLowerCase path ++ saltDigits (desKey p))

/-- The inputs on which the copies leave the same rows. -/
structure CopiesAgree (p : Platform) (files : LocalFiles) (prior : Database) : Prop where
  tables : ∀ name ∈ getDeleteTables, (prior name).isSome
  descriptions : ∀ line ∈ linesOf files.subPathDescription, SkippedIdTextLine line
  appNames : ∀ line ∈ linesOf files.appName, SkippedIdTextLine line
  rootPaths : ∀ info ∈ accepted parseRootPathLine (linesOf files.rootPath),
    OneToken p info.appRootPath

/-- The two root path columns agree on paths of one component, up to collisions. -/
theorem encrypt_eq_allPathMD5_iff (path : JString) :
    encrypt p.folding (md5 p) (some path) (desKey p) = allPathMD5 p path ↔ OneToken p path := by
  have hlen (text : JString) := length_token p.folding (md5 p) (some text) (desKey p)
  unfold OneToken
  rw [allPathMD5_eq, encrypt_desKey, Except.ok.injEq]
  rcases components slash path with _ | ⟨c, _ | ⟨c', rest⟩⟩
  · constructor
    · intro h
      have hnone := congrArg List.length h
      rw [hlen] at hnone
      simp [joinTokens] at hnone
    · intro h'
      obtain ⟨_, hnil, _⟩ := h'
      cases hnil
  · have hone : joinTokens ([c].map fun p' => token p.folding (md5 p) (some p') (desKey p)) =
        token p.folding (md5 p) (some c) (desKey p) := by simp [joinTokens]
    rw [hone, eq_comm, token_eq_iff]
    constructor
    · intro h
      exact ⟨c, rfl, h⟩
    · intro h'
      obtain ⟨_, hc, h⟩ := h'
      obtain rfl := (List.cons.inj hc).1
      exact h
  · constructor
    · intro h
      have hmore := congrArg List.length h
      rw [hlen] at hmore
      simp [joinTokens, hlen] at hmore
    · intro h'
      obtain ⟨_, hc, _⟩ := h'
      cases hc

/-- One row for the same root record, when its path has a first path. -/
theorem rootPathRow_eq_iff {info : RootPathInfo} (h : ∃ u ∈ info.appRootPath, u ≠ slash) :
    rootPathRow p info = TrashClear.rootPathRow p info ↔ OneToken p info.appRootPath := by
  rw [← encrypt_eq_allPathMD5_iff]
  unfold rootPathRow TrashClear.rootPathRow
  rw [firstPath_eq p h, allPathMD5_eq, encrypt_desKey]
  simp

/-- A table is determined by the lines that filled it. -/
theorem generated_unique {α : Type} {parse : JString → Except Throwable (Option α)}
    {row row' : α → Except Throwable NamedRow} {table : String} {lines : List JString}
    {db db' : Database} (hrow : ∀ info ∈ accepted parse lines, row info = row' info)
    (h : Generated parse row table lines db) (h' : Generated parse row' table lines db') :
    db.rows table = db'.rows table := by
  obtain ⟨rows, hmap, htable⟩ := h
  obtain ⟨rows', hmap', htable'⟩ := h'
  rw [mapM_congr hrow, hmap'] at hmap
  rw [htable, htable', Except.ok.inj hmap]

/-- Two generators that leave the same rows with an integer key in front have the
same row for every record. -/
theorem row_eq_of_rows_eq {α : Type} {parse : JString → Except Throwable (Option α)}
    {row row' : α → Except Throwable NamedRow} {ident : α → Int32} {table : String}
    {lines : List JString} {db db' : Database}
    (hkey : ∀ info r, row info = .ok r ∨ row' info = .ok r →
      r.head?.map Prod.snd = some (int (ident info)))
    (hnodup : ((accepted parse lines).map ident).Nodup)
    (h : Generated parse row table lines db) (h' : Generated parse row' table lines db')
    (hrows : db.rows table = db'.rows table) :
    ∀ info ∈ accepted parse lines, row info = row' info := by
  obtain ⟨rows, hmap, htable⟩ := h
  obtain ⟨rows', hmap', htable'⟩ := h'
  rw [htable, htable', Option.some.injEq, Multiset.coe_eq_coe] at hrows
  have hkeys : ((accepted parse lines).map fun info => some (int (ident info))).Nodup := by
    have hinj : Function.Injective fun i : Int32 => some (int i) := by
      intro i j hij
      simpa [int, Int32.toInt_inj] using hij
    simpa [Function.comp_def] using hnodup.map hinj
  exact eq_of_perm_mapM (fun info r hr => hkey info r (Or.inl hr))
    (fun info r hr => hkey info r (Or.inr hr)) hkeys hmap hmap' hrows

/-- No line is accepted when all of them are skipped. -/
theorem collect_idText_eq_nil_iff {α : Type} {build : Int32 → JString → α} {lines : List JString} :
    collect (parseIdText build) lines = .ok [] ↔ ∀ line ∈ lines, SkippedIdTextLine line := by
  rw [collect_eq_nil_iff]
  exact forall₂_congr fun line _ => parseIdText_eq_none_iff

/-- A plain text and an encrypted one are never one description. -/
theorem descriptionRow_ne (info : TrashInfoDesc) :
    descriptionRow info ≠ TrashClear.descriptionRow p info := by
  intro h
  have htext : info.text = encryptText p info.text := by
    simpa [descriptionRow, TrashClear.descriptionRow] using h
  exact desEncrypt_ne p.jca info.text (desKey p) htext.symm

/-- The key stands in front of a root row. -/
theorem head_rootPathRow (info : RootPathInfo) (r : NamedRow) :
    rootPathRow p info = .ok r ∨ TrashClear.rootPathRow p info = .ok r →
      r.head?.map Prod.snd = some (int info.appId) := by
  intro h'
  rcases h' with h | h
  · unfold rootPathRow at h
    obtain ⟨_, _, h⟩ := bind_eq_ok.mp h
    obtain ⟨_, _, h⟩ := bind_eq_ok.mp h
    obtain rfl := Except.ok.inj h
    rfl
  · unfold TrashClear.rootPathRow at h
    obtain ⟨_, _, h⟩ := bind_eq_ok.mp h
    obtain ⟨_, _, h⟩ := bind_eq_ok.mp h
    obtain rfl := Except.ok.inj h
    rfl

theorem head_descriptionRow (info : TrashInfoDesc) (r : NamedRow) :
    descriptionRow info = .ok r ∨ TrashClear.descriptionRow p info = .ok r →
      r.head?.map Prod.snd = some (int info.id) := by
  intro h'
  rcases h' with h | h
  · obtain rfl := Except.ok.inj h
    rfl
  · obtain rfl := Except.ok.inj h
    rfl

/-- What the desktop run says about the lines of every file. -/
theorem desktop_done {c : Connection Database}
    (h : TrashClear.genLocalData p files (Connection.opened prior) = .ok () c) (g : Generator) :
    getLines (g.file files) = some (linesOf (g.file files)) ∧
      g.Done p (linesOf (g.file files)) c.durable ∧ g.Readable (linesOf (g.file files)) := by
  obtain ⟨db, rfl, hdone⟩ := genLocalData_outcome.1 c h
  obtain ⟨ls, hls, hfilled⟩ := hdone.filled g (by cases g <;> decide)
  obtain ⟨ls', hls', hread⟩ := genLocalData_returns_iff.mp ⟨_, h⟩ g
  obtain rfl := linesOf_eq hls
  obtain rfl := linesOf_eq hls'
  exact ⟨hls, hfilled, hread⟩

/-- Collected records are the accepted ones. -/
theorem accepted_eq {α : Type} {parse : JString → Except Throwable (Option α)}
    {lines : List JString} {infos : List α} (h : collect parse lines = .ok infos) :
    accepted parse lines = infos := (eq_filterMap_of_collect h).symm

/-- **The Android generator leaves the rows of the desktop generator exactly when
the copies agree on the input**: `CopiesAgree`. -/
theorem genLocalData_refines_iff {c : Connection Database}
    (h : TrashClear.genLocalData p files (Connection.opened prior) = .ok () c) :
    (∃ s, genLocalData p files (Session.opened prior) = .ok () s ∧
        ∀ name ∈ getDeleteTables, s.durable.rows name = c.durable.rows name) ↔
      CopiesAgree p files prior := by
  have hdone := desktop_done h
  obtain ⟨-, ⟨hroot, hpackages⟩, rootInfos, hrootInfos, hrootNodup, hslash⟩ := hdone .root
  obtain ⟨-, hsub, -⟩ := hdone .sub
  obtain ⟨-, hdescription, descInfos, hdescInfos, hdescNodup⟩ := hdone .description
  obtain ⟨happLines, happ, -⟩ := hdone .app
  simp only [Generator.file, Generator.Done] at hroot hpackages hrootInfos hsub
  simp only [Generator.file, Generator.Done] at hdescription hdescInfos happLines happ
  rw [← accepted_eq hrootInfos] at hrootNodup hslash
  rw [← accepted_eq hdescInfos] at hdescNodup
  constructor
  · intro h'
    obtain ⟨s, hs, hrows⟩ := h'
    obtain ⟨htables, db, rfl, hfilled⟩ := genLocalData_ok hs
    refine ⟨htables, ?_, collect_idText_eq_nil_iff.mp hfilled.appName, ?_⟩
    · have hsame := row_eq_of_rows_eq head_descriptionRow hdescNodup hfilled.description
        hdescription (hrows tableSubPathDescription (by decide))
      rw [accepted_eq hdescInfos] at hsame
      have hnil : descInfos = [] := List.eq_nil_iff_forall_not_mem.mpr
        fun info hinfo => descriptionRow_ne info (hsame info hinfo)
      exact collect_idText_eq_nil_iff.mp (hnil ▸ hdescInfos)
    · intro info hinfo
      have hsame := row_eq_of_rows_eq head_rootPathRow hrootNodup hfilled.root hroot
        (hrows tableRootPath (by decide)) info hinfo
      exact (rootPathRow_eq_iff (hslash info hinfo)).mp hsame
  · intro hagree
    have hnoApp : collect parseAppInfo (linesOf files.appName) = .ok [] :=
      collect_idText_eq_nil_iff.mpr hagree.appNames
    have hnoDescription : collect parseTrashInfoDesc (linesOf files.subPathDescription) = .ok [] :=
      collect_idText_eq_nil_iff.mpr hagree.descriptions
    obtain ⟨s, hs⟩ := genLocalData_returns hagree.tables (genLocalData_returns_iff.mp ⟨c, h⟩)
      ⟨_, happLines, collect_idText_eq_nil_iff.mpr hagree.appNames⟩
    obtain ⟨_, db, rfl, hfilled⟩ := genLocalData_ok hs
    refine ⟨_, hs, ?_⟩
    simp only [getDeleteTables, List.forall_mem_cons, List.not_mem_nil, false_implies, implies_true,
      and_true]
    refine ⟨?_, ?_, ?_, ?_, ?_⟩
    · exact generated_unique (fun info hinfo =>
        (rootPathRow_eq_iff (hslash info hinfo)).mpr (hagree.rootPaths info hinfo))
        hfilled.root hroot
    · exact generated_unique (fun _ _ => rfl) hfilled.sub hsub
    · exact hfilled.packages.trans hpackages.symm
    · refine generated_unique (fun info hinfo => ?_) hfilled.description hdescription
      rw [accepted_eq hnoDescription] at hinfo
      cases hinfo
    · obtain ⟨rows, hmap, htable⟩ := happ
      rw [accepted_eq hnoApp] at hmap
      obtain rfl := Except.ok.inj hmap
      rw [htable]
      show (db tableAppInfo).map _ = _
      rw [hfilled.appInfo]
      rfl

/-- A root path of one component and a sub path, without descriptions and names. -/
def pathFiles : CompleteFiles := { sampleFiles with subPathDescription := [], appName := [] }

theorem pathFiles_returns (prior : Database) :
    ∃ c, TrashClear.genLocalData plainPlatform pathFiles.toLocalFiles (Connection.opened prior) =
      .ok () c := by
  have hsample := genLocalData_returns_iff.mp (sampleFiles_returns prior)
  refine genLocalData_returns_iff.mpr fun g => ?_
  cases g with
  | root => exact hsample .root
  | sub => exact hsample .sub
  | description => exact ⟨[], rfl, [], rfl, List.nodup_nil⟩
  | app => exact ⟨[], rfl, [], rfl⟩

/-- The copies agree on them, when the five tables are there. -/
theorem copiesAgree_pathFiles (prior : Database) :
    CopiesAgree plainPlatform pathFiles.toLocalFiles (createdFrom prior) where
  tables _ hname := isSome_createdFrom prior hname
  descriptions line hline := absurd (show line ∈ [] from hline) List.not_mem_nil
  appNames line hline := absurd (show line ∈ [] from hline) List.not_mem_nil
  rootPaths := by
    have hlines : linesOf pathFiles.toLocalFiles.rootPath = readLines (js "1;5;n;p;x,y;2;7;0;0") :=
      linesOf_eq (getLines_ascii _ (ascii_of_all (by decide)))
    have hparsed : collect parseRootPathLine (readLines (js "1;5;n;p;x,y;2;7;0;0")) =
        .ok [⟨5, js "n", js "p", [js "x", js "y"], 2, 7, 0, 0⟩] := by decide +kernel
    rw [hlines, accepted_eq hparsed]
    exact List.forall_mem_singleton.mpr ⟨js "p", by decide, rfl⟩

/-- The Android generator leaves the rows of the desktop generator. -/
theorem genLocalData_refines_iff_paths :
    ∃ c, TrashClear.genLocalData plainPlatform pathFiles.toLocalFiles
        (Connection.opened (createdFrom fun _ => none)) = .ok () c ∧
      ∃ s, genLocalData plainPlatform pathFiles.toLocalFiles
          (Session.opened (createdFrom fun _ => none)) = .ok () s ∧
        ∀ name ∈ getDeleteTables, s.durable.rows name = c.durable.rows name := by
  obtain ⟨c, hc⟩ := pathFiles_returns (createdFrom fun _ => none)
  exact ⟨c, hc, (genLocalData_refines_iff hc).mpr (copiesAgree_pathFiles _)⟩

/-- On five empty tables and the application name `5;n` the desktop generator
returns and the Android generator throws. -/
theorem genLocalData_differs :
    ∃ c, TrashClear.genLocalData plainPlatform sampleFiles.toLocalFiles
        (Connection.opened (createdFrom fun _ => none)) = .ok () c ∧
      ¬ ∃ s, genLocalData plainPlatform sampleFiles.toLocalFiles
          (Session.opened (createdFrom fun _ => none)) = .ok () s ∧
        ∀ name ∈ getDeleteTables, s.durable.rows name = c.durable.rows name := by
  obtain ⟨c, hc⟩ := sampleFiles_returns (createdFrom fun _ => none)
  refine ⟨c, hc, ?_⟩
  intro h
  obtain ⟨s, hs, _⟩ := h
  obtain ⟨_, db, _, hfilled⟩ := genLocalData_ok hs
  have hlines : linesOf sampleFiles.toLocalFiles.appName = readLines (js "5;n") :=
    linesOf_eq (getLines_ascii (js "5;n") (ascii_of_all (by decide)))
  have hname : collect parseTrashInfoDesc (readLines (js "5;n")) = .ok [⟨5, js "n"⟩] := by
    decide +kernel
  have hnone := hfilled.appName
  rw [hlines, hname] at hnone
  cases hnone

end TrashClear.Android
