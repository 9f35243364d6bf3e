import TrashClear.Completion

/-!
# Which package names are stored

`parseRootPathLine` cuts the package field of a root line at its commas with
`String.split`, which gives one empty name for an empty field, and one for a comma
at the front or a doubled comma with a name after it.  `genRootData` stores what it
is given.

`onlyPackageNames_iff` says for which root lines the package table gets real names
only, and all of them.
-/

namespace TrashClear

open Java Fields Run Store

variable (p : Platform)

/-! ## The rows of one entry of the map -/

/-- Whether a package row belongs to an application. -/
def ofApplication (appId : Int32) (row : List SqlValue) : Bool := row.head? = some (int appId)

/-- The rows of an entry among those of entries with different keys. -/
theorem filter_packageValues {entries : List (Int32 × List JString)}
    (hnodup : (entries.map Prod.fst).Nodup) {entry : Int32 × List JString}
    (h : entry ∈ entries) :
    (entries.flatMap packageValues).filter (ofApplication entry.1) = packageValues entry := by
  have hown (e : Int32 × List JString) (appId : Int32) (r : List SqlValue)
      (hr : r ∈ packageValues e) : ofApplication appId r = true ↔ e.1 = appId := by
    obtain ⟨pkg, _, rfl⟩ := List.mem_map.mp hr
    simp [ofApplication, int, Int32.toInt_inj]
  have hnone (e : Int32 × List JString) (appId : Int32) (hne : e.1 ≠ appId) :
      (packageValues e).filter (ofApplication appId) = [] := by
    rw [List.filter_eq_nil_iff]
    intro r hr hof
    exact hne ((hown e appId r hr).mp hof)
  have hall (e : Int32 × List JString) :
      (packageValues e).filter (ofApplication e.1) = packageValues e := by
    rw [List.filter_eq_self]
    intro r hr
    exact (hown e e.1 r hr).mpr rfl
  induction entries with
  | nil => simp at h
  | cons first entries ih =>
      rw [List.map_cons, List.nodup_cons] at hnodup
      obtain ⟨hfirst, hrest⟩ := hnodup
      rw [List.flatMap_cons, List.filter_append]
      rcases List.mem_cons.mp h with rfl | h
      · -- no later entry has the key of the first
        have htail : (entries.flatMap packageValues).filter (ofApplication entry.1) = [] := by
          rw [List.filter_eq_nil_iff]
          intro r hr hof
          obtain ⟨e, he, hre⟩ := List.mem_flatMap.mp hr
          have hkey := (hown e entry.1 r hre).mp hof
          exact hfirst (hkey ▸ List.mem_map_of_mem he)
        rw [hall, htail, List.append_nil]
      · have hne : first.1 ≠ entry.1 := fun heq => hfirst (heq ▸ List.mem_map_of_mem h)
        rw [hnone first entry.1 hne, List.nil_append, ih hrest h]

/-! ## A run of `genRootData` -/

/-- The two tables of the root lines as they are created, with any rows. -/
structure HasRootTables (db : Database) : Prop where
  rootPath : ∃ t, db tableRootPath = some t ∧ t.columns = rootPathColumns
  appPkgname : ∃ t, db tableAppPkgname = some t ∧ t.columns = appPkgnameColumns

/-- `new` are the rows that the package table has got. -/
def NewPackageRows (db db' : Database) (new : List (List SqlValue)) : Prop :=
  ∃ t t', db tableAppPkgname = some t ∧ db' tableAppPkgname = some t' ∧ t'.rows = t.rows ++ new

/-- Every new row has a package name, and those of an accepted line are the non-empty
names of its package field, in order. -/
def OnlyPackageNames (lines : List JString) (db db' : Database) : Prop :=
  ∃ new, NewPackageRows db db' new ∧
    (∀ row ∈ new, ∃ appId name, row = [int appId, .text name] ∧ name ≠ []) ∧
    ∀ line ∈ lines, ∀ info, parseRootPathLine line = .ok (some info) →
      new.filter (ofApplication info.appId) =
        (components comma (field line 4)).map fun name => [int info.appId, .text name]

variable {p}

/-- The rows that a completed run has added, and the applications they are for. -/
theorem newPackageRows_of_genRootData {lines : List JString} {c c' : Connection Database}
    (hschema : HasRootTables c.working) (h : genRootData p (some lines) c = .ok () c') :
    ∃ infos, collect parseRootPathLine lines = .ok infos ∧
      (infos.map RootPathInfo.appId).Nodup ∧
      NewPackageRows c.working c'.durable
        ((p.entrySet (packageMap infos)).flatMap packageValues) := by
  obtain ⟨ls, infos, vss, db₁, db₂, hls, hinfos, hvss, hroot, hpkgs, rfl⟩ :=
    (genRootData_iff p).mp h
  obtain rfl := Option.some.inj hls
  obtain ⟨t₀, ht₀, hcolumns₀⟩ := hschema.rootPath
  obtain ⟨u₀, hu₀, hcolumns₀'⟩ := hschema.appPkgname
  obtain ⟨t, row, t', ht, hrow, ⟨hcolumns, hrows⟩, rfl⟩ := hroot
  obtain rfl := Option.some.inj (ht₀.symm.trans ht)
  obtain ⟨u, row', u', hu, hrow', ⟨_, hrows'⟩, rfl⟩ := hpkgs
  have hkeep : Function.update c.working insertRootPath.table (some t') tableAppPkgname =
      c.working tableAppPkgname := Function.update_of_ne (by decide) _ _
  obtain rfl := Option.some.inj ((hkeep.trans hu₀).symm.trans hu)
  have hlast : Function.update (Function.update c.working insertRootPath.table (some t'))
      insertAppPkgname.table (some u') tableAppPkgname = some u' := Function.update_self _ _ _
  refine ⟨infos, hinfos, ?_, u₀, u', hu₀, hlast, ?_⟩
  · -- the root table has the application id as its key
    rw [hcolumns₀, arrange_insertRootPath] at hrow
    obtain rfl := Except.ok.inj hrow
    have hdistinct := t'.distinct
    rw [hcolumns, hcolumns₀, hrows] at hdistinct
    have hnew := (List.pairwise_append.mp hdistinct).2.1
    rw [List.pairwise_map] at hnew
    exact (pairwise_not_clash_iff
      (fun info vs hvs => (isRootRow_rootPathValues p info vs hvs).keyOf) hvss).mp hnew
  · rw [hcolumns₀', arrange_insertAppPkgname] at hrow'
    obtain rfl := Except.ok.inj hrow'
    rw [hrows', List.map_id]

/-- The package table gets real names only, and all of them, exactly when `split`
finds no empty name in an accepted line. -/
theorem onlyPackageNames_iff_split {lines : List JString} {c c' : Connection Database}
    (hschema : HasRootTables c.working) (h : genRootData p (some lines) c = .ok () c') :
    OnlyPackageNames lines c.working c'.durable ↔
      ∀ line ∈ lines, ∀ info, parseRootPathLine line = .ok (some info) →
        [] ∉ split comma (field line 4) := by
  obtain ⟨infos, hinfos, hnodup, hnew⟩ := newPackageRows_of_genRootData hschema h
  have hperm := p.entrySet_perm (packageMap infos)
  have hmap := packageMap_of_nodup hnodup
  have hkeys : ((p.entrySet (packageMap infos)).map Prod.fst).Nodup := by
    rw [(hperm.map Prod.fst).nodup_iff, hmap, List.map_map]
    exact hnodup
  have hentry (line : JString) (hline : line ∈ lines) (info : RootPathInfo)
      (hparse : parseRootPathLine line = .ok (some info)) :
      (info.appId, info.pkgs) ∈ p.entrySet (packageMap infos) := by
    rw [hperm.mem_iff, hmap, eq_filterMap_of_collect hinfos]
    exact List.mem_map.mpr
      ⟨info, List.mem_filterMap.mpr ⟨line, hline, found_eq_some.mpr hparse⟩, rfl⟩
  -- the rows of an accepted line are the pieces of its package field
  have hrows (line : JString) (hline : line ∈ lines) (info : RootPathInfo)
      (hparse : parseRootPathLine line = .ok (some info)) :
      ((p.entrySet (packageMap infos)).flatMap packageValues).filter (ofApplication info.appId) =
        (split comma (field line 4)).map fun name => [int info.appId, .text name] := by
    rw [filter_packageValues hkeys (hentry line hline info hparse),
      ← pkgs_of_parseRootPathLine hparse]
    rfl
  simp only [← split_eq_components_iff]
  constructor
  · intro hnames line hline info hparse
    obtain ⟨new, ⟨t, t', ht, ht', hrows'⟩, _, hlines⟩ := hnames
    obtain ⟨u, u', hu, hu', hrowsNew⟩ := hnew
    obtain rfl := Option.some.inj (ht.symm.trans hu)
    obtain rfl := Option.some.inj (ht'.symm.trans hu')
    obtain rfl := List.append_cancel_left (hrows'.symm.trans hrowsNew)
    have hsame := (hrows line hline info hparse).symm.trans (hlines line hline info hparse)
    exact List.map_injective_iff.mpr (fun a b hab => by simpa using hab) hsame
  · intro hfields
    refine ⟨_, hnew, ?_, ?_⟩
    · intro row hrow
      obtain ⟨entry, hmem, hrow⟩ := List.mem_flatMap.mp hrow
      obtain ⟨name, hname, rfl⟩ := List.mem_map.mp hrow
      refine ⟨entry.1, name, rfl, ?_⟩
      rw [hperm.mem_iff, hmap] at hmem
      obtain ⟨info, hinfo, rfl⟩ := List.mem_map.mp hmem
      obtain ⟨line, hline, hparse⟩ := exists_of_mem_collect hinfos hinfo
      have hnone := split_eq_components_iff.mp (hfields line hline info hparse)
      intro hnil
      subst name
      exact hnone (pkgs_of_parseRootPathLine hparse ▸ hname)
    · intro line hline info hparse
      rw [hrows line hline info hparse, hfields line hline info hparse]

/-- **The package table gets real names only, and all of them, exactly when no accepted
line has an empty package field**, one that starts with a comma before a name, or one
with a doubled comma before a name. -/
theorem onlyPackageNames_iff {lines : List JString} {c c' : Connection Database}
    (hschema : HasRootTables c.working) (h : genRootData p (some lines) c = .ok () c') :
    OnlyPackageNames lines c.working c'.durable ↔
      ∀ line ∈ lines, ∀ info, parseRootPathLine line = .ok (some info) →
        field line 4 ≠ [] ∧ ¬ HasGap comma (field line 4) := by
  rw [onlyPackageNames_iff_split hschema h]
  simp only [nil_mem_split_iff, not_or]

/-- The tables are there when they have been created. -/
theorem hasRootTables_createdFrom (prior : Database) : HasRootTables (createdFrom prior) where
  rootPath := ⟨Table.empty rootPathColumns, rfl, rfl⟩
  appPkgname := ⟨Table.empty appPkgnameColumns, rfl, rfl⟩

/-- One accepted line, into the empty tables. -/
theorem genRootData_one_line (p : Platform) {line : JString} {info : RootPathInfo}
    (hparse : parseRootPathLine line = .ok (some info))
    (hslash : ∃ u ∈ info.appRootPath, u ≠ slash) (prior : Database) :
    ∃ c, genRootData p (some [line]) (Connection.opened (createdFrom prior)) = .ok () c := by
  have hread : collect parseRootPathLine [line] = .ok [info] :=
    collect_cons_eq_ok.mpr (Or.inr ⟨info, [], hparse, rfl, rfl⟩)
  exact (Generator.returns_iff p (g := .root) fun _ _ => rfl).mpr
    ⟨[line], rfl, [info], hread, List.nodup_singleton _, List.forall_mem_singleton.mpr hslash⟩

/-- The condition at the line `1;5;n;p;x,y;2;7;0;0`. -/
theorem onlyPackageNames_iff_two :
    ∃ c, genRootData plainPlatform (some [js "1;5;n;p;x,y;2;7;0;0"])
        (Connection.opened (createdFrom fun _ => none)) = .ok () c ∧
      (OnlyPackageNames [js "1;5;n;p;x,y;2;7;0;0"] (createdFrom fun _ => none) c.durable ↔
        ∀ line ∈ [js "1;5;n;p;x,y;2;7;0;0"], ∀ info, parseRootPathLine line = .ok (some info) →
          field line 4 ≠ [] ∧ ¬ HasGap comma (field line 4)) := by
  have hparse : parseRootPathLine (js "1;5;n;p;x,y;2;7;0;0") =
      .ok (some ⟨5, js "n", js "p", [js "x", js "y"], 2, 7, 0, 0⟩) := by decide +kernel
  obtain ⟨c, hc⟩ := genRootData_one_line plainPlatform hparse ⟨0x70, by decide, by decide⟩
    fun _ => none
  exact ⟨c, hc, onlyPackageNames_iff (hasRootTables_createdFrom _) hc⟩

/-- An empty package field is stored as a package without a name. -/
theorem not_onlyPackageNames_empty_field :
    ∃ c, genRootData plainPlatform (some [js "1;5;n;p;;2;7;0;0"])
        (Connection.opened (createdFrom fun _ => none)) = .ok () c ∧
      ¬ OnlyPackageNames [js "1;5;n;p;;2;7;0;0"] (createdFrom fun _ => none) c.durable := by
  have hparse : parseRootPathLine (js "1;5;n;p;;2;7;0;0") =
      .ok (some ⟨5, js "n", js "p", [[]], 2, 7, 0, 0⟩) := by decide +kernel
  obtain ⟨c, hc⟩ := genRootData_one_line plainPlatform hparse ⟨0x70, by decide, by decide⟩
    fun _ => none
  refine ⟨c, hc, ?_⟩
  intro h
  have hnone := (onlyPackageNames_iff_split (hasRootTables_createdFrom _) hc).mp h _
    (List.mem_singleton_self _) _ hparse
  exact hnone (by decide +kernel)

end TrashClear
