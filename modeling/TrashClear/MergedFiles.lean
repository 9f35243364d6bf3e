import TrashClear.ReadBack

/-!
# Local files in parts

The local files of a generation may be kept in parts, and their lines in any order.

* `readable_merge_iff`: a generator takes the merged lines exactly when it takes each part
  and no key occurs in two of them.
* `genLocalData_merge`: the same of a whole generation, and every table of the merged files
  holds the rows of the parts together.
-/

namespace TrashClear

open Java Fields Run Store Utf

variable (p : Platform)

/-! ## Lines that a generator takes -/

/-- The keys that the accepted lines take in the tables. -/
def Generator.keys (lines : List JString) : Generator → List Int32
  | .root => (accepted parseRootPathLine lines).map RootPathInfo.appId
  | .sub => []
  | .description => (accepted parseTrashInfoDesc lines).map TrashInfoDesc.id
  | .app => []

/-- A line that stops the generator neither in the parser nor at the path. -/
def Generator.Takes (line : JString) : Generator → Prop
  | .root => ∃ o, parseRootPathLine line = .ok o ∧ ∀ info ∈ o, ∃ u ∈ info.appRootPath, u ≠ slash
  | .sub => ∃ o, parseSubPath line = .ok o
  | .description => ∃ o, parseTrashInfoDesc line = .ok o
  | .app => ∃ o, parseAppInfo line = .ok o

/-- Readable lines, one by one. -/
theorem Generator.readable_iff {g : Generator} {lines : List JString} :
    g.Readable lines ↔ (∀ line ∈ lines, g.Takes line) ∧ (g.keys lines).Nodup := by
  cases g with
  | root =>
      constructor
      · intro h
        obtain ⟨infos, hinfos, hnodup, hslash⟩ := h
        obtain ⟨hread, rfl⟩ := collect_eq_ok_iff.mp hinfos
        refine ⟨fun line hline => ?_, hnodup⟩
        obtain ⟨o, ho⟩ := hread line hline
        refine ⟨o, ho, fun info hinfo => hslash info (List.mem_filterMap.mpr ⟨line, hline, ?_⟩)⟩
        exact found_eq_some.mpr (ho.trans (congrArg _ hinfo))
      · intro h
        obtain ⟨htakes, hnodup⟩ := h
        have hread : ∀ line ∈ lines, ∃ o, parseRootPathLine line = .ok o := fun line hline =>
          (htakes line hline).imp fun _ ho => ho.1
        refine ⟨_, collect_eq_ok_iff.mpr ⟨hread, rfl⟩, hnodup, fun info hinfo => ?_⟩
        obtain ⟨line, hline, hfound⟩ := List.mem_filterMap.mp hinfo
        obtain ⟨o, ho, hslash⟩ := htakes line hline
        exact hslash info (Except.ok.inj (ho.symm.trans (found_eq_some.mp hfound)))
  | sub =>
      constructor
      · intro h
        obtain ⟨infos, hinfos⟩ := h
        exact ⟨(collect_eq_ok_iff.mp hinfos).1, List.nodup_nil⟩
      · intro h
        exact ⟨_, collect_eq_ok_iff.mpr ⟨h.1, rfl⟩⟩
  | description =>
      constructor
      · intro h
        obtain ⟨infos, hinfos, hnodup⟩ := h
        obtain ⟨hread, rfl⟩ := collect_eq_ok_iff.mp hinfos
        exact ⟨hread, hnodup⟩
      · intro h
        exact ⟨_, collect_eq_ok_iff.mpr ⟨h.1, rfl⟩, h.2⟩
  | app =>
      constructor
      · intro h
        obtain ⟨infos, hinfos⟩ := h
        exact ⟨(collect_eq_ok_iff.mp hinfos).1, List.nodup_nil⟩
      · intro h
        exact ⟨_, collect_eq_ok_iff.mpr ⟨h.1, rfl⟩⟩

/-- Accepted lines in parts. -/
theorem accepted_flatMap {α ι : Type} (parse : JString → Except Throwable (Option α))
    (lines : ι → List JString) (parts : List ι) :
    accepted parse (parts.flatMap lines) = parts.flatMap fun f => accepted parse (lines f) :=
  List.filterMap_flatMap

theorem perm_accepted {α : Type} (parse : JString → Except Throwable (Option α))
    {lines lines' : List JString} (h : lines.Perm lines') :
    (accepted parse lines).Perm (accepted parse lines') := h.filterMap _

section Parts

variable {ι : Type} {linesOf : ι → List JString} {parts : List ι} {lines : List JString}
  (hlines : lines.Perm (parts.flatMap linesOf))

include hlines

/-- The keys of the merged lines are those of the parts. -/
theorem Generator.perm_keys (g : Generator) :
    (g.keys lines).Perm (parts.flatMap fun f => g.keys (linesOf f)) := by
  cases g with
  | root =>
      have h := (perm_accepted parseRootPathLine hlines).map RootPathInfo.appId
      rwa [accepted_flatMap, List.map_flatMap] at h
  | description =>
      have h := (perm_accepted parseTrashInfoDesc hlines).map TrashInfoDesc.id
      rwa [accepted_flatMap, List.map_flatMap] at h
  | sub | app =>
      show List.Perm [] (parts.flatMap fun _ => [])
      rw [List.flatMap_eq_nil_iff.mpr fun _ _ => rfl]

/-- **A generator takes merged lines** exactly when it takes the lines of every part, and no
key occurs in two parts. -/
theorem Generator.readable_merge_iff (g : Generator) :
    g.Readable lines ↔ (∀ f ∈ parts, g.Readable (linesOf f)) ∧
      parts.Pairwise fun f f' => (g.keys (linesOf f)).Disjoint (g.keys (linesOf f')) := by
  have htakes : (∀ line ∈ lines, g.Takes line) ↔
      ∀ f ∈ parts, ∀ line ∈ linesOf f, g.Takes line := by
    constructor
    · intro h f hf line hline
      exact h line (hlines.mem_iff.mpr (List.mem_flatMap.mpr ⟨f, hf, hline⟩))
    · intro h line hline
      obtain ⟨f, hf, hmem⟩ := List.mem_flatMap.mp (hlines.mem_iff.mp hline)
      exact h f hf line hmem
  rw [Generator.readable_iff, htakes, (g.perm_keys hlines).nodup_iff, List.nodup_flatMap]
  constructor
  · intro h
    obtain ⟨htake, hnodup, hapart⟩ := h
    exact ⟨fun f hf => Generator.readable_iff.mpr ⟨htake f hf, hnodup f hf⟩, hapart⟩
  · intro h
    obtain ⟨hreadable, hapart⟩ := h
    exact ⟨fun f hf => (Generator.readable_iff.mp (hreadable f hf)).1,
      fun f hf => (Generator.readable_iff.mp (hreadable f hf)).2, hapart⟩

end Parts

/-! ## Rows of merged lines -/

/-- The rows of a table, each added by a line. -/
def Holds (add : JString → List (Option NamedRow)) (table : String) (lines : List JString)
    (db : Database) : Prop :=
  ∃ rows, db.rows table = some rows ∧
    rows.map some = ((lines.flatMap add : List (Option NamedRow)) : Multiset (Option NamedRow))

theorem holds_of_generated {α : Type} {parse : JString → Except Throwable (Option α)}
    {row : α → Except Throwable NamedRow} {table : String} {lines : List JString} {db : Database}
    (h : Generated parse row table lines db) :
    Holds (fun line => ((found parse line).map fun info => (row info).toOption).toList) table
      lines db := by
  obtain ⟨rows, hrows, htable⟩ := h
  refine ⟨rows, htable, ?_⟩
  have hmap : rows.map some = (accepted parse lines).map fun info => (row info).toOption :=
    map_eq_of_mapM_eq_ok (fun info r hr => by rw [hr]; rfl) hrows
  rw [Multiset.map_coe, hmap, accepted, List.map_filterMap, List.filterMap_eq_flatMap_toList]

theorem holds_of_packagesGenerated {lines : List JString} {db : Database}
    (h : PackagesGenerated lines db) :
    Holds (fun line => (found parseRootPathLine line).toList.flatMap fun info =>
      (appPkgnameRows info).map some) tableAppPkgname lines db := by
  refine ⟨_, h, ?_⟩
  rw [Multiset.map_coe, accepted, List.filterMap_eq_flatMap_toList, List.map_flatMap,
    List.flatMap_assoc]

/-- What a finished generator leaves in one of its tables depends on its lines one by one. -/
theorem Generator.exists_holds {g : Generator} {table : String} (h : table ∈ g.tables) :
    ∃ add, ∀ lines db, g.Done p lines db → Holds add table lines db := by
  cases g with
  | root =>
      rcases List.mem_pair.mp h with rfl | rfl
      · exact ⟨_, fun lines db hdone => holds_of_generated hdone.1⟩
      · exact ⟨_, fun lines db hdone => holds_of_packagesGenerated hdone.2⟩
  | sub | description | app =>
      obtain rfl := List.mem_singleton.mp h
      exact ⟨_, fun lines db hdone => holds_of_generated hdone⟩

/-- A table holds the rows that it has in all of the other databases. -/
def Sums (table : String) (db : Database) (dbs : List Database) : Prop :=
  ∃ rowss : List (Multiset NamedRow), dbs.map (fun part => part.rows table) = rowss.map some ∧
    db.rows table = some rowss.sum

/-- **The rows of merged lines** are the rows of the parts. -/
theorem sums_of_holds {ι κ : Type} {linesOf : ι → List JString} {left : κ → Database}
    {parts : List ι} {cs : List κ} {lines : List JString} {db : Database}
    {add : JString → List (Option NamedRow)} {table : String}
    (hlines : lines.Perm (parts.flatMap linesOf)) (hdb : Holds add table lines db)
    (hparts : List.Forall₂ (fun f c => Holds add table (linesOf f) (left c)) parts cs) :
    Sums table db (cs.map left) := by
  have hsum : ∃ rowss : List (Multiset NamedRow),
      cs.map (fun c => (left c).rows table) = rowss.map some ∧
        rowss.sum.map some = (((parts.flatMap linesOf).flatMap add : List (Option NamedRow)) :
          Multiset (Option NamedRow)) := by
    clear hlines
    induction hparts with
    | nil => exact ⟨[], rfl, rfl⟩
    | cons hf _ ih =>
        obtain ⟨rows, hrows, hadd⟩ := hf
        obtain ⟨rowss, hrowss, hadds⟩ := ih
        refine ⟨rows :: rowss, ?_, ?_⟩
        · rw [List.map_cons, List.map_cons, hrows, hrowss]
        · rw [List.sum_cons, Multiset.map_add, hadd, hadds, List.flatMap_cons,
            List.flatMap_append, Multiset.coe_add]
  obtain ⟨rowss, hrowss, hadds⟩ := hsum
  obtain ⟨rows, hrows, hadd⟩ := hdb
  refine ⟨rowss, ?_, ?_⟩
  · rw [List.map_map]
    exact hrowss
  · rw [hrows]
    refine congrArg some (Multiset.map_injective (Option.some_injective _) ?_)
    rw [hadd, hadds]
    exact Multiset.coe_eq_coe.mpr (hlines.flatMap_right add)

/-! ## A whole generation -/

namespace CompleteFiles

/-- The file of a generator. -/
def content (f : CompleteFiles) : Generator → List UInt8
  | .root => f.rootPath
  | .sub => f.subPath
  | .description => f.subPathDescription
  | .app => f.appName

/-- The lines that a generator is given. -/
def lines (f : CompleteFiles) (g : Generator) : List JString := fileLines (f.content g)

theorem getLines_file (f : CompleteFiles) (g : Generator) :
    getLines (g.file f.toLocalFiles) = some (f.lines g) := by
  cases g <;> rfl

/-- Each file has the lines of the parts, in any order. -/
def Merges (m : CompleteFiles) (parts : List CompleteFiles) : Prop :=
  ∀ g : Generator, (m.lines g).Perm (parts.flatMap fun f => f.lines g)

/-- No key is in both. -/
def Apart (f f' : CompleteFiles) : Prop :=
  ∀ g : Generator, (g.keys (f.lines g)).Disjoint (g.keys (f'.lines g))

/-- The files of the parts one behind the other. -/
def concat (parts : List CompleteFiles) : CompleteFiles where
  rootPath := parts.flatMap rootPath
  subPath := parts.flatMap subPath
  subPathDescription := parts.flatMap subPathDescription
  appName := parts.flatMap appName

end CompleteFiles

/-- An empty file, or a text whose last line is terminated. -/
def WholeLines (content : List UInt8) : Prop :=
  content = [] ∨ ∃ text, IsText (text ++ [0x0A]) ∧ content = getBytes (text ++ [0x0A])

/-- Behind whole lines a file is read by itself. -/
theorem fileLines_append {content : List UInt8} (h : WholeLines content) (rest : List UInt8) :
    fileLines (content ++ rest) = fileLines content ++ fileLines rest := by
  rcases h with rfl | ⟨text, ⟨cs, hcs⟩, rfl⟩
  · rfl
  · have hrest : newString (getBytes (text ++ [0x0A]) ++ rest) =
        text ++ 0x0A :: newString rest := by
      unfold newString
      rw [hcs, getBytes_encode16, decode8_encode8_append, encode16, List.flatMap_append,
        ← encode16, ← hcs, List.append_assoc]
      rfl
    have htext : newString (getBytes (text ++ [0x0A])) = text ++ [0x0A] := by
      rw [hcs, newString_getBytes]
    unfold fileLines
    rw [hrest, htext, readLines, linesFrom_append]
    rfl

/-- Files of whole lines are merged by writing them one behind the other. -/
theorem merges_concat {parts : List CompleteFiles}
    (h : ∀ f ∈ parts, ∀ g, WholeLines (f.content g)) :
    (CompleteFiles.concat parts).Merges parts := by
  intro g
  have hcontent : (CompleteFiles.concat parts).content g = parts.flatMap fun f => f.content g := by
    cases g <;> rfl
  have hlines : fileLines (parts.flatMap fun f => f.content g) =
      parts.flatMap fun f => fileLines (f.content g) := by
    clear hcontent
    induction parts with
    | nil => rfl
    | cons f parts ih =>
        obtain ⟨hf, hparts⟩ := List.forall_mem_cons.mp h
        rw [List.flatMap_cons, List.flatMap_cons, fileLines_append (hf g), ih hparts]
  unfold CompleteFiles.lines
  rw [hcontent, hlines]

variable {m : CompleteFiles} {parts : List CompleteFiles} {p}

/-- A generation returns exactly when every generator takes its lines. -/
theorem returns_iff_readable (f : CompleteFiles) (prior : Database) :
    (∃ c, genLocalData p f.toLocalFiles (Connection.opened prior) = .ok () c) ↔
      ∀ g : Generator, g.Readable (f.lines g) := by
  rw [genLocalData_returns_iff]
  constructor
  · intro h g
    obtain ⟨lines, hlines, hg⟩ := h g
    obtain rfl := Option.some.inj ((f.getLines_file g).symm.trans hlines)
    exact hg
  · intro h g
    exact ⟨_, f.getLines_file g, h g⟩

/-- The tables of every generator hold the rows of its lines. -/
theorem done_lines {f : CompleteFiles} {prior : Database} {c : Connection Database}
    (h : genLocalData p f.toLocalFiles (Connection.opened prior) = .ok () c) (g : Generator) :
    g.Done p (f.lines g) c.durable := by
  cases g <;> exact done_of_returns p h rfl

/-- The five tables are those of the generators. -/
theorem exists_generator {table : String} (h : table ∈ getDeleteTables) :
    ∃ g : Generator, table ∈ g.tables := by
  have hall : ∀ table ∈ getDeleteTables, ∃ g ∈ Generator.all, table ∈ g.tables := by decide
  obtain ⟨g, _, hg⟩ := hall table h
  exact ⟨g, hg⟩

/-- **A generation from merged files** returns exactly when one from each part does and no
key is in two parts; then every table holds the rows of the parts together. -/
theorem genLocalData_merge (hm : m.Merges parts) (prior : Database)
    (priors : CompleteFiles → Database) :
    ((∃ c, genLocalData p m.toLocalFiles (Connection.opened prior) = .ok () c) ↔
        (∀ f ∈ parts, ∃ c,
          genLocalData p f.toLocalFiles (Connection.opened (priors f)) = .ok () c) ∧
          parts.Pairwise CompleteFiles.Apart) ∧
      ∀ c cs, genLocalData p m.toLocalFiles (Connection.opened prior) = .ok () c →
        List.Forall₂ (fun f c' =>
          genLocalData p f.toLocalFiles (Connection.opened (priors f)) = .ok () c') parts cs →
        ∀ table ∈ getDeleteTables, Sums table c.durable (cs.map Connection.durable) := by
  constructor
  · simp only [returns_iff_readable, fun g : Generator => g.readable_merge_iff (hm g)]
    constructor
    · intro h
      refine ⟨fun f hf g => (h g).1 f hf, ?_⟩
      rw [List.pairwise_iff_getElem]
      intro i j hi hj hij g
      exact List.pairwise_iff_getElem.mp (h g).2 i j hi hj hij
    · intro h g
      exact ⟨fun f hf => h.1 f hf g, h.2.imp fun hapart => hapart g⟩
  · intro c cs hc hcs table htable
    obtain ⟨g, hg⟩ := exists_generator htable
    obtain ⟨add, hadd⟩ := g.exists_holds p hg
    exact sums_of_holds (hm g) (hadd _ _ (done_lines hc g))
      (hcs.imp fun f c' hc' => hadd _ _ (done_lines hc' g))

/-! ## Two parts -/

/-- Terminated lines are whole. -/
theorem wholeLines_writeLines {lines : List JString} (h : ∀ line ∈ lines, IsText line) :
    WholeLines (LocalRecords.writeLines lines) := by
  rcases List.eq_nil_or_concat lines with rfl | ⟨init, last, rfl⟩
  · exact Or.inl rfl
  · have htext := LocalRecords.isText_flatMap_line h
    rw [List.concat_eq_append, List.flatMap_append, List.flatMap_singleton,
      ← List.append_assoc] at htext
    refine Or.inr ⟨_, htext, ?_⟩
    unfold LocalRecords.writeLines
    rw [List.concat_eq_append, List.flatMap_append, List.flatMap_singleton, ← List.append_assoc]

/-- Records of other keys. -/
def furtherRecords : LocalRecords where
  roots := [⟨6, js "m", js "r", [js "x"], 2, 7, 0, 0, by decide, by decide, by decide,
    by decide, by decide, by decide, by decide⟩]
  subs := []
  descriptions := [(4, ⟨js "u", by decide, by decide⟩)]
  apps := []

theorem writable_furtherRecords : furtherRecords.Writable := by
  intro g
  cases g with
  | root =>
      exact List.forall_mem_singleton.mpr
        ⟨⟨"1;6;m;r;x;2;7;0;0".toList, by decide +kernel⟩, by decide +kernel⟩
  | sub => exact fun line hline => absurd hline List.not_mem_nil
  | description =>
      exact List.forall_mem_singleton.mpr ⟨⟨"4;u".toList, by decide +kernel⟩, by decide +kernel⟩
  | app => exact fun line hline => absurd hline List.not_mem_nil

theorem returns_furtherRecords (p : Platform) (prior : Database) :
    ∃ c, genLocalData p furtherRecords.files.toLocalFiles (Connection.opened prior) = .ok () c := by
  have hslash : ∃ u ∈ js "r", u ≠ slash := ⟨0x72, by decide, by decide⟩
  exact (returns_records_iff p writable_furtherRecords prior).mpr
    ⟨by decide, by decide, List.forall_mem_singleton.mpr hslash⟩

/-- Written records are apart when their application ids and the ids of their descriptions
are. -/
theorem apart_records {r r' : LocalRecords} (h : r.Writable) (h' : r'.Writable)
    (hroots : (r.roots.map RootRecord.appId).Disjoint (r'.roots.map RootRecord.appId))
    (hdescriptions : (r.descriptions.map Prod.fst).Disjoint (r'.descriptions.map Prod.fst)) :
    r.files.Apart r'.files := by
  have hroot {r : LocalRecords} (h : r.Writable) :
      Generator.root.keys (r.files.lines .root) = r.roots.map RootRecord.appId := by
    show (accepted parseRootPathLine (fileLines r.files.rootPath)).map _ = _
    rw [accepted_roots h, List.map_map]
    rfl
  have hdescription {r : LocalRecords} (h : r.Writable) :
      Generator.description.keys (r.files.lines .description) = r.descriptions.map Prod.fst := by
    show (accepted parseTrashInfoDesc (fileLines r.files.subPathDescription)).map _ = _
    rw [accepted_descriptions h, List.map_map]
    rfl
  intro g
  cases g with
  | root => rwa [hroot h, hroot h']
  | description => rwa [hdescription h, hdescription h']
  | sub | app => exact List.disjoint_nil_left _

/-- The sample records and records of other keys, one file behind the other. -/
theorem genLocalData_merge_sample :
    ∃ c c₁ c₂, genLocalData plainPlatform
          (CompleteFiles.concat [sampleRecords.files, furtherRecords.files]).toLocalFiles
          (Connection.opened fun _ => none) = .ok () c ∧
        genLocalData plainPlatform sampleRecords.files.toLocalFiles
          (Connection.opened fun _ => none) = .ok () c₁ ∧
        genLocalData plainPlatform furtherRecords.files.toLocalFiles
          (Connection.opened fun _ => none) = .ok () c₂ ∧
        ∀ table ∈ getDeleteTables, Sums table c.durable [c₁.durable, c₂.durable] := by
  have hwhole : ∀ f ∈ [sampleRecords.files, furtherRecords.files], ∀ g : Generator,
      WholeLines (f.content g) := by
    refine List.forall_mem_cons.mpr ⟨fun g => ?_, List.forall_mem_singleton.mpr fun g => ?_⟩
    · have hlines := wholeLines_writeLines fun line hline => (writable_sampleRecords g line hline).1
      cases g <;> exact hlines
    · have hlines := wholeLines_writeLines fun line hline =>
        (writable_furtherRecords g line hline).1
      cases g <;> exact hlines
  have hmerge := genLocalData_merge (p := plainPlatform) (merges_concat hwhole) (fun _ => none)
    fun _ _ => none
  obtain ⟨c₁, hc₁⟩ := returns_sampleRecords plainPlatform fun _ => none
  obtain ⟨c₂, hc₂⟩ := returns_furtherRecords plainPlatform fun _ => none
  have hapart := apart_records writable_sampleRecords writable_furtherRecords
    (List.singleton_disjoint.mpr (by decide)) (List.singleton_disjoint.mpr (by decide))
  obtain ⟨c, hc⟩ := hmerge.1.mpr
    ⟨List.forall_mem_cons.mpr ⟨⟨c₁, hc₁⟩, List.forall_mem_singleton.mpr ⟨c₂, hc₂⟩⟩,
      List.pairwise_pair.mpr hapart⟩
  exact ⟨c, c₁, c₂, hc, hc₁, hc₂, hmerge.2 c [c₁, c₂] hc (.cons hc₁ (.cons hc₂ .nil))⟩

end TrashClear
