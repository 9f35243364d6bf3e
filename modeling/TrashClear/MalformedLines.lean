import TrashClear.Completion

/-!
# One more line

What a further line `m` does to a generator that completes without it.  A line
that the parser answers by null is left out, and nothing else changes; a line on
which it throws ends the run, and an accepted line is one more row
(`run_further_line_iff`).

So among the lines that do not follow the format, those with too few fields are
harmless (`skipped_of_few_fields`), and a number that cannot be read is not.
-/

namespace TrashClear

open Java Fields Run Store

variable (p : Platform)

/-! ## Counting rows -/

/-- The number of rows of a table, 0 when it does not exist. -/
def rowCount (db : Database) (name : String) : Nat := (db.rows name).elim 0 Multiset.card

/-- Every new row counts. -/
theorem rowCount_of_inserts {ins : Insertion} {vss : List (List SqlValue)} {db db' : Database}
    (h : Inserts ins vss db db') :
    rowCount db' ins.table = rowCount db ins.table + vss.length ∧
      ∀ name ≠ ins.table, rowCount db' name = rowCount db name := by
  obtain ⟨t, row, t', ht, _, ⟨_, hrows⟩, rfl⟩ := h
  refine ⟨?_, ?_⟩
  · simp [rowCount, Database.rows, ht, Table.namedRows, hrows]
  · intro name hname
    simp [rowCount, Database.rows, Function.update_of_ne hname]

/-- A further line that can be read holds nothing, or is one more value. -/
theorem collect_further {α : Type} {parse : JString → Except Throwable (Option α)}
    {L₁ L₂ : List JString} {m : JString} {infos infos' : List α}
    (h : collect parse (L₁ ++ L₂) = .ok infos) (h' : collect parse (L₁ ++ m :: L₂) = .ok infos') :
    parse m = .ok none ∨ infos'.length = infos.length + 1 := by
  obtain ⟨us, vs, hus, hvs, rfl⟩ := collect_append.mp h
  obtain ⟨us', vs', hus', hvs', rfl⟩ := collect_append.mp h'
  obtain rfl := Except.ok.inj (hus.symm.trans hus')
  rcases collect_cons_eq_ok.mp hvs' with ⟨hm, _⟩ | ⟨info, rest, _, hrest, rfl⟩
  · exact Or.inl hm
  · obtain rfl := Except.ok.inj (hvs.symm.trans hrest)
    exact Or.inr (by simp; omega)

/-! ## A generator with a further line -/

/-- With the further line the generator completes too, and all tables have the
rows that it leaves without it. -/
def SameRows (gen : Option (List JString) → Jdbc Unit) (lines : List JString)
    (c c' : Connection Database) : Prop :=
  ∃ c'', gen (some lines) c = .ok () c'' ∧
    ∀ name, c''.durable.rows name = c'.durable.rows name

theorem insertLines_further_line {α : Type} {ins : Insertion}
    {parse : JString → Except Throwable (Option α)}
    {bind : α → PreparedStatement → Except Throwable PreparedStatement}
    {values : α → Except Throwable (List SqlValue)} {n : Nat} (hbind : Binds n bind values)
    (hcount : ins.count = n) {L₁ L₂ : List JString} {m : JString} {c c' : Connection Database}
    (h : insertLines ins parse bind (some (L₁ ++ L₂)) c = .ok () c') :
    SameRows (insertLines ins parse bind) (L₁ ++ m :: L₂) c c' ↔ parse m = .ok none := by
  obtain ⟨ls, infos, vss, db, hls, hinfos, hvss, hinserts, rfl⟩ :=
    (insertLines_iff hbind hcount).mp h
  obtain rfl := Option.some.inj hls
  constructor
  · intro h'
    obtain ⟨c'', h'', hrows⟩ := h'
    obtain ⟨ls', infos', vss', db', hls', hinfos', hvss', hinserts', rfl⟩ :=
      (insertLines_iff hbind hcount).mp h''
    obtain rfl := Option.some.inj hls'
    refine (collect_further hinfos hinfos').resolve_right ?_
    intro hmore
    have hsame : rowCount db' ins.table = rowCount db ins.table :=
      congrArg (fun rows => rows.elim 0 Multiset.card) (hrows ins.table)
    rw [(rowCount_of_inserts hinserts').1, (rowCount_of_inserts hinserts).1,
      length_of_mapM_eq_ok hvss, length_of_mapM_eq_ok hvss'] at hsame
    omega
  · intro hm
    rw [← collect_skip hm] at hinfos
    exact ⟨_, (insertLines_iff hbind hcount).mpr
      ⟨_, infos, vss, db, rfl, hinfos, hvss, hinserts, rfl⟩, fun _ => rfl⟩

theorem genRootData_further_line {L₁ L₂ : List JString} {m : JString}
    {c c' : Connection Database} (h : genRootData p (some (L₁ ++ L₂)) c = .ok () c') :
    SameRows (genRootData p) (L₁ ++ m :: L₂) c c' ↔ parseRootPathLine m = .ok none := by
  have hne : insertRootPath.table ≠ insertAppPkgname.table := by decide
  obtain ⟨ls, infos, vss, db₁, db₂, hls, hinfos, hvss, hroot, hpkgs, rfl⟩ :=
    (genRootData_iff p).mp h
  obtain rfl := Option.some.inj hls
  constructor
  · intro h'
    obtain ⟨c'', h'', hrows⟩ := h'
    obtain ⟨ls', infos', vss', db₁', db₂', hls', hinfos', hvss', hroot', hpkgs', rfl⟩ :=
      (genRootData_iff p).mp h''
    obtain rfl := Option.some.inj hls'
    refine (collect_further hinfos hinfos').resolve_right ?_
    intro hmore
    have hsame : rowCount db₂' insertRootPath.table = rowCount db₂ insertRootPath.table :=
      congrArg (fun rows => rows.elim 0 Multiset.card) (hrows insertRootPath.table)
    rw [(rowCount_of_inserts hpkgs').2 _ hne, (rowCount_of_inserts hpkgs).2 _ hne,
      (rowCount_of_inserts hroot').1, (rowCount_of_inserts hroot).1,
      length_of_mapM_eq_ok hvss, length_of_mapM_eq_ok hvss'] at hsame
    omega
  · intro hm
    rw [← collect_skip hm] at hinfos
    exact ⟨_, (genRootData_iff p).mpr
      ⟨_, infos, vss, db₁, db₂, rfl, hinfos, hvss, hroot, hpkgs, rfl⟩, fun _ => rfl⟩

namespace Generator

/-- The lines that the parser of a generator answers by null. -/
def Skipped (line : JString) : Generator → Prop
  | root => SkippedRootLine line
  | sub => SkippedSubLine line
  | description => SkippedIdTextLine line
  | app => SkippedIdTextLine line

/-- The fields that hold numbers. -/
def numericFields : Generator → List Nat
  | root => [1, 5, 6, 7, 8]
  | sub => [1, 2, 4, 5, 6, 7]
  | description => [0]
  | app => [0]

/-- The number of fields of a line. -/
def fieldCount : Generator → Nat
  | root => 9
  | sub => 8
  | description => 2
  | app => 2

/-- A line that does not follow the format of its file. -/
def Malformed (line : JString) (g : Generator) : Prop :=
  (split semicolon line).length < g.fieldCount ∨
    (∃ i ∈ g.numericFields, ∀ n, parseInt (field line i) ≠ .ok n) ∨
    g = root ∧ ∀ u ∈ field line 3, u = slash

/-- Too few fields are always answered by null. -/
theorem skipped_of_few_fields {g : Generator} {line : JString}
    (h : (split semicolon line).length < g.fieldCount) : g.Skipped line := by
  cases g with
  | root => exact Or.inl h
  | sub => exact Or.inr (Or.inr (Or.inl h))
  | description | app => exact Or.inr (Or.inl h)

/-- **A further line leaves a generation as it is exactly when the parser answers
it by null.** -/
theorem run_further_line_iff (g : Generator) {L₁ L₂ : List JString} {m : JString}
    {c c' : Connection Database} (h : g.run p (some (L₁ ++ L₂)) c = .ok () c') :
    SameRows (g.run p) (L₁ ++ m :: L₂) c c' ↔ g.Skipped m := by
  cases g with
  | root => exact (genRootData_further_line p h).trans parseRootPathLine_eq_none_iff
  | sub => exact (insertLines_further_line (binds_subPath p) rfl h).trans parseSubPath_eq_none_iff
  | description =>
      exact (insertLines_further_line (binds_subPathDescription p) rfl h).trans
        parseIdText_eq_none_iff
  | app => exact (insertLines_further_line (binds_appInfo p) rfl h).trans parseIdText_eq_none_iff

/-- A line with three fields between two accepted ones. -/
theorem run_further_line_iff_between :
    ∃ c, root.run plainPlatform (some ([js "1;5;n;p;x;2;7;0;0"] ++ [js "1;6;m;q;y;2;7;0;0"]))
        (Connection.opened (createdFrom fun _ => none)) = .ok () c ∧
      (SameRows (root.run plainPlatform)
          ([js "1;5;n;p;x;2;7;0;0"] ++ js "1;7;o" :: [js "1;6;m;q;y;2;7;0;0"])
          (Connection.opened (createdFrom fun _ => none)) c ↔
        root.Skipped (js "1;7;o")) ∧ root.Skipped (js "1;7;o") := by
  have hfirst : parseRootPathLine (js "1;5;n;p;x;2;7;0;0") =
      .ok (some ⟨5, js "n", js "p", [js "x"], 2, 7, 0, 0⟩) := by decide +kernel
  have hsecond : parseRootPathLine (js "1;6;m;q;y;2;7;0;0") =
      .ok (some ⟨6, js "m", js "q", [js "y"], 2, 7, 0, 0⟩) := by decide +kernel
  have hread : root.Readable ([js "1;5;n;p;x;2;7;0;0"] ++ [js "1;6;m;q;y;2;7;0;0"]) := by
    refine ⟨[⟨5, js "n", js "p", [js "x"], 2, 7, 0, 0⟩, ⟨6, js "m", js "q", [js "y"], 2, 7, 0, 0⟩],
      ?_, by decide, ?_⟩
    · exact collect_cons_eq_ok.mpr (Or.inr ⟨_, _, hfirst,
        collect_cons_eq_ok.mpr (Or.inr ⟨_, [], hsecond, rfl, rfl⟩), rfl⟩)
    · exact List.forall_mem_cons.mpr ⟨⟨0x70, by decide, by decide⟩,
        List.forall_mem_singleton.mpr ⟨0x71, by decide, by decide⟩⟩
  obtain ⟨c, hc⟩ := (Generator.returns_iff plainPlatform (g := root) fun _ _ => rfl).mpr
    ⟨_, rfl, hread⟩
  exact ⟨c, hc, run_further_line_iff plainPlatform root hc, Or.inl (by decide)⟩

/-- A line whose application id is no number ends a run that completes without it. -/
theorem run_further_line_throws :
    ∃ c, root.run plainPlatform (some ([] ++ [])) (Connection.opened (createdFrom fun _ => none)) =
        .ok () c ∧
      root.Malformed (js "1;x;n;p;q;2;7;0;0") ∧
      ¬ SameRows (root.run plainPlatform) ([] ++ js "1;x;n;p;q;2;7;0;0" :: [])
        (Connection.opened (createdFrom fun _ => none)) c := by
  refine ⟨Connection.opened (createdFrom fun _ => none), rfl, ?_, ?_⟩
  · have hid : parseInt (field (js "1;x;n;p;q;2;7;0;0") 1) = .error .numberFormat := by
      decide +kernel
    exact Or.inr (Or.inl ⟨1, by simp [numericFields], by simp [hid]⟩)
  · intro h'
    obtain ⟨c'', h, _⟩ := h'
    obtain ⟨ls, infos, _, _, _, hls, hinfos, _⟩ := (genRootData_iff plainPlatform).mp h
    obtain rfl := Option.some.inj hls
    have hline : parseRootPathLine (js "1;x;n;p;q;2;7;0;0") = .error .numberFormat := by
      decide +kernel
    simp [collect, hline] at hinfos

end Generator

end TrashClear
