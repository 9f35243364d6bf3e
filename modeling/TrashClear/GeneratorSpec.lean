import TrashClear.DataBaseOp

/-!
# What a generator does

One specification for each generator: it completes exactly when every line is
read, the values of every accepted line are there, and the tables can take the
new rows; then these rows are added and everything is durable.

* `insertLines_iff`, with its instances `genAppInfo_iff`,
  `genSubPathDescription_iff`, `genSubData_iff`; `genRootData_iff`.
* `insertLines_error` and `genRootData_error`: when a generator throws, nothing
  has become durable.
-/

namespace TrashClear

open Java Run Store

variable (p : Platform)

section OneTable

variable {α : Type} {ins : Insertion} {parse : JString → Except Throwable (Option α)}
  {bind : α → PreparedStatement → Except Throwable PreparedStatement}
  {values : α → Except Throwable (List SqlValue)}

/-- The loop over the accepted records collects their values. -/
theorem foldlM_addRow {n : Nat} (hbind : Binds n bind values) (infos : List α)
    (stmt : PreparedStatement) (hcount : stmt.insertion.count = n) :
    (∀ stmt', infos.foldlM (addRow bind) stmt = .ok stmt' →
        ∃ vss, infos.mapM values = .ok vss ∧ stmt.Grew vss stmt') ∧
      ∀ vss, infos.mapM values = .ok vss →
        ∃ stmt', infos.foldlM (addRow bind) stmt = .ok stmt' ∧ stmt.Grew vss stmt' := by
  induction infos generalizing stmt with
  | nil =>
      refine ⟨?_, ?_⟩
      · intro stmt' h
        obtain rfl : stmt = stmt' := Except.ok.inj h
        exact ⟨[], rfl, stmt.grew_nil⟩
      · intro vss h
        obtain rfl : [] = vss := Except.ok.inj h
        exact ⟨stmt, rfl, stmt.grew_nil⟩
  | cons info infos ih =>
      simp only [List.foldlM_cons, mapM_cons_eq_ok]
      rcases hbind info stmt with ⟨e, hb, hv⟩ | ⟨stmt₁, hb, hins, hbatch, hv⟩
      · simp [addRow, hb, hv]
      · have hstep : addRow bind stmt info = .ok stmt₁.addBatch := by simp [addRow, hb]
        have hgrew : stmt.Grew [(List.range' 1 n).map stmt₁.params] stmt₁.addBatch :=
          PreparedStatement.grew_addBatch hins hbatch hcount rfl
        obtain ⟨hto, hfrom⟩ := ih stmt₁.addBatch (hgrew.1 ▸ hcount)
        rw [hstep, hv]
        simp only [ok_bind, Except.ok.injEq]
        refine ⟨?_, ?_⟩
        · intro stmt' h
          obtain ⟨vss, hvss, hrest⟩ := hto stmt' h
          exact ⟨_, ⟨_, vss, rfl, hvss, rfl⟩, hgrew.trans hrest⟩
        · intro _ h'
          obtain ⟨_, vss, rfl, hvss, rfl⟩ := h'
          obtain ⟨stmt', h, hrest⟩ := hfrom vss hvss
          exact ⟨stmt', h, hgrew.trans hrest⟩

/-- Null or a list. -/
theorem nonNull_eq_ok {β : Type} {x : Option β} {y : β} : nonNull x = .ok y ↔ x = some y := by
  unfold nonNull
  cases x <;> simp

/-- The staged part of a generator of one table, as a change of the database. -/
theorem acts_stageLines (lines : Option (List JString)) :
    Store.Acts Connection.view (fun _ => True) (stageLines ins parse bind lines)
      (fun db => ins.prepare db >>= fun _ => nonNull lines >>= fun lines =>
        lines.foldlM (readThen parse (addRow bind)) (.fresh ins) >>= fun stmt =>
          stmt.batch.foldlM (fun db values => stmt.insertion.run values db) db) := by
  apply acts_prepareStatement_bind
  refine Store.acts_attempt_bind (fun lines _ => ?_)
  exact Store.acts_attempt_bind (fun stmt _ => acts_executeBatch stmt)

/-- **A generator of one table** completes exactly when its lines are there, all
of them are read, their values are found, and the table can take the rows. -/
theorem insertLines_iff {n : Nat} (hbind : Binds n bind values) (hcount : ins.count = n)
    {lines : Option (List JString)} {c c' : Connection Database} :
    insertLines ins parse bind lines c = .ok () c' ↔
      ∃ ls infos vss db', lines = some ls ∧ collect parse ls = .ok infos ∧
        infos.mapM values = .ok vss ∧ Inserts ins vss c.working db' ∧
        c' = Connection.opened db' := by
  unfold insertLines
  rw [Connection.run_commit (acts_stageLines lines)]
  simp only [bind_eq_ok, nonNull_eq_ok, foldlM_read_eq_ok]
  constructor
  · intro h
    obtain ⟨db', ⟨_, hprepare, ls, hls, stmt, ⟨infos, hinfos, hfold⟩, hrun⟩, rfl⟩ := h
    obtain ⟨vss, hvss, hins, hbatch⟩ := (foldlM_addRow hbind infos _ hcount).1 stmt hfold
    rw [hins, hbatch] at hrun
    exact ⟨ls, infos, vss, db', hls, hinfos, hvss, inserts_iff.mp ⟨hprepare, hrun⟩, rfl⟩
  · intro h
    obtain ⟨ls, infos, vss, db', hls, hinfos, hvss, hinserts, rfl⟩ := h
    obtain ⟨stmt, hfold, hins, hbatch⟩ := (foldlM_addRow hbind infos (.fresh ins) hcount).2 vss hvss
    obtain ⟨hprepare, hrun⟩ := inserts_iff.mpr hinserts
    refine ⟨db', ⟨(), hprepare, ls, hls, stmt, ⟨infos, hinfos, hfold⟩, ?_⟩, rfl⟩
    rw [hins, hbatch]
    exact hrun

/-- When a generator of one table throws, nothing has become durable. -/
theorem insertLines_error {lines : Option (List JString)} {c c' : Connection Database}
    {e : Throwable} (h : insertLines ins parse bind lines c = .error e c') :
    c'.durable = c.durable := by
  have hkeeps : Connection.Keeps (stageLines ins parse bind lines) :=
    (keeps_prepareStatement ins).bind fun _ => (Connection.keeps_attempt _).bind fun _ =>
      (Connection.keeps_attempt _).bind fun _ => keeps_executeBatch _
  exact hkeeps.allOrNothing.1 e h

end OneTable

theorem genAppInfo_iff {lines : Option (List JString)} {c c' : Connection Database} :
    genAppInfo p lines c = .ok () c' ↔
      ∃ ls infos vss db', lines = some ls ∧ collect parseAppInfo ls = .ok infos ∧
        infos.mapM (appInfoValues p) = .ok vss ∧ Inserts insertAppInfo vss c.working db' ∧
        c' = Connection.opened db' :=
  insertLines_iff (binds_appInfo p) rfl

theorem genSubPathDescription_iff {lines : Option (List JString)} {c c' : Connection Database} :
    genSubPathDescription p lines c = .ok () c' ↔
      ∃ ls infos vss db', lines = some ls ∧ collect parseTrashInfoDesc ls = .ok infos ∧
        infos.mapM (descriptionValues p) = .ok vss ∧
        Inserts insertSubPathDescription vss c.working db' ∧ c' = Connection.opened db' :=
  insertLines_iff (binds_subPathDescription p) rfl

theorem genSubData_iff {lines : Option (List JString)} {c c' : Connection Database} :
    genSubData p lines c = .ok () c' ↔
      ∃ ls infos vss db', lines = some ls ∧ collect parseSubPath ls = .ok infos ∧
        infos.mapM (subPathValues p) = .ok vss ∧ Inserts insertSubPath vss c.working db' ∧
        c' = Connection.opened db' :=
  insertLines_iff (binds_subPath p) rfl

/-! ## The two tables of the root lines -/

/-- The map after all root lines. -/
def packageMap (infos : List RootPathInfo) : List (Int32 × List JString) :=
  infos.foldl (fun m info => put m info.appId info.pkgs) []

/-- The rows of one map entry. -/
def packageValues (entry : Int32 × List JString) : List (List SqlValue) :=
  entry.2.map fun pkg => [int entry.1, .text pkg]

/-- The loop over the root records is the loop that fills the batch, and the map. -/
theorem foldlM_addRoot (infos : List RootPathInfo) (stmt : PreparedStatement)
    (m : List (Int32 × List JString)) :
    infos.foldlM (addRoot p) (stmt, m) =
      infos.foldlM (addRow (bindRootPath p)) stmt >>= fun stmt' =>
        .ok (stmt', infos.foldl (fun m info => put m info.appId info.pkgs) m) := by
  induction infos generalizing stmt m with
  | nil => rfl
  | cons info infos ih =>
      rw [List.foldlM_cons, List.foldlM_cons, List.foldl_cons]
      unfold addRoot
      cases addRow (bindRootPath p) stmt info with
      | error e => rfl
      | ok stmt₁ => exact ih stmt₁ (put m info.appId info.pkgs)

/-- One entry adds a row for each of its packages. -/
theorem grew_addPackages {stmt : PreparedStatement} (hcount : stmt.insertion.count = 2)
    (entry : Int32 × List JString) : stmt.Grew (packageValues entry) (addPackages stmt entry) := by
  have hloop : ∀ (pkgs : List JString) (stmt : PreparedStatement),
      stmt.insertion.count = 2 → stmt.params 1 = int entry.1 →
      stmt.Grew (pkgs.map fun pkg => [int entry.1, .text pkg])
        (pkgs.foldl (fun stmt pkg => (stmt.setString 2 pkg).addBatch) stmt) := by
    intro pkgs
    induction pkgs with
    | nil => exact fun stmt _ _ => stmt.grew_nil
    | cons pkg pkgs ih =>
        intro stmt hcount hid
        have hone : stmt.Grew [[int entry.1, .text pkg]] (stmt.setString 2 pkg).addBatch := by
          refine PreparedStatement.grew_addBatch rfl rfl hcount ?_
          simp [List.range', PreparedStatement.setString, hid]
        exact hone.trans (ih _ hcount (by simpa [PreparedStatement.setString,
          PreparedStatement.addBatch] using hid))
  exact hloop entry.2 (stmt.setInt 1 entry.1) hcount (by simp [PreparedStatement.setInt])

/-- The loop over the entries adds the rows of all of them. -/
theorem grew_foldl_addPackages (entries : List (Int32 × List JString)) {stmt : PreparedStatement}
    (hcount : stmt.insertion.count = 2) :
    stmt.Grew (entries.flatMap packageValues) (entries.foldl addPackages stmt) := by
  induction entries generalizing stmt with
  | nil => exact stmt.grew_nil
  | cons entry entries ih =>
      have hone := grew_addPackages hcount entry
      rw [List.flatMap_cons, List.foldl_cons]
      exact hone.trans (ih (hone.1 ▸ hcount))

/-- The staged part of `genRootData`, as a change of the database. -/
theorem acts_stageRootData (lines : Option (List JString)) :
    Store.Acts Connection.view (fun _ => True) (stageRootData p lines)
      (fun db => insertRootPath.prepare db >>= fun _ => nonNull lines >>= fun lines =>
        lines.foldlM (readThen parseRootPathLine (addRoot p)) (.fresh insertRootPath, []) >>=
          fun s => s.1.batch.foldlM (fun db values => s.1.insertion.run values db) db >>= fun db =>
            insertAppPkgname.prepare db >>= fun _ =>
              ((p.entrySet s.2).foldl addPackages (.fresh insertAppPkgname)).batch.foldlM
                (fun db values => ((p.entrySet s.2).foldl addPackages
                  (.fresh insertAppPkgname)).insertion.run values db) db) := by
  apply acts_prepareStatement_bind
  refine Store.acts_attempt_bind (fun lines _ => ?_)
  refine Store.acts_attempt_bind (fun s _ => ?_)
  refine Store.Acts.bind (fun _ _ _ => trivial) (acts_executeBatch s.1) ?_
  exact acts_prepareStatement_bind (acts_executeBatch _)

/-- **`genRootData`** completes exactly when its lines are there, all of them are
read, their values are found, and the two tables can take the rows. -/
theorem genRootData_iff {lines : Option (List JString)} {c c' : Connection Database} :
    genRootData p lines c = .ok () c' ↔
      ∃ ls infos vss db₁ db₂, lines = some ls ∧ collect parseRootPathLine ls = .ok infos ∧
        infos.mapM (rootPathValues p) = .ok vss ∧ Inserts insertRootPath vss c.working db₁ ∧
        Inserts insertAppPkgname ((p.entrySet (packageMap infos)).flatMap packageValues) db₁ db₂ ∧
        c' = Connection.opened db₂ := by
  have hpackages (infos : List RootPathInfo) :
      (PreparedStatement.fresh insertAppPkgname).Grew
        ((p.entrySet (packageMap infos)).flatMap packageValues)
        ((p.entrySet (packageMap infos)).foldl addPackages (.fresh insertAppPkgname)) :=
    grew_foldl_addPackages (p.entrySet (packageMap infos)) rfl
  unfold genRootData
  rw [Connection.run_commit (acts_stageRootData p lines)]
  simp only [bind_eq_ok, nonNull_eq_ok, foldlM_read_eq_ok, foldlM_addRoot, Except.ok.injEq]
  constructor
  · intro h
    obtain ⟨db₂, ⟨_, hprepare, ls, hls, _, ⟨infos, hinfos, stmt, hfold, rfl⟩, db₁, hrun, _,
      hprepare', hrun'⟩, rfl⟩ := h
    obtain ⟨vss, hvss, hins, hbatch⟩ :=
      (foldlM_addRow (binds_rootPath p) infos (.fresh insertRootPath) rfl).1 stmt hfold
    obtain ⟨hins', hbatch'⟩ := hpackages infos
    simp only [hins, hbatch] at hrun
    have hrun₂ := hrun'
    unfold packageMap at hins' hbatch'
    simp only [hins', hbatch'] at hrun₂
    exact ⟨ls, infos, vss, db₁, db₂, hls, hinfos, hvss, inserts_iff.mp ⟨hprepare, hrun⟩,
      inserts_iff.mp ⟨hprepare', hrun₂⟩, rfl⟩
  · intro h
    obtain ⟨ls, infos, vss, db₁, db₂, hls, hinfos, hvss, hroot, hpkgs, rfl⟩ := h
    obtain ⟨stmt, hfold, hins, hbatch⟩ :=
      (foldlM_addRow (binds_rootPath p) infos (.fresh insertRootPath) rfl).2 vss hvss
    obtain ⟨hins', hbatch'⟩ := hpackages infos
    obtain ⟨hprepare, hrun⟩ := inserts_iff.mpr hroot
    obtain ⟨hprepare', hrun'⟩ := inserts_iff.mpr hpkgs
    refine ⟨db₂, ⟨(), hprepare, ls, hls, _, ⟨infos, hinfos, stmt, hfold, rfl⟩, db₁, ?_, (),
      hprepare', ?_⟩, rfl⟩
    · simp only [hins, hbatch]
      exact hrun
    · unfold packageMap at hins' hbatch'
      simp only [hins', hbatch']
      exact hrun'

/-- When `genRootData` throws, nothing has become durable. -/
theorem genRootData_error {lines : Option (List JString)} {c c' : Connection Database}
    {e : Throwable} (h : genRootData p lines c = .error e c') : c'.durable = c.durable := by
  have hkeeps : Connection.Keeps (stageRootData p lines) :=
    (keeps_prepareStatement _).bind fun _ => (Connection.keeps_attempt _).bind fun _ =>
      (Connection.keeps_attempt _).bind fun _ => (keeps_executeBatch _).bind fun _ =>
        (keeps_prepareStatement _).bind fun _ => keeps_executeBatch _
  exact hkeeps.allOrNothing.1 e h

end TrashClear
