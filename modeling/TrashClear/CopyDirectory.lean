import TrashClear.FileUtil
import TrashClear.Library.Overlay

/-!
# What a copied directory holds

`FileUtil.copyDirectiory` lays the source tree under the target tree: what is at the
target stays, and only what is not there is copied.

* `overlaid`: a call that returns leaves such an overlay.
* `repaired_iff`: a call that was interrupted is completed by a second one, unless a part
  of a file was on the disk: the second call takes that for the file.

Both read off `copyDirectiory_outcome`, which says how a call can end.
-/

namespace TrashClear.FileUtil

open Java Disk Run Files FileSystem

section Outcome

/-- How copying the tree at `sourceDir` can end; files at `covered` places are there when
it returns. -/
inductive DirOutcome (sourceDir targetDir : JPath) (covered : JPath → Prop) (files : Tree) :
    EStateM.Result Stop Machine Unit → Prop
  | returned (m : Machine) : Overlay sourceDir targetDir none files m.files →
      (∀ w c, covered w → files.lookup (sourceDir ++ w) = some (.file c) →
        m.files.lookup (targetDir ++ w) ≠ none) →
      DirOutcome sourceDir targetDir covered files (.ok () m)
  | stopped (e : Stop) (m : Machine) : (∀ source target n, e ≠ .io (.transfer source target n)) →
      Overlay sourceDir targetDir none files m.files →
      DirOutcome sourceDir targetDir covered files (.error e m)
  | interrupted (w : JPath) (c : List UInt8) (n : Nat) (m : Machine) :
      files.lookup (sourceDir ++ w) = some (.file c) → files.lookup (targetDir ++ w) = none →
      n ≤ c.length →
      Overlay sourceDir targetDir (some (targetDir ++ w, c.take n)) files m.files →
      m.files.lookup (targetDir ++ w) = some (.file (c.take n)) →
      DirOutcome sourceDir targetDir covered files
        (.error (.io (.transfer (sourceDir ++ w) (targetDir ++ w) n)) m)

variable {sourceDir targetDir : JPath} {files : Tree} {name : JString}

/-- A copied file is an overlay. -/
theorem dirOutcome_copyFile {sourceFile targetFile : JPath} {m : Machine} {content : List UInt8}
    (hsource : m.files.lookup sourceFile = some (.file content)) :
    DirOutcome sourceFile targetFile (fun _ => True) m.files
      (copyFile sourceFile targetFile m) := by
  have hbelow {w : JPath} {c : List UInt8}
      (hw : m.files.lookup (sourceFile ++ w) = some (.file c)) : w = [] := by
    by_contra hne
    rw [lookup_below_file hsource hne] at hw
    cases hw
  have houtcome := copyFile_outcome sourceFile targetFile m
  generalize copyFile sourceFile targetFile m = result at houtcome
  cases houtcome with
  | skipped hexists =>
      refine .returned m (Overlay.refl _ _ _) fun w c _ hw => ?_
      rwa [hbelow hw, List.append_nil]
  | notOpened p m' hfiles =>
      refine .stopped _ m' (fun source target n h => by cases h) ?_
      rw [hfiles]
      exact Overlay.refl _ _ _
  | copied content' m' hnone hcontent hwrites =>
      refine .returned m' (hwrites.overlay hnone (.top hcontent)) fun w c _ hw => ?_
      rw [hbelow hw, List.append_nil, hwrites, if_pos rfl]
      exact Option.some_ne_none _
  | interrupted content' n m' hnone hcontent hn hwrites =>
      have h : DirOutcome sourceFile targetFile (fun _ => True) m.files
          (.error (.io (.transfer (sourceFile ++ []) (targetFile ++ []) n)) m') := by
        refine .interrupted [] content' n m' ?_ ?_ hn ?_ ?_
        · rwa [List.append_nil]
        · rwa [List.append_nil]
        · rw [List.append_nil]
          exact hwrites.overlay hnone (.top_broken _)
        · rw [List.append_nil, hwrites, if_pos rfl]
      rwa [List.append_nil, List.append_nil] at h

theorem DirOutcome.mono {covered covered' : JPath → Prop} {result}
    (h : DirOutcome sourceDir targetDir covered files result)
    (hmono : ∀ w c, covered' w → files.lookup (sourceDir ++ w) = some (.file c) → covered w) :
    DirOutcome sourceDir targetDir covered' files result := by
  cases h with
  | returned m hoverlay hcovered =>
      exact .returned m hoverlay fun w c hw hfile => hcovered w c (hmono w c hw hfile) hfile
  | stopped e m hstop hoverlay => exact .stopped e m hstop hoverlay
  | interrupted w c n m hsource hnone hn hoverlay hbroken =>
      exact .interrupted w c n m hsource hnone hn hoverlay hbroken

/-- One entry after others: what they covered stays covered. -/
theorem DirOutcome.outer {covered : JPath → Prop} {m : Machine} {result}
    (hapart : Apart sourceDir targetDir) (hoverlay : Overlay sourceDir targetDir none files m.files)
    (hcovered : ∀ w c, covered w → files.lookup (sourceDir ++ w) = some (.file c) →
      m.files.lookup (targetDir ++ w) ≠ none)
    (hname : files.lookup (sourceDir ++ [name]) ≠ none)
    (h : DirOutcome (sourceDir ++ [name]) (targetDir ++ [name]) (fun _ => True) m.files result) :
    DirOutcome sourceDir targetDir (fun w => covered w ∨ ∃ v, w = name :: v) files result := by
  have hsame (w : JPath) :
      m.files.lookup (sourceDir ++ [name] ++ w) = files.lookup (sourceDir ++ name :: w) := by
    rw [List.append_assoc]
    exact hoverlay.source hapart (name :: w)
  have htarget (w : JPath) : targetDir ++ [name] ++ w = targetDir ++ name :: w := by
    rw [List.append_assoc]
    rfl
  cases h with
  | returned m' hnext hnew =>
      refine .returned m' (hoverlay.trans hapart hname hnext) fun w c hw hfile => ?_
      rcases hw with hw | ⟨v, rfl⟩
      · exact hnext.keeps.ne_none (hcovered w c hw hfile)
      · have hv := hnew v c trivial (by rw [hsame, hfile])
        rwa [htarget] at hv
  | stopped e m' hstop hnext => exact .stopped e m' hstop (hoverlay.trans hapart hname hnext)
  | interrupted w c n m' hsource hnone hn hnext hbroken =>
      have hfile := (hsame w).symm.trans hsource
      have hstill := hoverlay.trans hapart hname hnext
      rw [htarget] at hnone hbroken hstill
      have habsent : files.lookup (targetDir ++ name :: w) = none := by
        by_contra hsome
        exact hoverlay.keeps.ne_none hsome hnone
      rw [List.append_assoc, htarget]
      exact .interrupted (name :: w) c n m' hfile habsent hn hstill hbroken

/-- **The loop** over the entries of a directory. -/
theorem dirOutcome_forM {body : JString → Files Unit} (hapart : Apart sourceDir targetDir)
    (hbody : ∀ name m, m.files.lookup (sourceDir ++ [name]) ≠ none →
      DirOutcome (sourceDir ++ [name]) (targetDir ++ [name]) (fun _ => True) m.files (body name m))
    (names : List JString) (hnames : ∀ name ∈ names, files.lookup (sourceDir ++ [name]) ≠ none)
    {covered : JPath → Prop} {m : Machine}
    (hoverlay : Overlay sourceDir targetDir none files m.files)
    (hcovered : ∀ w c, covered w → files.lookup (sourceDir ++ w) = some (.file c) →
      m.files.lookup (targetDir ++ w) ≠ none) :
    DirOutcome sourceDir targetDir (fun w => covered w ∨ ∃ name ∈ names, ∃ v, w = name :: v) files
      (names.forM body m) := by
  induction names generalizing covered m with
  | nil =>
      have hrun : ([] : List JString).forM body m = .ok () m := rfl
      rw [hrun]
      refine .returned m hoverlay fun w c hw => hcovered w c ?_
      rcases hw with hw | ⟨name, hname, -⟩
      · exact hw
      · cases hname
  | cons name names ih =>
      obtain ⟨hname, hnames⟩ := List.forall_mem_cons.mp hnames
      have hthere : m.files.lookup (sourceDir ++ [name]) ≠ none := by
        rwa [hoverlay.source hapart]
      have hfirst := (hbody name m hthere).outer hapart hoverlay hcovered hname
      rw [run_forM_cons]
      cases hrun : body name m with
      | error e m' =>
          rw [hrun] at hfirst
          rw [run_bind_of_error hrun]
          cases hfirst with
          | stopped _ _ hstop hnext => exact .stopped e m' hstop hnext
          | interrupted w c n _ hsource hnone hn hnext hbroken =>
              exact .interrupted w c n m' hsource hnone hn hnext hbroken
      | ok a m' =>
          rw [hrun] at hfirst
          rw [run_bind_of_ok hrun]
          cases hfirst with
          | returned _ hnext hnew =>
              refine (ih hnames hnext hnew).mono fun w c hw _ => ?_
              rcases hw with hw | ⟨other, hother, hv⟩
              · exact Or.inl (Or.inl hw)
              · rcases List.mem_cons.mp hother with rfl | hother
                · exact Or.inl (Or.inr hv)
                · exact Or.inr ⟨other, hother, hv⟩

/-- **How copying a directory can end**, when neither directory is in the other. -/
theorem copyDirectiory_outcome (order : Order) (depth : Nat) {m : Machine}
    (hapart : Apart sourceDir targetDir) (hdir : m.files.lookup sourceDir = some .dir) :
    DirOutcome sourceDir targetDir (fun _ => True) m.files
      (copyDirectiory order depth sourceDir targetDir m) := by
  induction depth generalizing sourceDir targetDir m with
  | zero => exact .stopped _ m (fun source target n h => by cases h) (Overlay.refl _ _ _)
  | succ depth ih =>
      have hmkdirs : Overlay sourceDir targetDir none m.files (m.files.mkdirs targetDir) :=
        overlay_mkdirs hdir
      have hlist : listFiles order sourceDir { m with files := m.files.mkdirs targetDir } =
          .ok (order.list (m.files.mkdirs targetDir) sourceDir)
            { m with files := m.files.mkdirs targetDir } :=
        run_listFiles (hmkdirs.keeps _ _ hdir)
      rw [copyDirectiory, run_bind_of_ok (run_mkdirs targetDir m), run_bind_of_ok hlist]
      have hbody : ∀ name (m : Machine), m.files.lookup (sourceDir ++ [name]) ≠ none →
          DirOutcome (sourceDir ++ [name]) (targetDir ++ [name]) (fun _ => True) m.files
            (copyEntry (copyDirectiory order depth) sourceDir targetDir name m) := by
        intro name m hname
        rcases hentry : m.files.lookup (sourceDir ++ [name]) with _ | content | _
        · exact absurd hentry hname
        · rw [run_copyEntry_file hentry]
          exact dirOutcome_copyFile hentry
        · rw [run_copyEntry_dir hentry]
          exact ih (hapart.append [name] [name]) hentry
      have hnames : ∀ name ∈ order.list (m.files.mkdirs targetDir) sourceDir,
          m.files.lookup (sourceDir ++ [name]) ≠ none := by
        intro name hname
        have hthere := order.mem_list.mp hname
        rwa [hmkdirs.source hapart] at hthere
      have hloop : DirOutcome sourceDir targetDir (fun w => False ∨
            ∃ name ∈ order.list (m.files.mkdirs targetDir) sourceDir, ∃ v, w = name :: v) m.files
          ((order.list (m.files.mkdirs targetDir) sourceDir).forM
            (copyEntry (copyDirectiory order depth) sourceDir targetDir)
            { m with files := m.files.mkdirs targetDir }) :=
        dirOutcome_forM hapart hbody _ hnames hmkdirs fun w c hw => hw.elim
      refine hloop.mono fun w c _ hfile => ?_
      cases w with
      | nil =>
          rw [List.append_nil, hdir] at hfile
          cases hfile
      | cons name v =>
          -- whatever is in the directory was listed
          refine Or.inr ⟨name, order.mem_list.mpr ?_, v, rfl⟩
          rw [hmkdirs.source hapart]
          exact first_ne_none (hfile ▸ Option.some_ne_none _)

/-- A source that is no directory is not copied, and no stream is opened. -/
theorem copyDirectiory_null (order : Order) (depth : Nat) {m : Machine}
    (hapart : Apart sourceDir targetDir) (hdir : m.files.lookup sourceDir ≠ some .dir) :
    ∃ e m', copyDirectiory order depth sourceDir targetDir m = .error e m' ∧
      (e = .unfinished ∨ e = .nullPointer) := by
  cases depth with
  | zero => exact ⟨.unfinished, m, rfl, Or.inl rfl⟩
  | succ depth =>
      have hstill : (m.files.mkdirs targetDir).lookup sourceDir ≠ some .dir := by
        intro hnew
        cases hold : m.files.lookup sourceDir with
        | none => exact hapart.1 (mkdirs_new hold hnew).2
        | some e =>
            have hsame := extends_mkdirs m.files targetDir _ e hold
            exact hdir (hold.trans (hsame.symm.trans hnew))
      have hlist : listFiles order sourceDir { m with files := m.files.mkdirs targetDir } =
          .error .nullPointer { m with files := m.files.mkdirs targetDir } :=
        run_listFiles_null hstill
      refine ⟨.nullPointer, { m with files := m.files.mkdirs targetDir }, ?_, Or.inr rfl⟩
      rw [copyDirectiory, run_bind_of_ok (run_mkdirs targetDir m), run_bind_of_error hlist]

end Outcome

/-! ## A call that returns -/

/-- The tree at `sourceDir` is laid under the tree at `targetDir`, and nothing is
overwritten. -/
structure Overlaid (sourceDir targetDir : JPath) (before after : Tree) : Prop where
  copied : ∀ w c, before.lookup (sourceDir ++ w) = some (.file c) →
    before.lookup (targetDir ++ w) = none → after.lookup (targetDir ++ w) = some (.file c)
  filesKept : ∀ w c, before.lookup (targetDir ++ w) = some (.file c) →
    after.lookup (targetDir ++ w) = some (.file c)
  directoriesKept : ∀ w, before.lookup (targetDir ++ w) = some .dir →
    after.lookup (targetDir ++ w) = some .dir
  noOther : ∀ w c, after.lookup (targetDir ++ w) = some (.file c) →
    before.lookup (targetDir ++ w) = some (.file c) ∨
      before.lookup (targetDir ++ w) = none ∧ before.lookup (sourceDir ++ w) = some (.file c)
  source : ∀ w, after.lookup (sourceDir ++ w) = before.lookup (sourceDir ++ w)

section Returned

variable {sourceDir targetDir : JPath} {order : Order} {depth : Nat} {m m' : Machine}

/-- A call that returns leaves an overlay that has every file. -/
theorem overlay_of_returned (hapart : Apart sourceDir targetDir)
    (hrun : copyDirectiory order depth sourceDir targetDir m = .ok () m') :
    Overlay sourceDir targetDir none m.files m'.files ∧
      ∀ w c, m.files.lookup (sourceDir ++ w) = some (.file c) →
        m'.files.lookup (targetDir ++ w) ≠ none := by
  by_cases hdir : m.files.lookup sourceDir = some .dir
  · have houtcome := copyDirectiory_outcome order depth hapart hdir
    rw [hrun] at houtcome
    cases houtcome with
    | returned _ hoverlay hcovered => exact ⟨hoverlay, fun w c => hcovered w c trivial⟩
  · obtain ⟨e, m'', herror, -⟩ := copyDirectiory_null order depth hapart hdir
    rw [hrun] at herror
    cases herror

/-- **A directory is overlaid without overwriting** when the call returns. -/
theorem overlaid (hapart : Apart sourceDir targetDir)
    (hrun : copyDirectiory order depth sourceDir targetDir m = .ok () m') :
    Overlaid sourceDir targetDir m.files m'.files := by
  obtain ⟨hoverlay, hcovered⟩ := overlay_of_returned hapart hrun
  have hnew {w : JPath} {e : Entry (List UInt8)}
      (hsome : m'.files.lookup (targetDir ++ w) = some e) :
      m.files.lookup (targetDir ++ w) = some e ∨
        m.files.lookup (targetDir ++ w) = none ∧ m.files.lookup (sourceDir ++ w) = some e := by
    rcases hoverlay.target hsome with hold | ⟨hnone, hsource | ⟨c, hbroken, -⟩⟩
    · exact Or.inl hold
    · exact Or.inr ⟨hnone, hsource⟩
    · cases hbroken
  refine ⟨fun w c hfile hnone => ?_, fun w c => hoverlay.keeps _ _, fun w => hoverlay.keeps _ _,
    fun w c => hnew, hoverlay.source hapart⟩
  obtain ⟨e, he⟩ := Option.ne_none_iff_exists'.mp (hcovered w c hfile)
  rcases hnew he with hold | ⟨-, hsource⟩
  · rw [hnone] at hold
    cases hold
  · rw [he, ← hsource, hfile]

end Returned

/-- A directory `s` with a file `f` and another one in `s/d`, and a directory `t` with files
`f` and `h` of its own. -/
def twoDirectories : Tree :=
  ((((FileSystem.empty.mkdirs [js "s", js "d"]).mkdirs [js "t"]).put [js "s", js "f"]
    (.file [1, 2])).put [js "s", js "d", js "g"] (.file [3])).put [js "t", js "f"] (.file [9])
      |>.put [js "t", js "h"] (.file [4])

theorem apart_sample : Apart [js "s"] [js "t"] := by
  unfold Apart
  decide

theorem overlaid_sample : ∃ m',
    copyDirectiory .kept 2 [js "s"] [js "t"] ⟨twoDirectories, []⟩ = .ok () m' ∧
      Overlaid [js "s"] [js "t"] twoDirectories m'.files ∧
      m'.files.lookup [js "t", js "f"] = some (.file [9]) ∧
      m'.files.lookup [js "t", js "h"] = some (.file [4]) ∧
      m'.files.lookup [js "t", js "d", js "g"] = some (.file [3]) := by
  have hrun : ∃ m', copyDirectiory .kept 2 [js "s"] [js "t"] ⟨twoDirectories, []⟩ = .ok () m' :=
    ⟨_, rfl⟩
  obtain ⟨m', hrun⟩ := hrun
  have hoverlaid := overlaid apart_sample hrun
  exact ⟨m', hrun, hoverlaid, hoverlaid.filesKept [js "f"] _ (by decide),
    hoverlaid.filesKept [js "h"] _ (by decide),
    hoverlaid.copied [js "d", js "g"] _ (by decide) (by decide)⟩

/-! ## A second call after an interrupted one -/

/-- Every file that was not at the target has its full content there. -/
def Repaired (sourceDir targetDir : JPath) (before after : Tree) : Prop :=
  ∀ w c, before.lookup (sourceDir ++ w) = some (.file c) →
    before.lookup (targetDir ++ w) = none → after.lookup (targetDir ++ w) = some (.file c)

/-- The operation that failed was in the middle of a file: a part of it was on the disk
then. -/
def CutShort (sourceDir targetDir : JPath) (before failed : Tree) : Prop :=
  ∃ w c d, before.lookup (sourceDir ++ w) = some (.file c) ∧
    before.lookup (targetDir ++ w) = none ∧
    failed.lookup (targetDir ++ w) = some (.file d) ∧ d.length < c.length

/-- The file at `w` is there in part. -/
def isPart (sourceDir targetDir : JPath) (before failed : Tree) (w : JPath) : Bool :=
  match before.lookup (sourceDir ++ w), before.lookup (targetDir ++ w),
    failed.lookup (targetDir ++ w) with
  | some (.file c), none, some (.file d) => d.length < c.length
  | _, _, _ => false

theorem isPart_iff {sourceDir targetDir : JPath} {before failed : Tree} {w : JPath} :
    isPart sourceDir targetDir before failed w = true ↔
      ∃ c d, before.lookup (sourceDir ++ w) = some (.file c) ∧
        before.lookup (targetDir ++ w) = none ∧
        failed.lookup (targetDir ++ w) = some (.file d) ∧ d.length < c.length := by
  unfold isPart
  split
  next c d hsource hnone hpart => simp [hsource, hnone, hpart]
  next hother =>
    refine iff_of_false Bool.false_ne_true fun h => ?_
    obtain ⟨c, d, hsource, hnone, hpart, -⟩ := h
    exact hother c d hsource hnone hpart

theorem cutShort_iff {sourceDir targetDir : JPath} {before failed : Tree} :
    (∃ q ∈ failed.entries.keys, targetDir <+: q ∧
      isPart sourceDir targetDir before failed (q.drop targetDir.length) = true) ↔
        CutShort sourceDir targetDir before failed := by
  constructor
  · intro h
    obtain ⟨q, -, -, hpart⟩ := h
    exact ⟨_, isPart_iff.mp hpart⟩
  · intro h
    obtain ⟨w, c, d, hsource, hnone, hpart, hlt⟩ := h
    refine ⟨targetDir ++ w, mem_keys_of_file hpart, List.prefix_append _ _, ?_⟩
    rw [List.drop_left]
    exact isPart_iff.mpr ⟨c, d, hsource, hnone, hpart, hlt⟩

instance (sourceDir targetDir : JPath) (before failed : Tree) :
    Decidable (CutShort sourceDir targetDir before failed) :=
  decidable_of_iff _ cutShort_iff

section Interrupted

variable {sourceDir targetDir : JPath} {order order' : Order} {depth depth' : Nat}
  {m m' m'' : Machine} {faults : List (Option Nat)} {e : IOException}

/-- A second call that returns gives every file its full content, but a broken one keeps
what it has. -/
theorem repaired_entry {broken : Option (JPath × List UInt8)} (hapart : Apart sourceDir targetDir)
    (hfirst : Overlay sourceDir targetDir broken m.files m'.files)
    (hsecond : copyDirectiory order depth sourceDir targetDir { m' with faults := faults } =
      .ok () m'')
    {w : JPath} {c : List UInt8} (hfile : m.files.lookup (sourceDir ++ w) = some (.file c))
    (hnone : m.files.lookup (targetDir ++ w) = none) :
    m''.files.lookup (targetDir ++ w) = some (.file c) ∨
      ∃ d, broken = some (targetDir ++ w, d) ∧
        m''.files.lookup (targetDir ++ w) = some (.file d) := by
  obtain ⟨hoverlay, hcovered⟩ := overlay_of_returned hapart hsecond
  have hstill : m'.files.lookup (sourceDir ++ w) = some (.file c) := by
    rw [hfirst.source hapart, hfile]
  obtain ⟨e, he⟩ := Option.ne_none_iff_exists'.mp (hcovered w c hstill)
  rcases hoverlay.target he with hold | ⟨-, hsource | ⟨d, hbroken, -⟩⟩
  · rcases hfirst.target hold with hbefore | ⟨-, hsource | ⟨d, hbroken, rfl⟩⟩
    · rw [hnone] at hbefore
      cases hbefore
    · exact Or.inl (by rw [he, ← hsource, hfile])
    · exact Or.inr ⟨d, hbroken, he⟩
  · exact Or.inl (by rw [he, ← hsource, hstill])
  · cases hbroken

/-- **An interrupted copy is repaired by repeating it exactly when** the operation that
failed in the first call was not in the middle of a file. -/
theorem repaired_iff (hapart : Apart sourceDir targetDir)
    (hfirst : copyDirectiory order depth sourceDir targetDir m = .error (.io e) m')
    (hsecond : copyDirectiory order' depth' sourceDir targetDir { m' with faults := faults } =
      .ok () m'') :
    Repaired sourceDir targetDir m.files m''.files ↔
      ¬ CutShort sourceDir targetDir m.files m'.files := by
  have hdir : m.files.lookup sourceDir = some .dir := by
    by_contra hnot
    obtain ⟨stop, m₁, herror, hstop⟩ := copyDirectiory_null order depth hapart hnot
    rw [hfirst] at herror
    cases herror
    rcases hstop with h | h
    · cases h
    · cases h
  constructor
  · intro hrepaired hcut
    obtain ⟨w, c, d, hsource, hnone, hpart, hlt⟩ := hcut
    -- the second call keeps the part that the first one left
    have hkept := (overlay_of_returned hapart hsecond).1.keeps _ _ hpart
    have hwhole := hrepaired w c hsource hnone
    obtain rfl : d = c := Entry.file.inj (Option.some.inj (hkept.symm.trans hwhole))
    omega
  · intro hwhole w' c' hfile hnone'
    have houtcome := copyDirectiory_outcome order depth hapart hdir
    rw [hfirst] at houtcome
    cases houtcome with
    | stopped _ _ hstop hoverlay =>
        rcases repaired_entry hapart hoverlay hsecond hfile hnone' with h | ⟨d, hbroken, -⟩
        · exact h
        · cases hbroken
    | interrupted w c n _ hsource hnone hn hoverlay hbroken =>
        rcases repaired_entry hapart hoverlay hsecond hfile hnone' with h | ⟨d, hd, h⟩
        · exact h
        · obtain ⟨hw, rfl⟩ := Prod.mk.inj (Option.some.inj hd)
          obtain rfl := List.append_cancel_left hw
          obtain rfl : c = c' := by
            rw [hsource] at hfile
            cases hfile
            rfl
          have hle : c.length ≤ n := by
            by_contra hlt
            refine hwhole ⟨w, c, c.take n, hsource, hnone, hbroken, ?_⟩
            rw [List.length_take]
            omega
          rwa [List.take_of_length_le hle] at h

end Interrupted

/-- The last close of the nested file fails, when all of it is on the disk. -/
def closeFault : List (Option Nat) := [none, none, none, none, none, none, none, some 1]

/-- A first call that fails when its file is closed, and a second one. -/
theorem repaired_iff_closed : ∃ e m' m'',
    copyDirectiory .kept 2 [js "s"] [js "t"] ⟨twoDirectories, closeFault⟩ = .error (.io e) m' ∧
      copyDirectiory .kept 2 [js "s"] [js "t"] { m' with faults := [] } = .ok () m'' ∧
      ¬ CutShort [js "s"] [js "t"] twoDirectories m'.files ∧
      Repaired [js "s"] [js "t"] twoDirectories m''.files := by
  obtain ⟨e, m', m'', hfirst, hsecond, hwhole⟩ : ∃ e m' m'',
      copyDirectiory .kept 2 [js "s"] [js "t"] ⟨twoDirectories, closeFault⟩ = .error (.io e) m' ∧
        copyDirectiory .kept 2 [js "s"] [js "t"] { m' with faults := [] } = .ok () m'' ∧
        ¬ CutShort [js "s"] [js "t"] twoDirectories m'.files := ⟨_, _, _, rfl, rfl, by decide⟩
  exact ⟨e, m', m'', hfirst, hsecond, hwhole, (repaired_iff apart_sample hfirst hsecond).mpr hwhole⟩

/-- A directory `s` with a file of two bytes. -/
def sampleFiles : Tree :=
  (FileSystem.empty.mkdirs [js "s"]).put [js "s", js "f"] (.file [1, 2])

/-- The write of the two bytes fails with one of them on the disk. -/
def sampleFaults : List (Option Nat) := [none, none, none, some 1]

/-- The second call leaves the part of the file that it found. -/
theorem not_repaired_sample : ∃ m' m'',
    copyDirectiory .kept 1 [js "s"] [js "t"] ⟨sampleFiles, sampleFaults⟩ =
        .error (.io (.transfer [js "s", js "f"] [js "t", js "f"] 1)) m' ∧
      copyDirectiory .kept 1 [js "s"] [js "t"] { m' with faults := [] } = .ok () m'' ∧
      ¬ Repaired [js "s"] [js "t"] sampleFiles m''.files := by
  obtain ⟨m', m'', hfirst, hsecond, hpart⟩ : ∃ m' m'',
      copyDirectiory .kept 1 [js "s"] [js "t"] ⟨sampleFiles, sampleFaults⟩ =
          .error (.io (.transfer [js "s", js "f"] [js "t", js "f"] 1)) m' ∧
        copyDirectiory .kept 1 [js "s"] [js "t"] { m' with faults := [] } = .ok () m'' ∧
        m''.files.lookup [js "t", js "f"] = some (.file [1]) := ⟨_, _, rfl, rfl, rfl⟩
  refine ⟨m', m'', hfirst, hsecond, fun h => ?_⟩
  have hwhole := h [js "f"] [1, 2] rfl rfl
  rw [show [js "t"] ++ [js "f"] = [js "t", js "f"] from rfl, hpart] at hwhole
  cases hwhole

end TrashClear.FileUtil
